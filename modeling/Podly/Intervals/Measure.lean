import Mathlib.MeasureTheory.Measure.Lebesgue.Basic
import Mathlib.MeasureTheory.Measure.Real
import Podly.Intervals.Coalesce

/-! The length of what a list of rational windows covers of a stretch. -/
namespace Intervals
open MeasureTheory Set

/-- The points of a stretch that a list of windows covers. -/
def coveredIn (ws : List (ℚ × ℚ)) (a b : ℚ) : Set ℝ :=
  {x | (a ≤ x ∧ x < b) ∧ ∃ w ∈ ws, w.1 ≤ x ∧ x < w.2}

/-- Their length. -/
noncomputable def coveredLength (ws : List (ℚ × ℚ)) (a b : ℚ) : ℝ := volume.real (coveredIn ws a b)

/-- The lengths of windows, overlaps counted each time. -/
def summedLength (ws : List (ℚ × ℚ)) : ℚ := (ws.map (fun w => w.2 - w.1)).sum

/-- No window that is not empty begins in one before it. -/
def Apart (ws : List (ℚ × ℚ)) : Prop := ws.Pairwise (fun v w => w.1 < w.2 → v.2 ≤ w.1)

section
variable {w : ℚ × ℚ} {ws : List (ℚ × ℚ)} {a b c : ℚ}

theorem coveredIn_nil : coveredIn [] a b = ∅ := by simp [coveredIn]

theorem coveredIn_cons :
    coveredIn (w::ws) a b = Ico (max w.1 a : ℝ) (min w.2 b) ∪ coveredIn ws a b := by
  ext x
  simp only [coveredIn,List.exists_mem_cons_iff,mem_ofPred_eq,mem_union,mem_Ico,max_le_iff,
    lt_min_iff]
  tauto

theorem coveredIn_subset : coveredIn ws a b ⊆ Ico (a : ℝ) b := fun _ h => h.1

theorem measurableSet_coveredIn : MeasurableSet (coveredIn ws a b) := by
  induction ws with
  | nil =>
    rw [coveredIn_nil]
    exact MeasurableSet.empty
  | cons w ws ih =>
    rw [coveredIn_cons]
    exact measurableSet_Ico.union ih

theorem volume_coveredIn_ne_top : volume (coveredIn ws a b) ≠ ⊤ :=
  measure_ne_top_of_subset coveredIn_subset (by simp)

theorem coveredLength_nil : coveredLength [] a b = 0 := by simp [coveredLength,coveredIn_nil]

/-- A stretch of which nothing is covered. -/
theorem coveredLength_eq_zero (h : ∀ v ∈ ws, v.1 < v.2 → v.2 ≤ a ∨ b ≤ v.1) :
    coveredLength ws a b = 0 := by
  have hempty : coveredIn ws a b = ∅ := by
    refine eq_empty_iff_forall_notMem.mpr ?_
    rintro x ⟨⟨hax,hxb⟩,v,hv,hvx,hxv⟩
    have hlt : v.1 < v.2 := by exact_mod_cast hvx.trans_lt hxv
    rcases h v hv hlt with hle | hle
    · have hle' : (v.2 : ℝ) ≤ a := by exact_mod_cast hle
      linarith
    · have hle' : (b : ℝ) ≤ v.1 := by exact_mod_cast hle
      linarith
  simp [coveredLength,hempty]

/-- The length of a stretch is that of its parts. -/
theorem coveredLength_add (hab : a ≤ b) (hbc : b ≤ c) :
    coveredLength ws a c = coveredLength ws a b + coveredLength ws b c := by
  have hab' : (a : ℝ) ≤ b := by exact_mod_cast hab
  have hbc' : (b : ℝ) ≤ c := by exact_mod_cast hbc
  have hunion : coveredIn ws a c = coveredIn ws a b ∪ coveredIn ws b c := by
    ext x
    constructor
    · rintro ⟨⟨hax,hxc⟩,hcov⟩
      rcases lt_or_ge x (b : ℝ) with hxb | hbx
      · exact Or.inl ⟨⟨hax,hxb⟩,hcov⟩
      · exact Or.inr ⟨⟨hbx,hxc⟩,hcov⟩
    · rintro (⟨⟨hax,hxb⟩,hcov⟩ | ⟨⟨hbx,hxc⟩,hcov⟩)
      · exact ⟨⟨hax,hxb.trans_le hbc'⟩,hcov⟩
      · exact ⟨⟨hab'.trans hbx,hxc⟩,hcov⟩
  have hdisjoint : Disjoint (coveredIn ws a b) (coveredIn ws b c) := by
    refine disjoint_left.mpr ?_
    rintro x ⟨⟨-,hxb⟩,-⟩ ⟨⟨hbx,-⟩,-⟩
    exact absurd hxb (not_lt.mpr hbx)
  rw [coveredLength,hunion,measureReal_union hdisjoint measurableSet_coveredIn
    volume_coveredIn_ne_top volume_coveredIn_ne_top]
  rfl

theorem volume_real_head :
    volume.real (Ico (max w.1 a : ℝ) (min w.2 b)) = max (min w.2 b - max w.1 a : ℚ) 0 := by
  rw [Real.volume_real_Ico]
  push_cast
  rfl

theorem coveredLength_le_sub (hab : a ≤ b) : coveredLength ws a b ≤ (b - a : ℚ) := by
  have hle : volume.real (coveredIn ws a b) ≤ volume.real (Ico (a : ℝ) b) :=
    measureReal_mono coveredIn_subset (by simp)
  have hab' : (a : ℝ) ≤ b := by exact_mod_cast hab
  rw [Real.volume_real_Ico_of_le hab'] at hle
  rw [Rat.cast_sub]
  exact hle

theorem coveredLength_nonneg : 0 ≤ coveredLength ws a b := measureReal_nonneg

/-- A part of the stretch that lies in one window is covered. -/
theorem sub_le_coveredLength {s e : ℚ} (hw : w ∈ ws) (hstart : w.1 ≤ s) (hend : e ≤ w.2)
    (ha : a ≤ s) (hb : e ≤ b) (hse : s ≤ e) : ((e - s : ℚ) : ℝ) ≤ coveredLength ws a b := by
  have hsubset : Ico (s : ℝ) e ⊆ coveredIn ws a b := by
    rintro x ⟨hsx,hxe⟩
    refine ⟨⟨?_,?_⟩,w,hw,?_,?_⟩
    · exact le_trans (by exact_mod_cast ha) hsx
    · exact hxe.trans_le (by exact_mod_cast hb)
    · exact le_trans (by exact_mod_cast hstart) hsx
    · exact hxe.trans_le (by exact_mod_cast hend)
  have hle : volume.real (Ico (s : ℝ) e) ≤ coveredLength ws a b :=
    measureReal_mono hsubset volume_coveredIn_ne_top
  have hse' : (s : ℝ) ≤ e := by exact_mod_cast hse
  rwa [Real.volume_real_Ico_of_le hse',← Rat.cast_sub] at hle

/-- A window before all others adds its own length. -/
theorem coveredLength_cons (h : ∀ v ∈ ws, v.1 < v.2 → w.2 ≤ v.1) :
    coveredLength (w::ws) a b = max (min w.2 b - max w.1 a : ℚ) 0 + coveredLength ws a b := by
  have hdisjoint : Disjoint (Ico (max w.1 a : ℝ) (min w.2 b)) (coveredIn ws a b) := by
    refine disjoint_left.mpr ?_
    rintro x ⟨-,hx⟩ ⟨-,v,hv,hvx,hxv⟩
    have hle : (w.2 : ℝ) ≤ v.1 := by exact_mod_cast h v hv (by exact_mod_cast hvx.trans_lt hxv)
    exact absurd (lt_min_iff.mp hx).1 (not_lt.mpr (hle.trans hvx))
  rw [coveredLength,coveredIn_cons,measureReal_union hdisjoint measurableSet_coveredIn
    (by simp) volume_coveredIn_ne_top,volume_real_head]
  rfl

theorem coveredLength_le : coveredLength (w::ws) a b ≤
    max (min w.2 b - max w.1 a : ℚ) 0 + coveredLength ws a b := by
  rw [coveredLength,coveredIn_cons,← volume_real_head]
  exact measureReal_union_le _ _

/-- Overlaps only lose length. -/
theorem coveredLength_le_summedLength (h : ∀ v ∈ ws, v.1 ≤ v.2) :
    coveredLength ws a b ≤ summedLength ws := by
  induction ws with
  | nil => simp [coveredLength_nil,summedLength]
  | cons w ws ih =>
    have hhead : max (min w.2 b - max w.1 a) 0 ≤ w.2 - w.1 := by
      have hw := h w List.mem_cons_self
      refine max_le ?_ (sub_nonneg.mpr hw)
      exact sub_le_sub (min_le_left _ _) (le_max_left _ _)
    have hhead' : ((max (min w.2 b - max w.1 a) 0 : ℚ) : ℝ) ≤ (w.2 - w.1 : ℚ) := by
      exact_mod_cast hhead
    have htail := ih (fun v hv => h v (List.mem_cons_of_mem w hv))
    rw [summedLength,List.map_cons,List.sum_cons,Rat.cast_add]
    exact coveredLength_le.trans (add_le_add hhead' htail)

/-- A window that overlaps the first one loses length. -/
theorem coveredLength_cons_lt {v : ℚ × ℚ} (hv : v ∈ ws) (hlt : v.1 < v.2) (hw : w.1 ≤ v.1)
    (hoverlap : v.1 < w.2) (ha : a ≤ v.1) (hb : v.2 ≤ b) : coveredLength (w::ws) a b <
      max (min w.2 b - max w.1 a : ℚ) 0 + coveredLength ws a b := by
  have hinter : Ico (v.1 : ℝ) (min w.2 v.2) ⊆
      Ico (max w.1 a : ℝ) (min w.2 b) ∩ coveredIn ws a b := by
    rintro x ⟨hvx,hx⟩
    obtain ⟨hxw,hxv⟩ := lt_min_iff.mp hx
    have hwx : (w.1 : ℝ) ≤ x := le_trans (by exact_mod_cast hw) hvx
    have hax : (a : ℝ) ≤ x := le_trans (by exact_mod_cast ha) hvx
    have hxb : x < b := hxv.trans_le (by exact_mod_cast hb)
    exact ⟨⟨max_le hwx hax,lt_min hxw hxb⟩,⟨hax,hxb⟩,v,hv,hvx,hxv⟩
  have hpos : 0 < volume.real (Ico (v.1 : ℝ) (min w.2 v.2)) := by
    have hlt' : (v.1 : ℝ) < min (w.2 : ℝ) v.2 :=
      lt_min (by exact_mod_cast hoverlap) (by exact_mod_cast hlt)
    rw [Real.volume_real_Ico_of_le hlt'.le]
    exact sub_pos.mpr hlt'
  have hinter' : volume.real (Ico (v.1 : ℝ) (min w.2 v.2)) ≤
      volume.real (Ico (max w.1 a : ℝ) (min w.2 b) ∩ coveredIn ws a b) :=
    measureReal_mono hinter (measure_ne_top_of_subset inter_subset_right volume_coveredIn_ne_top)
  have hsum : volume.real (Ico (max w.1 a : ℝ) (min w.2 b) ∪ coveredIn ws a b) +
      volume.real (Ico (max w.1 a : ℝ) (min w.2 b) ∩ coveredIn ws a b) =
      volume.real (Ico (max w.1 a : ℝ) (min w.2 b)) + volume.real (coveredIn ws a b) :=
    measureReal_union_add_inter measurableSet_coveredIn (by simp) volume_coveredIn_ne_top
  rw [volume_real_head,← coveredIn_cons] at hsum
  unfold coveredLength
  linarith

/-- Windows that are not apart, or begin before the stretch, lose length. -/
theorem coveredLength_lt_summedLength (h : ∀ v ∈ ws, v.1 ≤ v.2) (hb : ∀ v ∈ ws, v.2 ≤ b)
    (hsorted : ws.Pairwise (fun v w => v.1 ≤ w.1))
    (hlost : ¬(Apart ws ∧ ∀ v ∈ ws, v.1 < v.2 → a ≤ v.1)) :
    coveredLength ws a b < summedLength ws := by
  induction ws with
  | nil => exact absurd ⟨List.Pairwise.nil,by simp⟩ hlost
  | cons w ws ih =>
    have hle : ∀ v ∈ ws, v.1 ≤ v.2 := fun v hv => h v (List.mem_cons_of_mem w hv)
    rw [List.pairwise_cons] at hsorted
    have hhead : max (min w.2 b - max w.1 a) 0 ≤ w.2 - w.1 :=
      max_le (sub_le_sub (min_le_left _ _) (le_max_left _ _))
        (sub_nonneg.mpr (h w List.mem_cons_self))
    have hhead' : ((max (min w.2 b - max w.1 a) 0 : ℚ) : ℝ) ≤ (w.2 - w.1 : ℚ) := by
      exact_mod_cast hhead
    rw [summedLength,List.map_cons,List.sum_cons,Rat.cast_add]
    change coveredLength (w::ws) a b < _ + (summedLength ws : ℝ)
    by_cases htail : Apart ws ∧ ∀ v ∈ ws, v.1 < v.2 → a ≤ v.1
    · by_cases hfirst : w.1 < w.2 ∧ w.1 < a
      · -- The part of the first window before the stretch is lost.
        have hcut : max (min w.2 b - max w.1 a) 0 < w.2 - w.1 := by
          refine max_lt ?_ (sub_pos.mpr hfirst.1)
          rw [max_eq_right hfirst.2.le]
          have hmin := min_le_left w.2 b
          linarith [hfirst.2]
        have hcut' : ((max (min w.2 b - max w.1 a) 0 : ℚ) : ℝ) < (w.2 - w.1 : ℚ) := by
          exact_mod_cast hcut
        exact coveredLength_le.trans_lt
          (add_lt_add_of_lt_of_le hcut' (coveredLength_le_summedLength hle))
      · -- A later window begins in the first one.
        have hoverlap : ∃ v ∈ ws, v.1 < v.2 ∧ v.1 < w.2 := by
          by_contra hnone
          refine hlost ⟨List.pairwise_cons.mpr ⟨fun v hv hlt => ?_,htail.1⟩,fun v hv hlt => ?_⟩
          · exact not_lt.mp (fun hvw => hnone ⟨v,hv,hlt,hvw⟩)
          · rcases List.mem_cons.mp hv with rfl | hv
            · exact not_lt.mp (fun hva => hfirst ⟨hlt,hva⟩)
            · exact htail.2 v hv hlt
        obtain ⟨v,hv,hlt,hvw⟩ := hoverlap
        exact (coveredLength_cons_lt hv hlt (hsorted.1 v hv) hvw (htail.2 v hv hlt)
          (hb v (List.mem_cons_of_mem w hv))).trans_le
          (add_le_add hhead' (coveredLength_le_summedLength hle))
    · exact coveredLength_le.trans_lt (add_lt_add_of_le_of_lt hhead'
        (ih hle (fun v hv => hb v (List.mem_cons_of_mem w hv)) hsorted.2 htail))

end

end Intervals
