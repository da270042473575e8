import Mathlib.Data.Int.Range
import Podly.Intervals.Length

/-! The cells of a stretch as a list: what stretches hold that are put one after the other, what a
list of intervals leaves of a stretch, and where a part of it then lies. -/
namespace Intervals

/-- The cells of a list of stretches, one stretch after the other. -/
def played (pieces : List (ℤ × ℤ)) : List ℤ := pieces.flatMap (fun p => Int.range p.1 p.2)

/-- The cells of a stretch that no interval covers. -/
def uncovered (ws : List (ℤ × ℤ)) (a b : ℤ) : List ℤ :=
  (Int.range a b).filter (fun t => ¬ Covers ws t)

/-- What stretches play of a source that ends at `stop`. -/
def audible (stop : ℤ) (pieces : List (ℤ × ℤ)) : List ℤ := (played pieces).filter (fun t => t < stop)

@[simp] theorem played_nil : played [] = [] := rfl

@[simp] theorem played_cons (p : ℤ × ℤ) (ps : List (ℤ × ℤ)) :
    played (p::ps) = Int.range p.1 p.2 ++ played ps := rfl

@[simp] theorem played_append (ps qs : List (ℤ × ℤ)) :
    played (ps ++ qs) = played ps ++ played qs := List.flatMap_append

theorem mem_played {ps : List (ℤ × ℤ)} {t : ℤ} : t ∈ played ps ↔ Covers ps t := by
  simp only [played,List.mem_flatMap,Int.mem_range_iff,Covers]

theorem mem_uncovered {ws : List (ℤ × ℤ)} {a b t : ℤ} :
    t ∈ uncovered ws a b ↔ (a ≤ t ∧ t < b) ∧ ¬ Covers ws t := by
  rw [uncovered,List.mem_filter,Int.mem_range_iff,decide_eq_true_eq]

theorem range_sorted (a b : ℤ) : (Int.range a b).Pairwise (· < ·) := by
  rw [Int.range,List.pairwise_map]
  exact List.pairwise_lt_range.imp (fun h => by omega)

theorem uncovered_sorted (ws : List (ℤ × ℤ)) (a b : ℤ) : (uncovered ws a b).Pairwise (· < ·) :=
  (range_sorted a b).filter _

/-- Stretches in order, touching or not. -/
theorem played_sorted {ps : List (ℤ × ℤ)} (h : ps.Pairwise (fun p q => p.2 ≤ q.1)) :
    (played ps).Pairwise (· < ·) := by
  rw [played,List.pairwise_flatMap]
  refine ⟨fun p _ => range_sorted p.1 p.2,h.imp ?_⟩
  intro p q hpq s hs t ht
  exact ((Int.mem_range_iff.mp hs).2.trans_le hpq).trans_le (Int.mem_range_iff.mp ht).1

theorem uncovered_congr {us ws : List (ℤ × ℤ)} {a b : ℤ}
    (h : ∀ t, a ≤ t → t < b → (Covers us t ↔ Covers ws t)) : uncovered us a b = uncovered ws a b := by
  refine List.filter_congr (fun t ht => ?_)
  obtain ⟨hat,htb⟩ := Int.mem_range_iff.mp ht
  exact decide_eq_decide.mpr (not_congr (h t hat htb))

theorem audible_eq_uncovered {ps ws : List (ℤ × ℤ)} {a stop : ℤ}
    (h : ps.Pairwise (fun p q => p.2 ≤ q.1))
    (hcov : ∀ t, t < stop → (Covers ps t ↔ a ≤ t ∧ ¬ Covers ws t)) :
    audible stop ps = uncovered ws a stop := by
  refine ((played_sorted h).filter _).eq_of_mem_iff (uncovered_sorted ws a stop) (fun t => ?_)
  rw [List.mem_filter,decide_eq_true_eq,mem_played,mem_uncovered]
  constructor
  · rintro ⟨hplays,hlt⟩
    obtain ⟨hle,hfree⟩ := (hcov t hlt).mp hplays
    exact ⟨⟨hle,hlt⟩,hfree⟩
  · rintro ⟨⟨hle,hlt⟩,hfree⟩
    exact ⟨(hcov t hlt).mpr ⟨hle,hfree⟩,hlt⟩

theorem uncovered_eq_nil {ws : List (ℤ × ℤ)} {a b : ℤ} (h : b ≤ a) : uncovered ws a b = [] := by
  rw [List.eq_nil_iff_forall_not_mem]
  intro t ht
  have hbounds := (mem_uncovered.mp ht).1
  omega

/-- What is left of adjacent stretches. -/
theorem uncovered_append (ws : List (ℤ × ℤ)) {a b c : ℤ} (hab : a ≤ b) (hbc : b ≤ c) :
    uncovered ws a b ++ uncovered ws b c = uncovered ws a c := by
  have hsorted : (uncovered ws a b ++ uncovered ws b c).Pairwise (· < ·) := by
    rw [List.pairwise_append]
    refine ⟨uncovered_sorted ws a b,uncovered_sorted ws b c,?_⟩
    intro s hs t ht
    exact (mem_uncovered.mp hs).1.2.trans_le (mem_uncovered.mp ht).1.1
  refine hsorted.eq_of_mem_iff (uncovered_sorted ws a c) (fun t => ?_)
  rw [List.mem_append,mem_uncovered,mem_uncovered,mem_uncovered]
  constructor
  · rintro (⟨hbounds,hfree⟩ | ⟨hbounds,hfree⟩) <;> exact ⟨by omega,hfree⟩
  · rintro ⟨hbounds,hfree⟩
    rcases lt_or_ge t b with htb | htb
    · exact Or.inl ⟨by omega,hfree⟩
    · exact Or.inr ⟨by omega,hfree⟩

theorem uncovered_of_free {ws : List (ℤ × ℤ)} {a b : ℤ}
    (h : ∀ t, a ≤ t → t < b → ¬ Covers ws t) : uncovered ws a b = Int.range a b := by
  refine List.filter_eq_self.mpr (fun t ht => decide_eq_true ?_)
  obtain ⟨hat,htb⟩ := Int.mem_range_iff.mp ht
  exact h t hat htb

theorem uncovered_of_covered {ws : List (ℤ × ℤ)} {a b : ℤ}
    (h : ∀ t, a ≤ t → t < b → Covers ws t) : uncovered ws a b = [] := by
  rw [List.eq_nil_iff_forall_not_mem]
  intro t ht
  obtain ⟨⟨hat,htb⟩,hfree⟩ := mem_uncovered.mp ht
  exact hfree (h t hat htb)

theorem range_append {a b c : ℤ} (hab : a ≤ b) (hbc : b ≤ c) :
    Int.range a b ++ Int.range b c = Int.range a c := by
  have h := uncovered_append [] hab hbc
  rwa [uncovered_of_free (fun _ _ _ => covers_nil _),uncovered_of_free (fun _ _ _ => covers_nil _),
    uncovered_of_free (fun _ _ _ => covers_nil _)] at h

theorem range_eq_nil {a b : ℤ} (h : b ≤ a) : Int.range a b = [] := by
  have hnil := @uncovered_eq_nil [] a b h
  rwa [uncovered_of_free (fun _ _ _ => covers_nil _)] at hnil

theorem length_uncovered (ws : List (ℤ × ℤ)) (a b : ℤ) :
    ((uncovered ws a b).length : ℤ) = keptCells ws a b := by
  have hset : (Finset.Ico a b).filter (fun t => ¬ Covers ws t) = (uncovered ws a b).toFinset := by
    ext t
    rw [Finset.mem_filter,Finset.mem_Ico,List.mem_toFinset,mem_uncovered]
  rw [keptCells,hset,List.toFinset_card_of_nodup ((uncovered_sorted ws a b).imp ne_of_lt)]

/-- Separated intervals cover their summed length. -/
theorem coveredCells_eq_total {ws : List (ℤ × ℤ)} (h : Separated ws) {a b : ℤ} (hab : a ≤ b)
    (hwithin : ∀ w ∈ ws, a ≤ w.1 ∧ w.2 ≤ b) : coveredCells ws a b = total ws := by
  induction ws generalizing a with
  | nil => rw [coveredCells_empty (fun _ _ _ => covers_nil _),total_nil]
  | cons w ws ih =>
    obtain ⟨hw,hbehind,hrest⟩ := Separated.cons_iff.mp h
    obtain ⟨haw,hwb⟩ := hwithin w List.mem_cons_self
    have hbefore : coveredCells (w::ws) a w.1 = 0 :=
      coveredCells_empty (fun t _ ht hcov => absurd (h.head_le_of_covers hcov) (not_le.mpr ht))
    have hinside : coveredCells (w::ws) w.1 w.2 = w.2 - w.1 :=
      coveredCells_full hw.le (fun t hle hlt => (covers_cons w ws t).mpr (Or.inl ⟨hle,hlt⟩))
    have hpast : coveredCells (w::ws) w.2 b = coveredCells ws w.2 b := by
      refine coveredCells_congr (fun t hle _ => ?_)
      rw [covers_cons,or_iff_right]
      omega
    have hih := ih hrest hwb
      (fun v hv => ⟨(hbehind v hv).le,(hwithin v (List.mem_cons_of_mem w hv)).2⟩)
    rw [coveredCells_add (w::ws) haw (hw.le.trans hwb),coveredCells_add (w::ws) hw.le hwb,hbefore,hinside,
      hpast,hih,total_cons,zero_add]

/-- Cells that only one list covers count at most once each. -/
theorem coveredCells_le_add {us ws : List (ℤ × ℤ)} {cells : List ℤ}
    (h : ∀ t, Covers us t → Covers ws t ∨ t ∈ cells) (a b : ℤ) :
    coveredCells us a b ≤ coveredCells ws a b + cells.length := by
  have hsub : (Finset.Ico a b).filter (Covers us) ⊆
      (Finset.Ico a b).filter (Covers ws) ∪ cells.toFinset := by
    intro t ht
    obtain ⟨hin,hcov⟩ := Finset.mem_filter.mp ht
    rw [Finset.mem_union,Finset.mem_filter,List.mem_toFinset]
    exact (h t hcov).imp_left (fun hws => ⟨hin,hws⟩)
  have hcard := (Finset.card_le_card hsub).trans (Finset.card_union_le _ _)
  have hcells := cells.toFinset_card_le
  unfold coveredCells
  omega

/-- A position is the length of what is left before it. -/
theorem retime_eq_length (ws : List (ℤ × ℤ)) {t : ℤ} (ht : 0 ≤ t) :
    retime ws t = (uncovered ws 0 t).length := by
  have hzero : retime ws 0 = 0 := by rw [retime,coveredCells_empty (by omega),sub_zero]
  rw [length_uncovered,← retime_sub_retime ws le_rfl ht,hzero,sub_zero]

/-- Between the positions of two cells lies what is left between them. -/
theorem extract_uncovered (ws : List (ℤ × ℤ)) {a b : ℤ} (ha : 0 ≤ a) (hab : a ≤ b) (stop : ℤ) :
    (uncovered ws 0 stop).extract (retime ws a).toNat (retime ws b).toNat =
      uncovered ws a (min b stop) := by
  have hleft : ∀ {t}, 0 ≤ t → (retime ws t).toNat = (uncovered ws 0 t).length := by
    intro t ht
    rw [retime_eq_length ws ht,Int.toNat_natCast]
  rw [hleft ha,hleft (ha.trans hab),List.extract_eq_take_drop]
  rcases le_or_gt a stop with hstop | hstop
  · -- The stretch up to the stop is what comes before `a` and what comes behind it.
    rw [← uncovered_append ws ha hstop,List.drop_left,← uncovered_append ws ha hab,
      List.length_append,Nat.add_sub_cancel_left]
    rcases le_total b stop with hb | hb
    · rw [min_eq_left hb,← uncovered_append ws hab hb,List.take_left]
    · rw [min_eq_right hb,List.take_of_length_le]
      rw [← uncovered_append ws hstop hb,List.length_append]
      exact Nat.le_add_right _ _
  · -- Past the stop nothing is left.
    rw [uncovered_eq_nil ((min_le_right b stop).trans hstop.le),List.drop_eq_nil_of_le,List.take_nil]
    have hlength : (uncovered ws 0 stop).length ≤ (uncovered ws 0 a).length := by
      rcases le_total 0 stop with hpos | hneg
      · rw [← uncovered_append ws hpos hstop.le,List.length_append]
        exact Nat.le_add_right _ _
      · rw [uncovered_eq_nil hneg]
        exact Nat.zero_le _
    exact hlength

end Intervals
