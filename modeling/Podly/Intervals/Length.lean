import Mathlib
import Podly.Intervals.Coalesce

/-! Lengths over the integers: the summed length of a list of intervals, and the number of cells
of a stretch that a list covers. -/
namespace Intervals

/-- The summed length of a list of intervals, overlaps counted each time. -/
def total (ws : List (ℤ × ℤ)) : ℤ := (ws.map (fun w => w.2 - w.1)).sum

@[simp] theorem total_nil : total [] = 0 := rfl

@[simp] theorem total_cons (w : ℤ × ℤ) (ws : List (ℤ × ℤ)) :
    total (w::ws) = (w.2 - w.1) + total ws := rfl

@[simp] theorem total_append (us ws : List (ℤ × ℤ)) :
    total (us ++ ws) = total us + total ws := by simp [total]

/-- Natural endpoints as integers. -/
def toInt (ws : List (ℕ × ℕ)) : List (ℤ × ℤ) := ws.map (fun w => (w.1,w.2))

@[simp] theorem toInt_nil : toInt [] = [] := rfl

@[simp] theorem toInt_cons (w : ℕ × ℕ) (ws : List (ℕ × ℕ)) :
    toInt (w::ws) = ((w.1 : ℤ),(w.2 : ℤ))::toInt ws := rfl

@[simp] theorem toInt_append (us ws : List (ℕ × ℕ)) : toInt (us ++ ws) = toInt us ++ toInt ws := by
  simp [toInt]

/-- Dropping intervals that are not positive loses no length when none is inverted. -/
theorem total_filter_lt (ws : List (ℕ × ℕ)) (h : ∀ w ∈ ws, w.1 ≤ w.2) :
    total (toInt (ws.filter (fun w => w.1 < w.2))) = total (toInt ws) := by
  induction ws with
  | nil => rfl
  | cons w ws ih =>
    have hw := h w (by simp)
    have hrest := ih (fun v hv => h v (by simp [hv]))
    by_cases hlt : w.1 < w.2
    · simp [hlt, hrest]
    · simp only [List.filter_cons, hlt, decide_false, Bool.false_eq_true, if_false, hrest,
        toInt_cons, total_cons]
      omega

/-- Sorted disjoint intervals inside `[0,stop]`, touching and empty ones allowed. -/
structure DisjointWithin (stop : ℕ) (ws : List (ℕ × ℕ)) : Prop where
  le : ∀ w ∈ ws, w.1 ≤ w.2
  within : ∀ w ∈ ws, w.2 ≤ stop
  ordered : ws.Pairwise (fun a b => a.2 ≤ b.1)

theorem DisjointWithin.tail {stop : ℕ} {w : ℕ × ℕ} {ws : List (ℕ × ℕ)}
    (h : DisjointWithin stop (w::ws)) : DisjointWithin stop ws :=
  ⟨fun v hv => h.le v (by simp [hv]),fun v hv => h.within v (by simp [hv]),
    (List.pairwise_cons.mp h.ordered).2⟩

/-- The number of integer cells `[t,t+1)` of `[a,b)` that the list covers. -/
noncomputable def coveredCells (ws : List (ℤ × ℤ)) (a b : ℤ) : ℤ :=
  ((Finset.Ico a b).filter (Covers ws)).card

/-- The number of cells of `[a,b)` that the list leaves. -/
noncomputable def keptCells (ws : List (ℤ × ℤ)) (a b : ℤ) : ℤ :=
  ((Finset.Ico a b).filter (fun t => ¬ Covers ws t)).card

theorem coveredCells_nonneg (ws : List (ℤ × ℤ)) (a b : ℤ) : 0 ≤ coveredCells ws a b :=
  Int.natCast_nonneg _

theorem keptCells_nonneg (ws : List (ℤ × ℤ)) (a b : ℤ) : 0 ≤ keptCells ws a b :=
  Int.natCast_nonneg _

theorem coveredCells_add_keptCells (ws : List (ℤ × ℤ)) {a b : ℤ} (h : a ≤ b) :
    coveredCells ws a b + keptCells ws a b = b - a := by
  have hcard := @Finset.card_filter_add_card_filter_not _ (Finset.Ico a b) (Covers ws) _ _
  rw [Int.card_Ico] at hcard
  unfold coveredCells keptCells
  omega

theorem coveredCells_congr {us ws : List (ℤ × ℤ)} {a b : ℤ}
    (h : ∀ t, a ≤ t → t < b → (Covers us t ↔ Covers ws t)) :
    coveredCells us a b = coveredCells ws a b := by
  unfold coveredCells
  congr 2
  apply Finset.filter_congr
  intro t ht
  obtain ⟨hat,htb⟩ := Finset.mem_Ico.mp ht
  exact h t hat htb

/-- Covered cells add up along adjacent stretches. -/
theorem coveredCells_add (ws : List (ℤ × ℤ)) {a b c : ℤ} (hab : a ≤ b) (hbc : b ≤ c) :
    coveredCells ws a c = coveredCells ws a b + coveredCells ws b c := by
  unfold coveredCells
  rw [← Finset.Ico_union_Ico_eq_Ico hab hbc,Finset.filter_union,Finset.card_union_of_disjoint]
  · push_cast
    rfl
  · exact Finset.disjoint_filter_filter (Finset.Ico_disjoint_Ico_consecutive a b c)

theorem coveredCells_full {ws : List (ℤ × ℤ)} {a b : ℤ} (hab : a ≤ b)
    (h : ∀ t, a ≤ t → t < b → Covers ws t) : coveredCells ws a b = b - a := by
  unfold coveredCells
  rw [Finset.filter_true_of_mem,Int.card_Ico]
  · omega
  · intro t ht
    obtain ⟨hat,htb⟩ := Finset.mem_Ico.mp ht
    exact h t hat htb

theorem coveredCells_empty {ws : List (ℤ × ℤ)} {a b : ℤ}
    (h : ∀ t, a ≤ t → t < b → ¬ Covers ws t) : coveredCells ws a b = 0 := by
  unfold coveredCells
  rw [Finset.filter_false_of_mem]
  · rfl
  · intro t ht
    obtain ⟨hat,htb⟩ := Finset.mem_Ico.mp ht
    exact h t hat htb

/-- The position of `t` once everything covered before it has been removed. -/
noncomputable def retime (ws : List (ℤ × ℤ)) (t : ℤ) : ℤ := t - coveredCells ws 0 t

/-- Between two positions the new distance is the length that is kept. -/
theorem retime_sub_retime (ws : List (ℤ × ℤ)) {s t : ℤ} (hs : 0 ≤ s) (hst : s ≤ t) :
    retime ws t - retime ws s = keptCells ws s t := by
  have hadd := coveredCells_add ws hs hst
  have hkept := coveredCells_add_keptCells ws hst
  unfold retime
  omega

theorem retime_mono (ws : List (ℤ × ℤ)) {s t : ℤ} (hs : 0 ≤ s) (hst : s ≤ t) :
    retime ws s ≤ retime ws t := by
  have hsub := retime_sub_retime ws hs hst
  have hkept := keptCells_nonneg ws s t
  omega

theorem retime_nonneg (ws : List (ℤ × ℤ)) {t : ℤ} (ht : 0 ≤ t) : 0 ≤ retime ws t := by
  have hzero : retime ws 0 = 0 := by simp [retime, coveredCells]
  exact hzero ▸ retime_mono ws le_rfl ht

end Intervals
