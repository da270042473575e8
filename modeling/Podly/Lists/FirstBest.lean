import Mathlib.Data.List.Basic
import Mathlib.Order.MinMax
import Mathlib.Order.Monotone.Basic

/-! The first entry of largest positive score, as a loop that keeps the best entry so far finds it,
and what becomes of it when every score is raised. -/
namespace FirstBest
variable {α β : Type*} [LinearOrder α]

/-- One turn of the loop: a strictly better entry replaces the best one. -/
def step (score : β → α) (best : Option β × α) (x : β) : Option β × α :=
  if best.2 < score x then (some x,score x) else best

theorem step_snd (score : β → α) (best : Option β × α) (x : β) :
    (step score best x).2 = max best.2 (score x) := by
  unfold step
  split
  · rename_i h
    exact (max_eq_right h.le).symm
  · rename_i h
    exact (max_eq_left (le_of_not_gt h)).symm

variable [Zero α]

/-- The first entry of largest score, if that is positive. -/
def firstBest (score : β → α) (xs : List β) : Option β :=
  let best := xs.foldl (step score) (none,0)
  if 0 < best.2 then best.1 else none

section Positive
variable {score : β → α}

theorem foldl_step_pos_iff (best : Option β × α) (xs : List β) :
    0 < (xs.foldl (step score) best).2 ↔ 0 < best.2 ∨ ∃ x ∈ xs, 0 < score x := by
  induction xs generalizing best with
  | nil => simp
  | cons x xs ih =>
    rw [List.foldl_cons,ih,step_snd,lt_max_iff,or_assoc]
    simp only [List.mem_cons, exists_eq_or_imp]

/-- A positive score has an entry. -/
theorem foldl_step_isSome {best : Option β × α} (h : 0 < best.2 → best.1.isSome) (xs : List β) :
    0 < (xs.foldl (step score) best).2 → (xs.foldl (step score) best).1.isSome := by
  induction xs generalizing best with
  | nil => exact h
  | cons x xs ih =>
    apply ih
    unfold step
    split
    · intro
      rfl
    · exact h

theorem firstBest_isSome_iff (xs : List β) :
    (firstBest score xs).isSome ↔ ∃ x ∈ xs, 0 < score x := by
  have hpos := @foldl_step_pos_iff α β _ _ score (none,0) xs
  have hsome := @foldl_step_isSome α β _ _ score (none,0) (fun h => absurd h (lt_irrefl _)) xs
  simp only [lt_irrefl, false_or] at hpos
  rw [← hpos,firstBest]
  split
  · rename_i h
    exact iff_of_true (hsome h) h
  · rename_i h
    exact iff_of_false (by simp) h

end Positive

section First
variable {score : β → α} {xs : List β}

omit [Zero α] in
theorem foldl_step_lt {best : Option β × α} {bound : α} (h : best.2 < bound)
    (hxs : ∀ x ∈ xs, score x < bound) : (xs.foldl (step score) best).2 < bound := by
  induction xs generalizing best with
  | nil => exact h
  | cons x xs ih =>
    obtain ⟨hx,hxs⟩ := List.forall_mem_cons.mp hxs
    apply ih _ hxs
    rw [step_snd]
    exact max_lt h hx

omit [Zero α] in
theorem foldl_step_of_le {best : Option β × α} (hxs : ∀ x ∈ xs, score x ≤ best.2) :
    xs.foldl (step score) best = best := by
  induction xs with
  | nil => rfl
  | cons x xs ih =>
    obtain ⟨hx,hxs⟩ := List.forall_mem_cons.mp hxs
    rw [List.foldl_cons,step,if_neg (not_lt.mpr hx)]
    exact ih hxs

/-- An entry of largest positive score is the first best one when all before it score less. -/
theorem firstBest_of_first_max {before after : List β} {x : β} (hpos : 0 < score x)
    (hbefore : ∀ y ∈ before, score y < score x) (hafter : ∀ y ∈ after, score y ≤ score x) :
    firstBest score (before ++ x::after) = some x := by
  have hlt : (before.foldl (step score) (none,0)).2 < score x := foldl_step_lt hpos hbefore
  have hfold : (before ++ x::after).foldl (step score) (none,0) = (some x,score x) := by
    rw [List.foldl_append,List.foldl_cons,step,if_pos hlt]
    exact foldl_step_of_le hafter
  rw [firstBest,hfold]
  exact if_pos hpos

end First

section Raised
variable {score : β → α} {raise : α → α}

/-- The states of the loop under the scores and under the raised ones: the same best entry, or
none yet under the scores and at most a raised zero under the others. -/
def Raised (raise : α → α) (l r : Option β × α) : Prop :=
  (l.1 = r.1 ∧ r.2 = raise l.2 ∧ 0 < l.2) ∨ (l = (none,0) ∧ r.2 ≤ raise 0)

theorem step_raised (hmono : StrictMono raise) {l r : Option β × α} (h : Raised raise l r)
    (x : β) : Raised raise (step score l x) (step (fun y => raise (score y)) r x) := by
  rcases h with ⟨hbest,hscore,hpos⟩ | ⟨rfl,hle⟩
  · left
    simp only [step, hscore, hmono.lt_iff_lt]
    split
    · rename_i h
      exact ⟨rfl,rfl,hpos.trans h⟩
    · exact ⟨hbest,hscore,hpos⟩
  · by_cases hx : 0 < score x
    · left
      have hr : r.2 < raise (score x) := hle.trans_lt (hmono hx)
      rw [step,step,if_pos hx,if_pos hr]
      exact ⟨rfl,rfl,hx⟩
    · right
      refine ⟨if_neg hx,?_⟩
      rw [step_snd]
      exact max_le hle (hmono.monotone (le_of_not_gt hx))

theorem foldl_step_raised (hmono : StrictMono raise) {l r : Option β × α}
    (h : Raised raise l r) (xs : List β) :
    Raised raise (xs.foldl (step score) l) (xs.foldl (step (fun y => raise (score y))) r) := by
  induction xs generalizing l r with
  | nil => exact h
  | cons x xs ih => exact ih (step_raised hmono h x)

/-- Raising the scores changes the first best entry exactly when no score is positive and some
raised score is. -/
theorem firstBest_raised_iff (hmono : StrictMono raise) (hzero : 0 ≤ raise 0) (xs : List β) :
    firstBest score xs = firstBest (fun y => raise (score y)) xs ↔
      (∃ x ∈ xs, 0 < score x) ∨ ∀ x ∈ xs, raise (score x) ≤ 0 := by
  have hsome := @firstBest_isSome_iff α β _ _ score xs
  have hsome' := @firstBest_isSome_iff α β _ _ (fun y => raise (score y)) xs
  have hnone' : ¬ (∃ x ∈ xs, 0 < raise (score x)) ↔ ∀ x ∈ xs, raise (score x) ≤ 0 := by
    simp only [not_exists, not_and, not_lt]
  constructor
  · intro heq
    rw [← heq,hsome] at hsome'
    by_cases hpos : ∃ x ∈ xs, 0 < score x
    · exact .inl hpos
    · exact .inr (hnone'.mp (fun h => hpos (hsome'.mpr h)))
  · rintro (hpos | hle)
    · have hrun := @foldl_step_raised α β _ _ score raise hmono (none,0) (none,0)
        (.inr ⟨rfl,hzero⟩) xs
      have hl : 0 < (xs.foldl (step score) (none,0)).2 :=
        (foldl_step_pos_iff _ xs).mpr (.inr hpos)
      rcases hrun with ⟨hbest,hscore,-⟩ | ⟨hl',-⟩
      · have hr : 0 < (xs.foldl (step (fun y => raise (score y))) (none,0)).2 := by
          rw [hscore]
          exact hzero.trans_lt (hmono hl)
        rw [firstBest,firstBest,if_pos hl,if_pos hr,hbest]
      · rw [hl'] at hl
        exact absurd hl (lt_irrefl _)
    · have hr : firstBest (fun y => raise (score y)) xs = none := by
        rw [← Option.not_isSome_iff_eq_none,hsome',hnone']
        exact hle
      have hl : firstBest score xs = none := by
        rw [← Option.not_isSome_iff_eq_none,hsome]
        rintro ⟨x,hx,hpos⟩
        exact absurd (hzero.trans_lt (hmono hpos)) (hle x hx).not_gt
      rw [hl,hr]

end Raised

end FirstBest
