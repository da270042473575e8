import Mathlib.Data.List.DropRight
import Mathlib.Data.List.TakeWhile

/-! Lists trimmed on both sides, and the pieces between the entries that are trimmed. -/
namespace Strings
variable {α : Type*} (p : α → Bool)

/-- The list without the entries that match at its ends. -/
def trimmed (xs : List α) : List α := (xs.dropWhile p).rdropWhile p

/-- The pieces between the entries that match, without the empty ones. -/
def pieces [DecidableEq α] (xs : List α) : List (List α) := (xs.splitOnP p).filter (· ≠ [])

variable {p} {xs ys : List α} {x : α}

/-- Everything is trimmed exactly if everything matches. -/
theorem trimmed_eq_nil : trimmed p xs = [] ↔ ∀ x ∈ xs, p x := by
  rw [trimmed,List.rdropWhile_eq_nil_iff]
  constructor
  · intro h x hx
    rw [← List.takeWhile_append_dropWhile (p := p) (l := xs),List.mem_append] at hx
    exact hx.elim List.mem_takeWhile_imp (h x)
  · intro h x hx
    exact h x ((List.dropWhile_sublist p).subset hx)

/-- An entry that does not match stays. -/
theorem mem_trimmed (hx : x ∈ xs) (hp : p x = false) : x ∈ trimmed p xs := by
  have hdrop : x ∈ xs.dropWhile p := by
    rw [← List.takeWhile_append_dropWhile (p := p) (l := xs),List.mem_append] at hx
    refine hx.resolve_left (fun htake => ?_)
    rw [List.mem_takeWhile_imp htake] at hp
    cases hp
  rw [← List.rdropWhile_append_rtakeWhile (p := p) (l := xs.dropWhile p),List.mem_append] at hdrop
  refine hdrop.resolve_right (fun htake => ?_)
  rw [List.mem_rtakeWhile_imp htake] at hp
  cases hp

theorem mem_of_mem_trimmed (hx : x ∈ trimmed p xs) : x ∈ xs :=
  (List.dropWhile_sublist p).subset ((List.rdropWhile_prefix p _).subset hx)

/-- Trimming twice leaves nothing exactly if trimming once does. -/
theorem trimmed_trimmed_eq_nil : trimmed p (trimmed p xs) = [] ↔ trimmed p xs = [] := by
  constructor
  · intro h
    rw [trimmed_eq_nil] at h ⊢
    intro x hx
    by_contra hp
    exact hp (h x (mem_trimmed hx (eq_false_of_ne_true hp)))
  · intro h
    rw [h]
    rfl

theorem trimmed_congr {q : α → Bool} (h : ∀ x ∈ xs, p x = q x) : trimmed p xs = trimmed q xs := by
  have hdrop : ∀ ys : List α, (∀ y ∈ ys, p y = q y) → ys.dropWhile p = ys.dropWhile q := by
    intro ys hys
    induction ys with
    | nil => rfl
    | cons y ys ih =>
      rw [List.dropWhile_cons,List.dropWhile_cons,hys y List.mem_cons_self,
        ih (fun z hz => hys z (List.mem_cons_of_mem y hz))]
  rw [trimmed,trimmed,hdrop xs h,List.rdropWhile,List.rdropWhile,hdrop]
  intro y hy
  exact h y ((List.dropWhile_sublist q).subset (List.mem_reverse.mp hy))

/-- Nothing is trimmed where no entry matches. -/
theorem trimmed_eq_self (h : ∀ x ∈ xs, p x = false) : trimmed p xs = xs := by
  have hnone : trimmed p xs = trimmed (fun _ => false) xs := trimmed_congr h
  rw [hnone]
  cases xs with
  | nil => rfl
  | cons x xs => simp [trimmed,List.rdropWhile]

/-- The entries of the parts are those of the list but for the separator. -/
theorem mem_splitOn [DecidableEq α] {a : α} :
    (∃ part ∈ xs.splitOn a, x ∈ part) ↔ x ∈ xs ∧ x ≠ a := by
  induction xs with
  | nil => simp
  | cons y xs ih =>
    obtain ⟨part,parts,hparts⟩ := List.exists_cons_of_ne_nil (List.splitOn_ne_nil a xs)
    rw [hparts] at ih
    rw [List.splitOn_cons_eq_if_modifyHead,hparts]
    by_cases hy : y = a
    · rw [if_pos (beq_iff_eq.mpr hy),List.exists_mem_cons_iff,ih,List.mem_cons,hy]
      constructor
      · rintro (h | ⟨hx,hne⟩)
        · cases h
        · exact ⟨.inr hx,hne⟩
      · rintro ⟨rfl | hx,hne⟩
        · exact absurd rfl hne
        · exact .inr ⟨hx,hne⟩
    · rw [if_neg (by simpa using hy)]
      rw [List.modifyHead_cons,List.exists_mem_cons_iff,List.mem_cons,List.mem_cons]
      rw [List.exists_mem_cons_iff] at ih
      constructor
      · rintro ((rfl | hx) | hx)
        · exact ⟨.inl rfl,hy⟩
        · exact (ih.mp (.inl hx)).imp_left .inr
        · exact (ih.mp (.inr hx)).imp_left .inr
      · rintro ⟨rfl | hx,hne⟩
        · exact .inl (.inl rfl)
        · rcases ih.mpr ⟨hx,hne⟩ with hx | hx
          · exact .inl (.inr hx)
          · exact .inr hx

section
variable [DecidableEq α]

theorem pieces_cons (hx : p x) : pieces p (x::xs) = pieces p xs := by
  simp [pieces,List.splitOnP_cons_eq_if_modifyHead,hx]

theorem pieces_dropWhile (xs : List α) : pieces p (xs.dropWhile p) = pieces p xs := by
  induction xs with
  | nil => rfl
  | cons x xs ih =>
    rw [List.dropWhile_cons]
    split
    · rename_i hx
      rw [ih,pieces_cons hx]
    · rfl

theorem pieces_append (hys : ∀ y ∈ ys, p y) : pieces p (xs ++ ys) = pieces p xs := by
  cases ys with
  | nil => rw [List.append_nil]
  | cons y ys =>
    have hrest : pieces p ys = [] := by
      induction ys with
      | nil => rfl
      | cons z zs ih =>
        rw [pieces_cons (hys z (by simp))]
        exact ih (fun w hw => hys w (by simp only [List.mem_cons] at hw ⊢; tauto))
    have hsplit := List.splitOnP_append_cons xs ys (hys y List.mem_cons_self)
    rw [pieces,hsplit,List.filter_append]
    change pieces p xs ++ pieces p ys = pieces p xs
    rw [hrest,List.append_nil]

/-- What is trimmed belongs to no piece. -/
theorem pieces_trimmed (xs : List α) : pieces p (trimmed p xs) = pieces p xs := by
  have hsplit := List.rdropWhile_append_rtakeWhile (p := p) (l := xs.dropWhile p)
  have hall : ∀ y ∈ (xs.dropWhile p).rtakeWhile p, p y := fun y hy => List.mem_rtakeWhile_imp hy
  rw [trimmed,← pieces_append hall,hsplit,pieces_dropWhile]

end

end Strings
