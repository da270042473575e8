import Mathlib.Data.List.Basic
import Mathlib.Data.Set.Basic

/-! What is left of stored things that are written over: the value that remains when several are
written over a stored one, each unless it is the stored one already, and the set that is replaced in
parts, where every entry of a list takes elements out and then puts elements in. -/
namespace Lists
variable {α β : Type*}

section values

/-- Values written one after the other leave the last of them. -/
theorem foldl_getD (f : β → Option α) (us : List β) (x : α) :
    us.foldl (fun x u => (f u).getD x) x = (us.filterMap f).getLast?.getD x := by
  induction us generalizing x with
  | nil => rfl
  | cons u us ih =>
    rw [List.foldl_cons,ih]
    cases h : f u with
    | none => rw [List.filterMap_cons_none h,Option.getD_none]
    | some v =>
      rw [List.filterMap_cons_some h,List.getLast?_cons,Option.getD_some]
      rfl

variable [DecidableEq α]

/-- What remains of a stored value after the writes. -/
def settled (stored : α) (vs : List α) : α := (vs.filter (fun v => v ≠ stored)).getLast?.getD stored

@[simp] theorem settled_nil (stored : α) : settled stored [] = stored := rfl

/-- The stored value remains, or one of the others is written. -/
theorem settled_eq_or_mem (stored : α) (vs : List α) :
    settled stored vs = stored ∨ settled stored vs ∈ vs := by
  unfold settled
  cases h : (vs.filter (fun v => v ≠ stored)).getLast? with
  | none => exact Or.inl rfl
  | some v => exact Or.inr (List.mem_of_mem_filter (List.mem_of_getLast? h))

/-- A value that is not the stored one does not leave it as it was. -/
theorem settled_mem {stored v : α} {vs : List α} (hv : v ∈ vs) (hne : v ≠ stored) :
    settled stored vs ∈ vs := by
  unfold settled
  cases h : (vs.filter (fun v => v ≠ stored)).getLast? with
  | none =>
    rw [List.getLast?_eq_none_iff] at h
    have hmem : v ∈ vs.filter (fun v => v ≠ stored) := List.mem_filter.mpr ⟨hv,by simpa using hne⟩
    rw [h] at hmem
    cases hmem
  | some w => exact List.mem_of_mem_filter (List.mem_of_getLast? h)

/-- Every value is the one that remains exactly when they are all the same. -/
theorem forall_settled_eq_iff {stored : α} {vs : List α} :
    (∀ v ∈ vs, settled stored vs = v) ↔ ∀ v ∈ vs, ∀ w ∈ vs, v = w := by
  constructor
  · intro h v hv w hw
    rw [← h v hv,h w hw]
  · intro h v hv
    by_cases hne : v = stored
    · rcases settled_eq_or_mem stored vs with hs | hs
      · rw [hs,hne]
      · exact h _ hs v hv
    · exact h _ (settled_mem hv hne) v hv

end values

section parts
variable {out into : β → Set α} {s : Set α} {x : α} {r : β} {rs : List β}

/-- Take out, then put in. -/
def replace (out into : β → Set α) (s : Set α) (r : β) : Set α := s \ out r ∪ into r

/-- What the entries of a list leave. -/
def replaced (out into : β → Set α) (s : Set α) (rs : List β) : Set α := rs.foldl (replace out into) s

theorem mem_replace : x ∈ replace out into s r ↔ x ∈ s ∧ x ∉ out r ∨ x ∈ into r := Iff.rfl

@[simp] theorem replaced_nil : replaced out into s [] = s := rfl

/-- An element is left that no entry takes out, or that one puts in and no later one takes out. -/
theorem mem_replaced : x ∈ replaced out into s rs ↔ (x ∈ s ∧ ∀ r ∈ rs, x ∉ out r) ∨
    ∃ before r after, rs = before ++ r::after ∧ x ∈ into r ∧ ∀ later ∈ after, x ∉ out later := by
  induction rs generalizing s with
  | nil => simp
  | cons r rs ih =>
    rw [replaced,List.foldl_cons,← replaced,ih,mem_replace,List.forall_mem_cons]
    constructor
    · rintro (⟨⟨hs,hr⟩ | hr,hrs⟩ | ⟨before,r',after,rfl,hinto,hafter⟩)
      · exact .inl ⟨hs,hr,hrs⟩
      · exact .inr ⟨[],r,rs,rfl,hr,hrs⟩
      · exact .inr ⟨r::before,r',after,rfl,hinto,hafter⟩
    · rintro (⟨hs,hr,hrs⟩ | ⟨before,r',after,hsplit,hinto,hafter⟩)
      · exact .inl ⟨.inl ⟨hs,hr⟩,hrs⟩
      · cases before with
        | nil =>
          obtain ⟨rfl,rfl⟩ := List.cons.inj hsplit
          exact .inl ⟨.inr hinto,hafter⟩
        | cons r'' before =>
          obtain ⟨rfl,rfl⟩ := List.cons.inj hsplit
          exact .inr ⟨before,r',after,rfl,hinto,hafter⟩

end parts

end Lists
