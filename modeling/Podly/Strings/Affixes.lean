import Mathlib.Data.List.Infix

/-! Lists with a known beginning or end: what is left without it. -/
namespace Strings
variable {α : Type*}

/-- Beginnings that differ exclude each other. -/
theorem not_prefix_of_append {pre pre' xs : List α} (h : pre <+: xs) (hne : ¬pre <+: pre')
    (hne' : ¬pre' <+: pre) : ¬pre' <+: xs := by
  intro h'
  rcases List.prefix_or_prefix_of_prefix h h' with hpre | hpre
  · exact hne hpre
  · exact hne' hpre

theorem not_suffix_of_append {suf suf' xs : List α} (h : suf <:+ xs) (hne : ¬suf <:+ suf')
    (hne' : ¬suf' <:+ suf) : ¬suf' <:+ xs := by
  intro h'
  rcases List.suffix_or_suffix_of_suffix h h' with hsuf | hsuf
  · exact hne hsuf
  · exact hne' hsuf

/-- An end can be compared without the part behind it. -/
theorem append_suffix_append_iff {xs ys zs : List α} : xs ++ zs <:+ ys ++ zs ↔ xs <:+ ys := by
  constructor
  · rintro ⟨ws,h⟩
    rw [← List.append_assoc] at h
    exact ⟨ws,List.append_cancel_right h⟩
  · rintro ⟨ws,rfl⟩
    rw [List.append_assoc]
    exact List.suffix_append ws (xs ++ zs)

/-- An entry that is not in the pattern parts the list. -/
theorem prefix_append_cons {c : α} {pat xs ys : List α} (h : c ∉ pat) : pat <+: xs ++ c::ys ↔ pat <+: xs := by
  constructor
  · intro hpre
    induction xs generalizing pat with
    | nil =>
      cases pat with
      | nil => exact List.nil_prefix
      | cons p pat =>
        obtain ⟨rfl,-⟩ := List.cons_prefix_cons.mp hpre
        exact absurd List.mem_cons_self h
    | cons x xs ih =>
      cases pat with
      | nil => exact List.nil_prefix
      | cons p pat =>
        obtain ⟨rfl,hrest⟩ := List.cons_prefix_cons.mp hpre
        exact List.cons_prefix_cons.mpr ⟨rfl,ih (fun hmem => h (List.mem_cons_of_mem p hmem)) hrest⟩
  · exact fun hpre => hpre.trans (List.prefix_append xs (c::ys))

variable [DecidableEq α]

/-- The rest behind a beginning. -/
def after (pre xs : List α) : Option (List α) :=
  if pre <+: xs then some (xs.drop pre.length) else none

/-- The rest in front of an end. -/
def before (suf xs : List α) : Option (List α) :=
  if suf <:+ xs then some (xs.take (xs.length - suf.length)) else none

@[simp] theorem after_append (pre xs : List α) : after pre (pre ++ xs) = some xs := by
  rw [after,if_pos (List.prefix_append pre xs),List.drop_left]

@[simp] theorem before_append (suf xs : List α) : before suf (xs ++ suf) = some xs := by
  rw [before,if_pos (List.suffix_append xs suf),List.length_append,Nat.add_sub_cancel,
    List.take_left]

theorem after_eq_some {pre xs rest : List α} : after pre xs = some rest ↔ xs = pre ++ rest := by
  constructor
  · intro h
    unfold after at h
    split at h
    · rename_i hpre
      obtain ⟨ys,rfl⟩ := hpre
      rw [List.drop_left,Option.some_inj] at h
      rw [h]
    · cases h
  · rintro rfl
    exact after_append pre rest

theorem after_eq_none {pre xs : List α} : after pre xs = none ↔ ¬pre <+: xs := by
  unfold after
  split <;> simp_all

theorem before_eq_none {suf xs : List α} : before suf xs = none ↔ ¬suf <:+ xs := by
  unfold before
  split <;> simp_all

end Strings
