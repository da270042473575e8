import Mathlib.Data.List.Count
import Podly.Strings.Affixes

/-! Replacing every occurrence of a pattern, from the left and without overlaps, and stripping a
pattern from the ends of a list for as long as it is there. -/
namespace Strings
variable {α : Type*} [DecidableEq α]

/-- Replace with some entries still to be skipped. -/
def replaceFrom (pat sub : List α) : ℕ → List α → List α
  | _, [] => []
  | skip + 1, _::xs => replaceFrom pat sub skip xs
  | 0, x::xs =>
    if pat <+: x::xs then sub ++ replaceFrom pat sub (pat.length - 1) xs
    else x::replaceFrom pat sub 0 xs

/-- Replace every occurrence. -/
def replaceAll (pat sub xs : List α) : List α := replaceFrom pat sub 0 xs

/-- Strip a pattern from the beginning for as long as it is there. -/
def trimStartMatches (pat : List α) (xs : List α) : List α :=
  if pat ≠ [] ∧ pat <+: xs then trimStartMatches pat (xs.drop pat.length) else xs
termination_by xs.length
decreasing_by
  rename_i h
  have hpos := List.length_pos_iff.mpr h.1
  have hle := h.2.length_le
  rw [List.length_drop]
  omega

/-- Strip a pattern from the end for as long as it is there. -/
def trimEndMatches (pat xs : List α) : List α := (trimStartMatches pat.reverse xs.reverse).reverse

section
variable {pat sub xs ys : List α} {x c : α}

@[simp] theorem replaceAll_nil : replaceAll pat sub [] = [] := rfl

theorem replaceFrom_eq (skip : ℕ) (xs : List α) :
    replaceFrom pat sub skip xs = replaceAll pat sub (xs.drop skip) := by
  induction xs generalizing skip with
  | nil => cases skip <;> rfl
  | cons x xs ih =>
    cases skip with
    | zero => rfl
    | succ skip => exact ih skip

theorem replaceAll_append_left (h : pat ≠ []) (xs : List α) :
    replaceAll pat sub (pat ++ xs) = sub ++ replaceAll pat sub xs := by
  obtain ⟨x,rest,rfl⟩ := List.exists_cons_of_ne_nil h
  have hpre : x::rest <+: x::(rest ++ xs) := ⟨xs,rfl⟩
  rw [List.cons_append,replaceAll,replaceFrom,if_pos hpre,replaceFrom_eq,List.length_cons,
    Nat.add_sub_cancel,List.drop_left]

theorem replaceAll_cons (h : ¬pat <+: x::xs) :
    replaceAll pat sub (x::xs) = x::replaceAll pat sub xs := by
  rw [replaceAll,replaceFrom,if_neg h]
  rfl

/-- The list begins with the pattern, or its first entry stays. -/
theorem replaceAll_induction {motive : List α → Prop} (hpat : pat ≠ []) (hnil : motive [])
    (hmatch : ∀ xs, motive xs → motive (pat ++ xs))
    (hcons : ∀ x xs, ¬pat <+: x::xs → motive xs → motive (x::xs)) (xs : List α) : motive xs := by
  induction hn : xs.length using Nat.strongRecOn generalizing xs with
  | ind n ih =>
    subst hn
    cases xs with
    | nil => exact hnil
    | cons x xs =>
      by_cases h : pat <+: x::xs
      · obtain ⟨rest,hrest⟩ := h
        have hpos := List.length_pos_iff.mpr hpat
        rw [← hrest]
        refine hmatch rest (ih rest.length ?_ rest rfl)
        rw [← hrest,List.length_append]
        omega
      · exact hcons x xs h (ih xs.length (by simp) xs rfl)

theorem replaceAll_eq_self (h : ¬pat <:+: xs) : replaceAll pat sub xs = xs := by
  induction xs with
  | nil => rfl
  | cons x xs ih =>
    rw [replaceAll_cons (fun hpre => h hpre.isInfix),
      ih (fun hin => h (hin.trans (List.suffix_cons x xs).isInfix))]

/-- An entry that the pattern and its replacement hold equally often keeps its count. -/
theorem count_replaceAll (hpat : pat ≠ []) (h : pat.count c = sub.count c) (xs : List α) :
    (replaceAll pat sub xs).count c = xs.count c := by
  induction xs using replaceAll_induction hpat with
  | hnil => rfl
  | hmatch xs ih =>
    rw [replaceAll_append_left hpat,List.count_append,List.count_append,ih,h]
  | hcons x xs hne ih => rw [replaceAll_cons hne,List.count_cons,List.count_cons,ih]

theorem count_replaceAll_le (hpat : pat ≠ []) (h : sub.count c ≤ pat.count c) (xs : List α) :
    (replaceAll pat sub xs).count c ≤ xs.count c := by
  induction xs using replaceAll_induction hpat with
  | hnil => exact le_rfl
  | hmatch xs ih =>
    rw [replaceAll_append_left hpat,List.count_append,List.count_append]
    omega
  | hcons x xs hne ih =>
    rw [replaceAll_cons hne,List.count_cons,List.count_cons]
    omega

theorem le_count_replaceAll (hpat : pat ≠ []) (h : pat.count c ≤ sub.count c) (xs : List α) :
    xs.count c ≤ (replaceAll pat sub xs).count c := by
  induction xs using replaceAll_induction hpat with
  | hnil => exact le_rfl
  | hmatch xs ih =>
    rw [replaceAll_append_left hpat,List.count_append,List.count_append]
    omega
  | hcons x xs hne ih =>
    rw [replaceAll_cons hne,List.count_cons,List.count_cons]
    omega

/-- Where the count of an entry that the pattern holds more often stays, nothing was replaced. -/
theorem not_infix_of_count_le (hpat : pat ≠ []) (h : sub.count c < pat.count c)
    (hle : xs.count c ≤ (replaceAll pat sub xs).count c) : ¬pat <:+: xs := by
  induction xs using replaceAll_induction hpat with
  | hnil => exact fun hin => hpat (List.infix_nil.mp hin)
  | hmatch xs ih =>
    have hrest := count_replaceAll_le hpat h.le xs
    rw [replaceAll_append_left hpat,List.count_append,List.count_append] at hle
    omega
  | hcons x xs hne ih =>
    rw [replaceAll_cons hne,List.count_cons,List.count_cons] at hle
    intro hin
    rcases List.infix_cons_iff.mp hin with hpre | hin
    · exact hne hpre
    · exact ih (by omega) hin

/-- The same for an entry that the replacement holds more often. -/
theorem not_infix_of_le_count (hpat : pat ≠ []) (h : pat.count c < sub.count c)
    (hle : (replaceAll pat sub xs).count c ≤ xs.count c) : ¬pat <:+: xs := by
  induction xs using replaceAll_induction hpat with
  | hnil => exact fun hin => hpat (List.infix_nil.mp hin)
  | hmatch xs ih =>
    have hrest := le_count_replaceAll hpat h.le xs
    rw [replaceAll_append_left hpat,List.count_append,List.count_append] at hle
    omega
  | hcons x xs hne ih =>
    rw [replaceAll_cons hne,List.count_cons,List.count_cons] at hle
    intro hin
    rcases List.infix_cons_iff.mp hin with hpre | hin
    · exact hne hpre
    · exact ih (by omega) hin

/-- What does not hold the first entry of the pattern is left as it is. -/
theorem replaceAll_append_of_not_mem {rest : List α} (h : c ∉ xs) (ys : List α) :
    replaceAll (c::rest) sub (xs ++ ys) = xs ++ replaceAll (c::rest) sub ys := by
  induction xs with
  | nil => rfl
  | cons x xs ih =>
    have hne : ¬c::rest <+: x::(xs ++ ys) := by
      intro hpre
      exact h ((List.cons_prefix_cons.mp hpre).1 ▸ List.mem_cons_self)
    rw [List.cons_append,replaceAll_cons hne,ih (fun hmem => h (List.mem_cons_of_mem x hmem)),
      List.cons_append]

theorem trimStartMatches_append (h : pat ≠ []) (xs : List α) :
    trimStartMatches pat (pat ++ xs) = trimStartMatches pat xs := by
  rw [trimStartMatches,if_pos ⟨h,List.prefix_append pat xs⟩,List.drop_left]

theorem trimStartMatches_eq_self (h : ¬pat <+: xs) : trimStartMatches pat xs = xs := by
  rw [trimStartMatches,if_neg (fun hpre => h hpre.2)]

theorem trimStartMatches_suffix (pat xs : List α) : trimStartMatches pat xs <:+ xs := by
  fun_induction trimStartMatches pat xs with
  | case1 xs h ih => exact ih.trans (List.drop_suffix _ _)
  | case2 xs h => exact List.suffix_refl xs

/-- Stripping stops at an entry that is not in the pattern. -/
theorem trimStartMatches_append_cons (h : c ∉ pat) (xs ys : List α) :
    trimStartMatches pat (xs ++ c::ys) = trimStartMatches pat xs ++ c::ys := by
  fun_induction trimStartMatches pat xs with
  | case1 xs hpre ih =>
    have hle := hpre.2.length_le
    rw [trimStartMatches,if_pos ⟨hpre.1,(prefix_append_cons h).mpr hpre.2⟩,
      List.drop_append_of_le_length hle,ih]
  | case2 xs hpre =>
    rw [trimStartMatches,if_neg]
    rwa [prefix_append_cons h]

theorem count_trimStartMatches (h : c ∉ pat) (xs : List α) :
    (trimStartMatches pat xs).count c = xs.count c := by
  fun_induction trimStartMatches pat xs with
  | case1 xs hpre ih =>
    obtain ⟨rest,rfl⟩ := hpre.2
    rw [ih,List.drop_left,List.count_append,List.count_eq_zero.mpr h,Nat.zero_add]
  | case2 xs hpre => rfl

theorem trimEndMatches_append (h : pat ≠ []) (xs : List α) :
    trimEndMatches pat (xs ++ pat) = trimEndMatches pat xs := by
  rw [trimEndMatches,List.reverse_append,
    trimStartMatches_append (fun hnil => h (List.reverse_eq_nil_iff.mp hnil)),trimEndMatches]

theorem trimEndMatches_eq_self (h : ¬pat <:+ xs) : trimEndMatches pat xs = xs := by
  rw [trimEndMatches,trimStartMatches_eq_self (fun hpre => h (List.reverse_prefix.mp hpre)),
    List.reverse_reverse]

theorem trimEndMatches_begins (pat xs : List α) : trimEndMatches pat xs <+: xs := by
  have hsuf := trimStartMatches_suffix pat.reverse xs.reverse
  rw [trimEndMatches]
  exact List.reverse_suffix.mp (by rwa [List.reverse_reverse])

end

end Strings
