import Mathlib.Data.List.Basic
import Mathlib.Order.Lattice

/-! The longest common subsequence of two lists, by rows: the entry of a prefix of one list and a
prefix of the other comes from the three entries before it. -/
namespace Lists
variable {α : Type*}

/-- The length of the longest common subsequence. -/
structure IsLongestCommon (xs ys : List α) (n : ℕ) : Prop where
  common : ∃ s : List α, s.Sublist xs ∧ s.Sublist ys ∧ s.length = n
  longest : ∀ s : List α, s.Sublist xs → s.Sublist ys → s.length ≤ n

namespace IsLongestCommon
variable {xs ys : List α} {x y : α} {m n : ℕ}

theorem nil_left : IsLongestCommon [] ys 0 := by
  refine ⟨⟨[],List.Sublist.refl _,List.nil_sublist _,rfl⟩,?_⟩
  intro s hs _
  rw [List.sublist_nil.mp hs,List.length_nil]

theorem symm (h : IsLongestCommon xs ys n) : IsLongestCommon ys xs n := by
  obtain ⟨⟨s,hxs,hys,hlen⟩,hlongest⟩ := h
  exact ⟨⟨s,hys,hxs,hlen⟩,fun s hs hs' => hlongest s hs' hs⟩

theorem nil_right : IsLongestCommon xs [] 0 := nil_left.symm

/-- A subsequence of a list with a last entry either leaves it out or ends with it. -/
theorem sublist_concat {s : List α} (h : s.Sublist (xs ++ [x])) :
    s.Sublist xs ∨ ∃ t, s = t ++ [x] ∧ t.Sublist xs := by
  obtain ⟨t,u,rfl,ht,hu⟩ := List.sublist_append_iff.mp h
  rcases List.sublist_singleton.mp hu with rfl | rfl
  · rw [List.append_nil]
    exact Or.inl ht
  · exact Or.inr ⟨t,rfl,ht⟩

/-- A common last entry makes the subsequence longer by one. -/
theorem concat (h : IsLongestCommon xs ys n) :
    IsLongestCommon (xs ++ [x]) (ys ++ [x]) (n + 1) := by
  obtain ⟨⟨s,hxs,hys,rfl⟩,hlongest⟩ := h
  refine ⟨⟨s ++ [x],hxs.append (List.Sublist.refl _),hys.append (List.Sublist.refl _),?_⟩,?_⟩
  · rw [List.length_append,List.length_singleton]
  · intro t htx hty
    rcases sublist_concat htx with htx' | ⟨u,rfl,hux⟩
    · rcases sublist_concat hty with hty' | ⟨u,rfl,huy⟩
      · exact (hlongest t htx' hty').trans (Nat.le_succ _)
      · have hshort := hlongest u ((List.sublist_append_left u [x]).trans htx') huy
        rw [List.length_append,List.length_singleton]
        exact Nat.succ_le_succ hshort
    · have huy : u.Sublist ys := by
        rcases sublist_concat hty with hty' | ⟨v,hv,hvy⟩
        · exact (List.sublist_append_left u [x]).trans hty'
        · rwa [(List.append_inj' hv rfl).1]
      rw [List.length_append,List.length_singleton]
      exact Nat.succ_le_succ (hlongest u hux huy)

/-- Of two different last entries one is left out. -/
theorem concat_of_ne (hxy : x ≠ y) (hm : IsLongestCommon xs (ys ++ [y]) m)
    (hn : IsLongestCommon (xs ++ [x]) ys n) :
    IsLongestCommon (xs ++ [x]) (ys ++ [y]) (max m n) := by
  constructor
  · rcases le_total m n with hle | hle
    · obtain ⟨s,hxs,hys,hlen⟩ := hn.common
      rw [max_eq_right hle]
      exact ⟨s,hxs,hys.trans (List.sublist_append_left _ _),hlen⟩
    · obtain ⟨s,hxs,hys,hlen⟩ := hm.common
      rw [max_eq_left hle]
      exact ⟨s,hxs.trans (List.sublist_append_left _ _),hys,hlen⟩
  · intro s hsx hsy
    rcases sublist_concat hsx with hsx' | ⟨t,rfl,-⟩
    · exact (hm.longest s hsx' hsy).trans (le_max_left m n)
    · rcases sublist_concat hsy with hsy' | ⟨u,hu,-⟩
      · exact (hn.longest _ hsx hsy').trans (le_max_right m n)
      · exact absurd (List.singleton_inj.mp (List.append_inj' hu rfl).2) hxy

end IsLongestCommon

section Rows

/-- The row has the entry of each prefix, from a first one on. -/
inductive IsRow (xs : List α) : List α → List α → List ℕ → Prop
  | last {before n} : IsLongestCommon xs before n → IsRow xs before [] [n]
  | more {before y ys n row} : IsLongestCommon xs before n → IsRow xs (before ++ [y]) ys row →
      IsRow xs before (y::ys) (n::row)

variable {xs ys before : List α} {x : α} {left : ℕ} {row : List ℕ}

theorem IsRow.exists_cons (h : IsRow xs before ys row) :
    ∃ n row', row = n::row' ∧ IsLongestCommon xs before n := by
  cases h with
  | last hn => exact ⟨_,_,rfl,hn⟩
  | more hn hrow => exact ⟨_,_,rfl,hn⟩

theorem isRow_nil (before ys : List α) :
    IsRow [] before ys (List.replicate (ys.length + 1) 0) := by
  induction ys generalizing before with
  | nil => exact .last .nil_left
  | cons y ys ih => exact .more .nil_left (ih (before ++ [y]))

theorem IsRow.getElem? (h : IsRow xs before ys row) :
    ∃ n, row[ys.length]? = some n ∧ IsLongestCommon xs (before ++ ys) n := by
  induction h with
  | @last before n hn =>
    refine ⟨n,rfl,?_⟩
    rwa [List.append_nil]
  | @more before y ys n row hn hrow ih =>
    obtain ⟨m,hm,hlcs⟩ := ih
    rw [List.append_assoc,List.singleton_append] at hlcs
    exact ⟨m,hm,hlcs⟩

variable [DecidableEq α]

/-- The entries of the next row after the left one, given the row before. -/
def nextEntries (x : α) (left : ℕ) : List α → List ℕ → List ℕ
  | y::ys, above::above'::row =>
    let entry := if x = y then above + 1 else max above' left
    entry::nextEntries x entry ys (above'::row)
  | _, _ => []

/-- The next row. -/
def nextRow (ys : List α) (row : List ℕ) (x : α) : List ℕ := 0::nextEntries x 0 ys row

/-- The row after all of the first list. -/
def lastRow (xs ys : List α) : List ℕ :=
  xs.foldl (nextRow ys) (List.replicate (ys.length + 1) 0)

/-- One step keeps the row right. -/
theorem IsRow.next (h : IsRow xs before ys row)
    (hleft : IsLongestCommon (xs ++ [x]) before left) :
    IsRow (xs ++ [x]) before ys (left::nextEntries x left ys row) := by
  induction h generalizing left with
  | last hn => exact .last hleft
  | @more before y ys n row hn hrow ih =>
    obtain ⟨above,row',rfl,habove⟩ := hrow.exists_cons
    refine .more hleft (ih ?_)
    split
    · rename_i heq
      rw [← heq]
      exact hn.concat
    · rename_i hne
      exact habove.concat_of_ne hne hleft

theorem isRow_lastRow (xs ys : List α) : IsRow xs [] ys (lastRow xs ys) := by
  have hrun : ∀ (rest done : List α) (row : List ℕ), IsRow done [] ys row →
      IsRow (done ++ rest) [] ys (rest.foldl (nextRow ys) row) := by
    intro rest
    induction rest with
    | nil =>
      intro done row h
      rwa [List.append_nil]
    | cons x rest ih =>
      intro done row h
      have hnext := ih (done ++ [x]) _ (h.next .nil_right)
      rwa [List.append_assoc,List.singleton_append] at hnext
  exact hrun xs [] _ (isRow_nil [] ys)

/-- The last entry of the last row is the length of the longest common subsequence. -/
theorem isLongestCommon_lastRow (xs ys : List α) :
    IsLongestCommon xs ys ((lastRow xs ys)[ys.length]?.getD 0) := by
  obtain ⟨n,hn,hlcs⟩ := (isRow_lastRow xs ys).getElem?
  rwa [hn]

end Rows

end Lists
