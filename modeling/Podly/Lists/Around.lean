import Mathlib.Data.List.Basic
import Mathlib.Order.Lattice

/-! The part of a list around the elements that match: from some places before the first match to
some places behind the last one, and when a part of the list is enough to compute it. -/
namespace Lists
variable {α : Type*}

/-- The positions of the matches, counted from `n`. -/
def matchesFrom (p : α → Bool) (n : ℕ) (xs : List α) : List ℕ :=
  ((xs.zipIdx n).filter (fun x => p x.1)).map Prod.snd

/-- The elements from `before` places before the first match to `after` places behind the last. -/
def around (before after : ℕ) (p : α → Bool) (xs : List α) : List α :=
  match (matchesFrom p 0 xs).head?, (matchesFrom p 0 xs).getLast? with
  | some first, some last => (xs.take (last + after + 1)).drop (first - before)
  | _, _ => []

variable {p : α → Bool}

@[simp] theorem matchesFrom_nil (n : ℕ) : matchesFrom p n [] = [] := rfl

theorem matchesFrom_cons (n : ℕ) (x : α) (xs : List α) :
    matchesFrom p n (x::xs) = if p x then n::matchesFrom p (n + 1) xs
      else matchesFrom p (n + 1) xs := by
  unfold matchesFrom
  rw [List.zipIdx_cons,List.filter_cons]
  split
  · rfl
  · rfl

theorem matchesFrom_append (n : ℕ) (xs ys : List α) :
    matchesFrom p n (xs ++ ys) = matchesFrom p n xs ++ matchesFrom p (n + xs.length) ys := by
  simp only [matchesFrom, List.zipIdx_append, List.filter_append, List.map_append]

theorem matchesFrom_eq_nil {n : ℕ} {xs : List α} (h : ∀ x ∈ xs, p x = false) :
    matchesFrom p n xs = [] := by
  induction xs generalizing n with
  | nil => rfl
  | cons x xs ih =>
    rw [matchesFrom_cons,h x (by simp)]
    exact ih (fun y hy => h y (by simp [hy]))

theorem matchesFrom_add (n k : ℕ) (xs : List α) :
    matchesFrom p (n + k) xs = (matchesFrom p n xs).map (· + k) := by
  induction xs generalizing n with
  | nil => rfl
  | cons x xs ih =>
    have hsucc : n + k + 1 = n + 1 + k := by omega
    rw [matchesFrom_cons,matchesFrom_cons,hsucc,ih]
    split
    · rfl
    · rfl

theorem matchesFrom_map {β : Type*} (f : β → α) (n : ℕ) (xs : List β) :
    matchesFrom p n (xs.map f) = matchesFrom (fun x => p (f x)) n xs := by
  induction xs generalizing n with
  | nil => rfl
  | cons x xs ih => rw [List.map_cons,matchesFrom_cons,matchesFrom_cons,ih]

theorem around_map {β : Type*} (before after : ℕ) (f : β → α) (xs : List β) :
    around before after p (xs.map f) = (around before after (fun x => p (f x)) xs).map f := by
  unfold around
  rw [matchesFrom_map]
  split
  · rw [List.map_drop,List.map_take]
  · rfl

theorem mem_matchesFrom {n i : ℕ} {xs : List α} :
    i ∈ matchesFrom p n xs ↔ ∃ x, p x ∧ n ≤ i ∧ xs[i - n]? = some x := by
  simp only [matchesFrom, List.mem_map, List.mem_filter, Prod.exists,
    List.mem_zipIdx_iff_le_and_getElem?_sub]
  constructor
  · rintro ⟨x,i',⟨hx,hp⟩,rfl⟩
    exact ⟨x,hp,hx⟩
  · rintro ⟨x,hp,hx⟩
    exact ⟨x,i,⟨hx,hp⟩,rfl⟩

/-- The positions increase. -/
theorem matchesFrom_pairwise (n : ℕ) (xs : List α) :
    (matchesFrom p n xs).Pairwise (· < ·) := by
  induction xs generalizing n with
  | nil => exact List.Pairwise.nil
  | cons x xs ih =>
    rw [matchesFrom_cons]
    split
    · refine List.pairwise_cons.mpr ⟨fun i hi => ?_,ih (n + 1)⟩
      obtain ⟨-,-,hle,-⟩ := mem_matchesFrom.mp hi
      omega
    · exact ih (n + 1)

theorem head_le_of_pairwise {is : List ℕ} (h : is.Pairwise (· < ·)) {first i : ℕ}
    (hfirst : is.head? = some first) (hi : i ∈ is) : first ≤ i := by
  cases is with
  | nil => cases hfirst
  | cons j is =>
    cases hfirst
    cases hi with
    | head => exact Nat.le_refl _
    | tail _ hi => exact Nat.le_of_lt (List.rel_of_pairwise_cons h hi)

theorem le_last_of_pairwise {is : List ℕ} (h : is.Pairwise (· < ·)) {last i : ℕ}
    (hlast : is.getLast? = some last) (hi : i ∈ is) : i ≤ last := by
  obtain ⟨js,rfl⟩ := List.getLast?_eq_some_iff.mp hlast
  rw [List.pairwise_append] at h
  rcases List.mem_append.mp hi with hi | hi
  · exact Nat.le_of_lt (h.2.2 i hi last (by simp))
  · exact Nat.le_of_eq (List.mem_singleton.mp hi)

theorem mem_drop_take {xs : List α} {x : α} {i m n : ℕ} (hi : xs[i]? = some x) (hm : m ≤ i)
    (hn : i < n) : x ∈ (xs.take n).drop m := by
  refine List.mem_iff_getElem?.mpr ⟨i - m,?_⟩
  rw [List.getElem?_drop,List.getElem?_take,if_pos (by omega),← hi]
  congr 1
  omega

/-- Every match is in the part around the matches. -/
theorem mem_around {before after : ℕ} {xs : List α} {x : α} (hx : x ∈ xs) (hp : p x) :
    x ∈ around before after p xs := by
  obtain ⟨i,hi⟩ := List.mem_iff_getElem?.mp hx
  have hmem : i ∈ matchesFrom p 0 xs := mem_matchesFrom.mpr ⟨x,hp,Nat.zero_le i,hi⟩
  have hne : matchesFrom p 0 xs ≠ [] := List.ne_nil_of_mem hmem
  obtain ⟨first,hfirst⟩ := Option.isSome_iff_exists.mp (List.isSome_head?.mpr hne)
  have hlast := List.getLast?_eq_some_getLast hne
  have hle := head_le_of_pairwise (matchesFrom_pairwise 0 xs) hfirst hmem
  have hge := le_last_of_pairwise (matchesFrom_pairwise 0 xs) hlast hmem
  simp only [around, hfirst, hlast]
  exact mem_drop_take hi (by omega) (by omega)

/-- A part of the list is enough if it has everything around the matches. -/
theorem around_contiguous {before after : ℕ} {xs ys zs : List α}
    (hxs : ∀ x ∈ xs, x ∉ around before after p (xs ++ ys ++ zs))
    (hzs : ∀ x ∈ zs, x ∉ around before after p (xs ++ ys ++ zs)) :
    around before after p (xs ++ ys ++ zs) = around before after p ys := by
  have hpxs : ∀ x ∈ xs, p x = false := by
    intro x hx
    by_contra hp
    exact hxs x hx (mem_around (by simp [hx]) (by simpa using hp))
  have hpzs : ∀ x ∈ zs, p x = false := by
    intro x hx
    by_contra hp
    exact hzs x hx (mem_around (by simp [hx]) (by simpa using hp))
  have hmatches : matchesFrom p 0 (xs ++ ys ++ zs) =
      (matchesFrom p 0 ys).map (· + xs.length) := by
    rw [matchesFrom_append,matchesFrom_append,matchesFrom_eq_nil hpxs,matchesFrom_eq_nil hpzs,
      matchesFrom_add,List.nil_append,List.append_nil]
  rcases hfirst : (matchesFrom p 0 ys).head? with _ | first
  · simp only [around, hmatches, List.head?_map, hfirst, Option.map_none]
  have hne : matchesFrom p 0 ys ≠ [] := List.ne_nil_of_mem (List.mem_of_head? hfirst)
  obtain ⟨last,hlast⟩ : ∃ last, (matchesFrom p 0 ys).getLast? = some last :=
    ⟨_,List.getLast?_eq_some_getLast hne⟩
  have haround : around before after p (xs ++ ys ++ zs) =
      ((xs ++ ys ++ zs).take (last + xs.length + after + 1)).drop
        (first + xs.length - before) := by
    simp only [around, hmatches, List.head?_map, List.getLast?_map, hfirst, hlast, Option.map_some]
  obtain ⟨x,-,-,hget⟩ := mem_matchesFrom.mp (List.mem_of_head? hfirst)
  have hlt : first < ys.length := by
    simpa using (List.getElem?_eq_some_iff.mp hget).1
  have hle := head_le_of_pairwise (matchesFrom_pairwise 0 ys) hfirst (List.mem_of_getLast? hlast)
  -- the last element of `xs` would be in the part if it began before `ys`
  have hstart : xs = [] ∨ before ≤ first := by
    by_contra h
    obtain ⟨hne,hbefore⟩ := not_or.mp h
    have hpos := List.length_pos_iff.mpr hne
    have hi : (xs ++ ys ++ zs)[xs.length - 1]? = some (xs.getLast hne) := by
      rw [List.append_assoc,List.getElem?_append_left (by omega),← List.getLast?_eq_getElem?,
        List.getLast?_eq_some_getLast hne]
    refine hxs _ (List.getLast_mem hne) ?_
    rw [haround]
    exact mem_drop_take hi (by omega) (by omega)
  -- and the first of `zs` if it ended behind `ys`
  have hend : zs = [] ∨ last + after + 1 ≤ ys.length := by
    by_contra h
    obtain ⟨hne,hafter⟩ := not_or.mp h
    obtain ⟨z,zs,rfl⟩ := List.exists_cons_of_ne_nil hne
    have hi : (xs ++ ys ++ (z::zs))[xs.length + ys.length]? = some z := by
      rw [← List.length_append,List.getElem?_append_right (Nat.le_refl _),Nat.sub_self]
      rfl
    refine hzs z (by simp) ?_
    rw [haround]
    exact mem_drop_take hi (by omega) (by omega)
  have htake : (xs ++ ys ++ zs).take (last + xs.length + after + 1) =
      xs ++ ys.take (last + after + 1) := by
    rw [List.append_assoc,List.take_append,List.take_of_length_le (by omega),
      show last + xs.length + after + 1 - xs.length = last + after + 1 by omega,List.take_append]
    rcases hend with rfl | hend
    · simp
    · simp [show last + after + 1 - ys.length = 0 by omega]
  rw [haround,htake,List.drop_append]
  simp only [around, hfirst, hlast]
  rcases hstart with rfl | hstart
  · simp
  · rw [List.drop_eq_nil_of_le (by omega),List.nil_append]
    congr 1
    omega

/-- An ordered list falls into the elements that satisfy a downward closed condition and the
others. -/
theorem filter_append_filter_not {q : α → Bool} {xs : List α}
    (h : xs.Pairwise (fun x y => q y → q x)) : xs.filter q ++ xs.filter (fun x => !q x) = xs := by
  induction xs with
  | nil => rfl
  | cons x xs ih =>
    obtain ⟨hx,hxs⟩ := List.pairwise_cons.mp h
    cases hq : q x with
    | true => simp [hq, ih hxs]
    | false =>
      have hnone : ∀ y ∈ xs, q y = false := by
        intro y hy
        by_contra hy'
        rw [hx y hy (by simpa using hy')] at hq
        cases hq
      have hfilter : xs.filter q = [] := List.filter_eq_nil_iff.mpr (by simpa using hnone)
      have hself : xs.filter (fun x => !q x) = xs :=
        List.filter_eq_self.mpr (by simpa using hnone)
      simp [hq, hfilter, hself]

/-- The elements of an ordered list in a range of keys lie in one piece. -/
theorem filter_range_contiguous {κ : Type*} [LinearOrder κ] {key : α → κ} {xs : List α}
    (h : xs.Pairwise (fun x y => key x < key y)) (lo hi : κ) :
    ∃ ys zs, xs = ys ++ xs.filter (fun x => lo ≤ key x && key x ≤ hi) ++ zs ∧
      (∀ y ∈ ys, key y < lo) ∧ ∀ z ∈ zs, hi < key z := by
  let rest := xs.filter (fun x => !decide (key x < lo))
  have hrest : rest.Pairwise (fun x y => key x < key y) := h.sublist List.filter_sublist
  have hrange : xs.filter (fun x => lo ≤ key x && key x ≤ hi) =
      rest.filter (fun x => key x ≤ hi) := by
    rw [List.filter_filter]
    congr 1
    funext x
    rw [Bool.and_comm,← decide_not]
    simp only [not_lt]
  refine ⟨xs.filter (fun x => key x < lo),rest.filter (fun x => !decide (key x ≤ hi)),?_,?_,?_⟩
  · have hlo : xs.Pairwise (fun x y => decide (key y < lo) → decide (key x < lo)) :=
      h.imp (fun hlt hy => decide_eq_true (lt_trans hlt (of_decide_eq_true hy)))
    have hhi : rest.Pairwise (fun x y => decide (key y ≤ hi) → decide (key x ≤ hi)) :=
      hrest.imp (fun hlt hy => decide_eq_true (le_trans (le_of_lt hlt) (of_decide_eq_true hy)))
    rw [hrange,List.append_assoc,filter_append_filter_not hhi]
    exact (filter_append_filter_not hlo).symm
  · intro y hy
    simpa using (List.mem_filter.mp hy).2
  · intro z hz
    simpa using (List.mem_filter.mp hz).2

end Lists
