import Mathlib.Data.List.DropRight
import Mathlib.Data.List.Induction
import Mathlib.Order.Lattice

/-! Where a value goes in a sorted list, by halving, and what stands before and behind that
place. -/
namespace Lists
variable {α : Type*} [LinearOrder α]

/-- The halvings of `bisect.bisect_right` between two places, as many as are left. -/
def bisectFrom (xs : List α) (x : α) : ℕ → ℕ → ℕ → ℕ
  | 0, lo, _ => lo
  | left + 1, lo, hi =>
    if lo < hi then
      let mid := (lo + hi) / 2
      match xs[mid]? with
      | some y => if x < y then bisectFrom xs x left lo mid else bisectFrom xs x left (mid + 1) hi
      | none => lo
    else lo

/-- `bisect.bisect_right`. -/
def bisectRight (xs : List α) (x : α) : ℕ := bisectFrom xs x xs.length 0 xs.length

section
variable {xs : List α} {x : α}

/-- The halvings close in on the one place with nothing greater before it and nothing else behind
it. -/
theorem bisectFrom_spec (hsorted : xs.Pairwise (· ≤ ·)) {left lo hi : ℕ} (hleft : hi ≤ lo + left)
    (hle : lo ≤ hi) (hhi : hi ≤ xs.length) (hbefore : ∀ (i : ℕ) y, i < lo → xs[i]? = some y → y ≤ x)
    (hbehind : ∀ (i : ℕ) y, hi ≤ i → xs[i]? = some y → x < y) :
    bisectFrom xs x left lo hi ≤ xs.length ∧
      (∀ (i : ℕ) y, i < bisectFrom xs x left lo hi → xs[i]? = some y → y ≤ x) ∧
      ∀ (i : ℕ) y, bisectFrom xs x left lo hi ≤ i → xs[i]? = some y → x < y := by
  have hordered : ∀ {i j : ℕ} {y z : α}, i ≤ j → xs[i]? = some y → xs[j]? = some z → y ≤ z := by
    intro i j y z hij hy hz
    obtain ⟨hi,rfl⟩ := List.getElem?_eq_some_iff.mp hy
    obtain ⟨hj,rfl⟩ := List.getElem?_eq_some_iff.mp hz
    rcases Nat.lt_or_eq_of_le hij with hij | rfl
    · exact List.pairwise_iff_getElem.mp hsorted i j hi hj hij
    · exact le_rfl
  induction left generalizing lo hi with
  | zero =>
    obtain rfl : lo = hi := by omega
    exact ⟨hhi,hbefore,hbehind⟩
  | succ left ih =>
    rw [bisectFrom]
    split
    · rename_i hlt
      have hmid : (lo + hi) / 2 < xs.length := by omega
      simp only [List.getElem?_eq_getElem hmid]
      split
      · rename_i hx
        apply ih (by omega) (by omega) (Nat.le_of_lt hmid) hbefore
        intro i y hi hy
        exact lt_of_lt_of_le hx (hordered hi (List.getElem?_eq_getElem hmid) hy)
      · rename_i hx
        apply ih (by omega) (by omega) hhi _ hbehind
        intro i y hi hy
        exact le_trans (hordered (by omega) hy (List.getElem?_eq_getElem hmid)) (le_of_not_gt hx)
    · obtain rfl : lo = hi := by omega
      exact ⟨hhi,hbefore,hbehind⟩

/-- A sorted list falls into what is not greater and what is greater. -/
theorem bisectRight_split (hsorted : xs.Pairwise (· ≤ ·)) :
    bisectRight xs x ≤ xs.length ∧ (∀ y ∈ xs.take (bisectRight xs x), y ≤ x) ∧
      ∀ y ∈ xs.drop (bisectRight xs x), x < y := by
  have hspec : bisectRight xs x ≤ xs.length ∧
      (∀ (i : ℕ) y, i < bisectRight xs x → xs[i]? = some y → y ≤ x) ∧
      ∀ (i : ℕ) y, bisectRight xs x ≤ i → xs[i]? = some y → x < y := by
    apply bisectFrom_spec hsorted (by omega) (Nat.zero_le _) (Nat.le_refl _) (by omega)
    intro i y hi hy
    rw [List.getElem?_eq_none hi] at hy
    cases hy
  obtain ⟨hle,hbefore,hbehind⟩ := hspec
  refine ⟨hle,?_,?_⟩
  · intro y hy
    obtain ⟨i,hi,rfl⟩ := List.mem_iff_getElem.mp hy
    have hlt : i < bisectRight xs x ∧ i < xs.length := by
      rw [List.length_take] at hi
      omega
    rw [List.getElem_take]
    exact hbefore i _ hlt.1 (List.getElem?_eq_getElem hlt.2)
  · intro y hy
    obtain ⟨i,hi,rfl⟩ := List.mem_iff_getElem.mp hy
    have hlt : bisectRight xs x + i < xs.length := by
      rw [List.length_drop] at hi
      omega
    rw [List.getElem_drop]
    exact hbehind _ _ (Nat.le_add_right _ i) (List.getElem?_eq_getElem hlt)

end

section Key
variable {β : Type*} {key : β → α} {xs : List β} {x : α}

/-- Before the place stands what has no greater key, and behind it the rest. -/
theorem take_drop_bisectRight (hsorted : xs.Pairwise (fun a b => key a ≤ key b)) :
    xs.take (bisectRight (xs.map key) x) = xs.filter (fun a => decide (key a ≤ x)) ∧
      xs.drop (bisectRight (xs.map key) x) = xs.filter (fun a => decide (x < key a)) := by
  obtain ⟨-,hbefore,hbehind⟩ := bisectRight_split (x := x) (List.pairwise_map.mpr hsorted)
  rw [← List.map_take] at hbefore
  rw [← List.map_drop] at hbehind
  have hle : ∀ a ∈ xs.take (bisectRight (xs.map key) x), key a ≤ x :=
    fun a ha => hbefore _ (List.mem_map_of_mem ha)
  have hlt : ∀ a ∈ xs.drop (bisectRight (xs.map key) x), x < key a :=
    fun a ha => hbehind _ (List.mem_map_of_mem ha)
  generalize bisectRight (xs.map key) x = n at hle hlt
  constructor
  · conv_rhs => rw [← List.take_append_drop n xs,List.filter_append]
    rw [List.filter_eq_self.mpr (by simpa using hle),
      List.filter_eq_nil_iff.mpr (by simpa using hlt),List.append_nil]
  · conv_rhs => rw [← List.take_append_drop n xs,List.filter_append]
    rw [List.filter_eq_nil_iff.mpr (by simpa using hle),
      List.filter_eq_self.mpr (by simpa using hlt),List.nil_append]

/-- The entry before the place has the greatest key that is not greater; where there is none, the
first entry has the least key. -/
theorem bisectRight_pred (hsorted : xs.Pairwise (fun a b => key a ≤ key b)) (hne : xs ≠ []) :
    ∃ a, xs[bisectRight (xs.map key) x - 1]? = some a ∧
      ((key a ≤ x ∧ ∀ b ∈ xs, key b ≤ x → key b ≤ key a) ∨
        (∀ b ∈ xs, x < key b) ∧ ∀ b ∈ xs, key a ≤ key b) := by
  obtain ⟨htake,hdrop⟩ := take_drop_bisectRight (x := x) hsorted
  have hbound : bisectRight (xs.map key) x ≤ xs.length := by
    have h := (bisectRight_split (x := x) (List.pairwise_map.mpr hsorted)).1
    rwa [List.length_map] at h
  generalize bisectRight (xs.map key) x = n at htake hdrop hbound ⊢
  cases n with
  | zero =>
    obtain ⟨a,rest,rfl⟩ := List.exists_cons_of_ne_nil hne
    have hlate : ∀ b ∈ a::rest, x < key b := by
      rw [List.drop_zero] at hdrop
      intro b hb
      rw [hdrop] at hb
      exact of_decide_eq_true (List.mem_filter.mp hb).2
    refine ⟨a,rfl,.inr ⟨hlate,?_⟩⟩
    intro b hb
    rcases List.mem_cons.mp hb with rfl | hb
    · exact le_rfl
    · exact (List.pairwise_cons.mp hsorted).1 b hb
  | succ n =>
    have hn : n < xs.length := hbound
    have hsplit : xs.take (n + 1) = xs.take n ++ [xs[n]] := List.take_succ_eq_append_getElem hn
    have hlast : xs[n] ∈ xs.take (n + 1) := by
      rw [hsplit]
      exact List.mem_append_right _ (List.mem_singleton_self _)
    refine ⟨xs[n],List.getElem?_eq_getElem hn,.inl ⟨?_,?_⟩⟩
    · rw [htake] at hlast
      exact of_decide_eq_true (List.mem_filter.mp hlast).2
    · intro b hb hle
      have hmem : b ∈ xs.take (n + 1) := by
        rw [htake]
        exact List.mem_filter.mpr ⟨hb,decide_eq_true hle⟩
      have hpairs : (xs.take n ++ [xs[n]]).Pairwise (fun a b => key a ≤ key b) := by
        rw [← hsplit]
        exact hsorted.sublist (List.take_sublist _ _)
      rw [hsplit,List.mem_append,List.mem_singleton] at hmem
      rcases hmem with hmem | rfl
      · exact (List.pairwise_append.mp hpairs).2.2 b hmem _ (List.mem_singleton_self _)
      · exact le_rfl

end Key

section Tail
variable {β : Type*} {p : β → Bool} {xs : List β}

/-- The longest end that satisfies a condition holds all elements that do exactly when none of them
is followed by one that does not. -/
theorem rtakeWhile_eq_filter_iff :
    xs.rtakeWhile p = xs.filter p ↔ xs.Pairwise (fun a b => p a → p b) := by
  induction xs using List.reverseRecOn with
  | nil => exact iff_of_true rfl List.Pairwise.nil
  | append_singleton xs x ih =>
    rw [List.rtakeWhile_concat,List.filter_append,List.pairwise_append]
    by_cases hx : p x = true
    · rw [if_pos hx,List.filter_singleton,Bool.cond_eq_ite,if_pos hx,List.append_cancel_right_eq,ih]
      simp [hx]
    · rw [if_neg hx,List.filter_singleton,Bool.cond_eq_ite,if_neg hx,List.append_nil,eq_comm,
        List.filter_eq_nil_iff]
      constructor
      · intro h
        refine ⟨?_,List.pairwise_singleton _ _,?_⟩
        · exact List.pairwise_of_forall_mem_list (fun a ha b _ hpa => absurd hpa (h a ha))
        · exact fun a ha b _ hpa => absurd hpa (h a ha)
      · rintro ⟨-,-,h⟩ a ha hpa
        exact hx (h a ha x (List.mem_singleton_self x) hpa)

end Tail

end Lists
