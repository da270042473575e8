import Mathlib.Data.List.Induction
import Mathlib.Data.List.Perm.Basic

/-! Values put into numbered buckets one after the other. -/
namespace Lists
variable {α : Type*} {n : ℕ}

/-- The values of each number, in their order. -/
def buckets (n : ℕ) (placed : List (ℕ × α)) : List (List α) :=
  (List.range n).map (fun i => (placed.filter (fun p => p.1 = i)).map Prod.snd)

theorem length_buckets (placed : List (ℕ × α)) : (buckets n placed).length = n := by
  rw [buckets,List.length_map,List.length_range]

theorem buckets_nil : buckets n ([] : List (ℕ × α)) = List.replicate n [] := by
  simp [buckets,List.map_const']

/-- One value more is one more at the end of its bucket. -/
theorem buckets_concat (placed : List (ℕ × α)) (i : ℕ) (x : α) :
    buckets n (placed ++ [(i,x)]) = (buckets n placed).modify i (· ++ [x]) := by
  apply List.ext_getElem
  · simp [length_buckets]
  · intro j hj hj'
    rw [List.getElem_modify]
    simp only [buckets,List.getElem_map,List.getElem_range,List.filter_append,List.map_append]
    split
    · rename_i h
      subst h
      simp
    · rename_i h
      simp [h]

theorem flatten_modify_perm {xss : List (List α)} {i : ℕ} (hi : i < xss.length) (x : α) :
    (xss.modify i (· ++ [x])).flatten.Perm (xss.flatten ++ [x]) := by
  induction xss generalizing i with
  | nil => cases hi
  | cons xs xss ih =>
    cases i with
    | zero =>
      simp only [List.modify_zero_cons,List.flatten_cons,List.append_assoc]
      exact List.perm_append_comm.append_left xs
    | succ i =>
      simp only [List.modify_succ_cons,List.flatten_cons,List.append_assoc]
      exact (ih (Nat.lt_of_succ_lt_succ hi)).append_left xs

/-- Every value is in exactly one bucket if it has a number there is a bucket for. -/
theorem flatten_buckets_perm {placed : List (ℕ × α)} (h : ∀ p ∈ placed, p.1 < n) :
    (buckets n placed).flatten.Perm (placed.map Prod.snd) := by
  induction placed using List.reverseRecOn with
  | nil => simp [buckets_nil]
  | append_singleton placed p ih =>
    obtain ⟨i,x⟩ := p
    have hi : i < (buckets n placed).length := by
      rw [length_buckets]
      exact h (i,x) (by simp)
    rw [buckets_concat,List.map_append]
    exact (flatten_modify_perm hi x).trans ((ih (fun p hp => h p (by simp [hp]))).append_right [x])

end Lists
