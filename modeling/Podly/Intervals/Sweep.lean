import Mathlib.Data.List.Basic
import Mathlib.Order.Basic

/-! Sweeps over a list that join neighbours: the loop itself, joins of the first and of the last
two entries, and what every such join preserves. -/
namespace Sweep
variable {β γ δ : Type*}

/-- Sweep from the left with a current entry: the next one is joined to it when `p` holds of the
two, and becomes the current entry otherwise. -/
def joinFrom (p : β → β → Prop) [DecidableRel p] (join : β → β → β) (cur : β) : List β → List β
  | [] => [cur]
  | x::xs => if p cur x then joinFrom p join (join cur x) xs else cur::joinFrom p join x xs

/-- The sweep over a whole list. -/
def joinAll (p : β → β → Prop) [DecidableRel p] (join : β → β → β) : List β → List β
  | [] => []
  | x::xs => joinFrom p join x xs

/-- The same sweep as a loop that keeps its result in a list: join to the last entry or append. -/
def joinPush (p : β → β → Prop) [DecidableRel p] (join : β → β → β) (done : List β) (x : β) :
    List β :=
  match done.getLast? with
  | some last => if p last x then done.dropLast ++ [join last x] else done ++ [x]
  | none => done ++ [x]

/-- Join the first two entries when `p` holds of them. -/
def joinHead (p : β → β → Prop) [DecidableRel p] (join : β → β → β) : List β → List β
  | x::y::ys => if p x y then join x y::ys else x::y::ys
  | xs => xs

/-- Join the last two entries when `p` holds of them. -/
def joinLast (p : β → β → Prop) [DecidableRel p] (join : β → β → β) (xs : List β) : List β :=
  match xs.reverse with
  | y::x::rest => if p x y then (join x y::rest).reverse else xs
  | _ => xs

section Loop
variable (p : β → β → Prop) [DecidableRel p] (join : β → β → β)

@[simp] theorem joinAll_nil : joinAll p join [] = [] := rfl

/-- The loop only touches the last entry of its result. -/
theorem foldl_joinPush_append (pre : List β) (cur : β) (xs : List β) :
    xs.foldl (joinPush p join) (pre ++ [cur]) = pre ++ joinFrom p join cur xs := by
  induction xs generalizing pre cur with
  | nil => rfl
  | cons x xs ih =>
    have hstep : joinPush p join (pre ++ [cur]) x =
        if p cur x then pre ++ [join cur x] else pre ++ [cur] ++ [x] := by
      simp only [joinPush, List.getLast?_concat, List.dropLast_concat]
    rw [List.foldl_cons,hstep,joinFrom]
    split
    · exact ih pre _
    · rw [ih (pre ++ [cur]) x,List.append_assoc,List.singleton_append]

theorem foldl_joinPush (xs : List β) : xs.foldl (joinPush p join) [] = joinAll p join xs := by
  cases xs with
  | nil => rfl
  | cons x xs => exact foldl_joinPush_append p join [] x xs

theorem joinFrom_eq_self {cur : β} {xs : List β} (h : (cur::xs).Pairwise (fun a b => ¬p a b)) :
    joinFrom p join cur xs = cur::xs := by
  induction xs generalizing cur with
  | nil => rfl
  | cons x xs ih =>
    obtain ⟨hcur,hxs⟩ := List.pairwise_cons.mp h
    rw [joinFrom,if_neg (hcur x List.mem_cons_self),ih hxs]

/-- Nothing is joined where no two entries are joinable. -/
theorem joinAll_eq_self {xs : List β} (h : xs.Pairwise (fun a b => ¬p a b)) :
    joinAll p join xs = xs := by
  cases xs with
  | nil => rfl
  | cons x xs => exact joinFrom_eq_self p join h

end Loop

section Congr
variable {p q : β → β → Prop} [DecidableRel p] [DecidableRel q] {join : β → β → β} {P : β → Prop}

theorem joinFrom_congr (hpq : ∀ a b, P a → (p a b ↔ q a b)) (hjoin : ∀ a b, P a → P b → P (join a b))
    {cur : β} {xs : List β} (hcur : P cur) (hxs : ∀ x ∈ xs, P x) :
    joinFrom p join cur xs = joinFrom q join cur xs := by
  induction xs generalizing cur with
  | nil => rfl
  | cons x xs ih =>
    have hx := hxs x List.mem_cons_self
    have hrest : ∀ y ∈ xs, P y := fun y hy => hxs y (List.mem_cons_of_mem x hy)
    rw [joinFrom,joinFrom,ih (hjoin cur x hcur hx) hrest,ih hx hrest]
    exact if_congr (hpq cur x hcur) rfl rfl

/-- Sweeps with tests that agree where an invariant holds do the same. -/
theorem joinAll_congr (hpq : ∀ a b, P a → (p a b ↔ q a b)) (hjoin : ∀ a b, P a → P b → P (join a b))
    {xs : List β} (hxs : ∀ x ∈ xs, P x) : joinAll p join xs = joinAll q join xs := by
  cases xs with
  | nil => rfl
  | cons x xs =>
    exact joinFrom_congr hpq hjoin (hxs x List.mem_cons_self)
      (fun y hy => hxs y (List.mem_cons_of_mem x hy))

end Congr

section Short
variable (p : β → β → Prop) [DecidableRel p] (join : β → β → β)

theorem joinHead_of_length_lt {xs : List β} (h : xs.length < 2) : joinHead p join xs = xs := by
  match xs, h with
  | [], _ => rfl
  | [x], _ => rfl

theorem joinLast_of_length_lt {xs : List β} (h : xs.length < 2) : joinLast p join xs = xs := by
  match xs, h with
  | [], _ => rfl
  | [x], _ => rfl

end Short

section Map
variable {p : β → β → Prop} [DecidableRel p] {join : β → β → β}
  {q : γ → γ → Prop} [DecidableRel q] {join' : γ → γ → γ} (f : β → γ)

/-- A map that carries one join to the other carries one sweep to the other. -/
theorem map_joinFrom (hp : ∀ a b, p a b ↔ q (f a) (f b))
    (hj : ∀ a b, f (join a b) = join' (f a) (f b)) (cur : β) (xs : List β) :
    (joinFrom p join cur xs).map f = joinFrom q join' (f cur) (xs.map f) := by
  induction xs generalizing cur with
  | nil => rfl
  | cons x xs ih =>
    simp only [joinFrom, List.map_cons, ← hp]
    split
    · rw [ih,hj]
    · rw [List.map_cons,ih]

theorem map_joinAll (hp : ∀ a b, p a b ↔ q (f a) (f b))
    (hj : ∀ a b, f (join a b) = join' (f a) (f b)) (xs : List β) :
    (joinAll p join xs).map f = joinAll q join' (xs.map f) := by
  cases xs with
  | nil => rfl
  | cons x xs => exact map_joinFrom f hp hj x xs

theorem map_joinHead (hp : ∀ a b, p a b ↔ q (f a) (f b))
    (hj : ∀ a b, f (join a b) = join' (f a) (f b)) (xs : List β) :
    (joinHead p join xs).map f = joinHead q join' (xs.map f) := by
  match xs with
  | [] => rfl
  | [x] => rfl
  | x::y::ys =>
    simp only [joinHead, List.map_cons, ← hp]
    split
    · rw [List.map_cons,hj]
    · rfl

theorem map_joinLast (hp : ∀ a b, p a b ↔ q (f a) (f b))
    (hj : ∀ a b, f (join a b) = join' (f a) (f b)) (xs : List β) :
    (joinLast p join xs).map f = joinLast q join' (xs.map f) := by
  rw [joinLast,joinLast,← List.map_reverse]
  match xs.reverse with
  | [] => rfl
  | [y] => rfl
  | y::x::rest =>
    simp only [List.map_cons, ← hp]
    split
    · rw [List.map_reverse,List.map_cons,hj]
    · rfl

end Map

section Parts
variable {p : β → β → Prop} [DecidableRel p] {join : β → β → β} {parts : β → List δ}

/-- Joining entries that are made of parts, in order, neither loses nor reorders a part. -/
theorem flatMap_joinFrom (hj : ∀ a b, parts (join a b) = parts a ++ parts b) (cur : β)
    (xs : List β) : (joinFrom p join cur xs).flatMap parts = (cur::xs).flatMap parts := by
  induction xs generalizing cur with
  | nil => rfl
  | cons x xs ih =>
    simp only [joinFrom]
    split
    · rw [ih,List.flatMap_cons,hj,List.append_assoc]
      rfl
    · rw [List.flatMap_cons,ih]
      rfl

theorem flatMap_joinAll (hj : ∀ a b, parts (join a b) = parts a ++ parts b) (xs : List β) :
    (joinAll p join xs).flatMap parts = xs.flatMap parts := by
  cases xs with
  | nil => rfl
  | cons x xs => exact flatMap_joinFrom hj x xs

theorem flatMap_joinHead (hj : ∀ a b, parts (join a b) = parts a ++ parts b) (xs : List β) :
    (joinHead p join xs).flatMap parts = xs.flatMap parts := by
  match xs with
  | [] => rfl
  | [x] => rfl
  | x::y::ys =>
    simp only [joinHead]
    split
    · simp [hj]
    · rfl

theorem flatMap_joinLast (hj : ∀ a b, parts (join a b) = parts a ++ parts b) (xs : List β) :
    (joinLast p join xs).flatMap parts = xs.flatMap parts := by
  obtain ⟨ys,rfl⟩ : ∃ ys : List β, xs = ys.reverse := ⟨xs.reverse,by simp⟩
  rw [joinLast,List.reverse_reverse]
  match ys with
  | [] => rfl
  | [y] => rfl
  | y::x::rest =>
    dsimp only
    split
    · simp [hj]
    · rfl

end Parts

section Order
variable {α : Type*} [Preorder α] {p : β → β → Prop} [DecidableRel p] {join : β → β → β}
  (start : β → α)

/-- Every entry the sweep returns starts no earlier than the current one. -/
theorem start_le_of_mem_joinFrom (hj : ∀ a b, start (join a b) = start a) {cur : β}
    {xs : List β} (hs : (cur::xs).Pairwise (fun a b => start a ≤ start b)) {y : β}
    (hy : y ∈ joinFrom p join cur xs) : start cur ≤ start y := by
  induction xs generalizing cur with
  | nil => rw [List.mem_singleton.mp hy]
  | cons x xs ih =>
    obtain ⟨hcur,hxs⟩ := List.pairwise_cons.mp hs
    simp only [joinFrom] at hy
    split at hy
    · have hs' : (join cur x::xs).Pairwise (fun a b => start a ≤ start b) := by
        refine List.pairwise_cons.mpr ⟨?_,(List.pairwise_cons.mp hxs).2⟩
        intro b hb
        rw [hj]
        exact hcur b (by simp [hb])
      exact (hj cur x).symm.le.trans (ih hs' hy)
    · rcases List.mem_cons.mp hy with rfl | hy
      · exact le_rfl
      · exact (hcur x (by simp)).trans (ih hxs hy)

/-- The starts stay in order, and no two entries of the result are joinable any more, when `p`
stays false as the start of its second argument grows. -/
theorem joinFrom_pairwise (hj : ∀ a b, start (join a b) = start a)
    (hp : ∀ a b c, start b ≤ start c → p a c → p a b) {cur : β} {xs : List β}
    (hs : (cur::xs).Pairwise (fun a b => start a ≤ start b)) :
    (joinFrom p join cur xs).Pairwise (fun a b => start a ≤ start b ∧ ¬ p a b) := by
  induction xs generalizing cur with
  | nil => simp [joinFrom]
  | cons x xs ih =>
    obtain ⟨hcur,hxs⟩ := List.pairwise_cons.mp hs
    simp only [joinFrom]
    split
    · apply ih
      refine List.pairwise_cons.mpr ⟨?_,(List.pairwise_cons.mp hxs).2⟩
      intro b hb
      rw [hj]
      exact hcur b (by simp [hb])
    · rename_i hfar
      refine List.pairwise_cons.mpr ⟨?_,ih hxs⟩
      intro b hb
      have hle := start_le_of_mem_joinFrom start hj hxs hb
      exact ⟨(hcur x (by simp)).trans hle,fun h => hfar (hp cur x b hle h)⟩

theorem joinAll_pairwise (hj : ∀ a b, start (join a b) = start a)
    (hp : ∀ a b c, start b ≤ start c → p a c → p a b) {xs : List β}
    (hs : xs.Pairwise (fun a b => start a ≤ start b)) :
    (joinAll p join xs).Pairwise (fun a b => start a ≤ start b ∧ ¬ p a b) := by
  cases xs with
  | nil => simp
  | cons x xs => exact joinFrom_pairwise start hj hp hs

end Order

section Starts
variable {p : β → β → Prop} [DecidableRel p] {join : β → β → β} (start : β → γ)

/-- Joins that keep the first start keep some of the starts, in order. -/
theorem map_joinFrom_sublist (hj : ∀ a b, start (join a b) = start a) (cur : β) (xs : List β) :
    ((joinFrom p join cur xs).map start).Sublist ((cur::xs).map start) := by
  induction xs generalizing cur with
  | nil => exact List.Sublist.refl _
  | cons x xs ih =>
    simp only [joinFrom]
    split
    · have h := ih (join cur x)
      rw [List.map_cons,hj] at h
      exact h.trans ((List.sublist_cons_self _ _).cons_cons _)
    · exact (ih x).cons_cons _

theorem map_joinAll_sublist (hj : ∀ a b, start (join a b) = start a) (xs : List β) :
    ((joinAll p join xs).map start).Sublist (xs.map start) := by
  cases xs with
  | nil => exact List.Sublist.refl _
  | cons x xs => exact map_joinFrom_sublist start hj x xs

end Starts

/-- What holds of the entries and of every join holds of the result. -/
theorem forall_mem_joinFrom {p : β → β → Prop} [DecidableRel p] {join : β → β → β}
    {P : β → Prop} (hj : ∀ a b, P a → P b → P (join a b)) {cur : β} {xs : List β}
    (h : ∀ x ∈ cur::xs, P x) : ∀ y ∈ joinFrom p join cur xs, P y := by
  induction xs generalizing cur with
  | nil => exact h
  | cons x xs ih =>
    have hcur := h cur (by simp)
    have hx := h x (by simp)
    have hxs : ∀ y ∈ xs, P y := fun y hy => h y (by simp [hy])
    simp only [joinFrom]
    split
    · exact ih (List.forall_mem_cons.mpr ⟨hj cur x hcur hx,hxs⟩)
    · exact List.forall_mem_cons.mpr ⟨hcur,ih (List.forall_mem_cons.mpr ⟨hx,hxs⟩)⟩

theorem forall_mem_joinAll {p : β → β → Prop} [DecidableRel p] {join : β → β → β}
    {P : β → Prop} (hj : ∀ a b, P a → P b → P (join a b)) {xs : List β}
    (h : ∀ x ∈ xs, P x) : ∀ y ∈ joinAll p join xs, P y := by
  cases xs with
  | nil => exact h
  | cons x xs => exact forall_mem_joinFrom hj h

end Sweep
