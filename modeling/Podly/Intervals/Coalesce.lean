import Mathlib.Data.List.Sort
import Mathlib.Data.Prod.Lex
import Mathlib.Order.MinMax
import Podly.Intervals.Sweep

/-! Half-open intervals in a linear order, as pairs of endpoints: the points a list of them
covers, separated lists as canonical forms, and the sorted sweep that coalesces neighbours. -/
namespace Intervals
open Sweep
variable {α : Type*} [LinearOrder α]

/-- Some interval `[w.1,w.2)` of the list contains the point. -/
def Covers (ws : List (α × α)) (t : α) : Prop := ∃ w ∈ ws, w.1 ≤ t ∧ t < w.2

instance (ws : List (α × α)) (t : α) : Decidable (Covers ws t) :=
  inferInstanceAs (Decidable (∃ w ∈ ws, w.1 ≤ t ∧ t < w.2))

@[simp] theorem covers_nil (t : α) : ¬ Covers [] t := by simp [Covers]

@[simp] theorem covers_cons (w : α × α) (ws : List (α × α)) (t : α) :
    Covers (w::ws) t ↔ (w.1 ≤ t ∧ t < w.2) ∨ Covers ws t := by simp [Covers]

@[simp] theorem covers_append (us ws : List (α × α)) (t : α) :
    Covers (us ++ ws) t ↔ Covers us t ∨ Covers ws t := by
  simp only [Covers, List.mem_append, or_and_right, exists_or]

theorem Covers.of_mem {ws : List (α × α)} {w : α × α} {t : α} (hw : w ∈ ws)
    (h₁ : w.1 ≤ t) (h₂ : t < w.2) : Covers ws t := ⟨w,hw,h₁,h₂⟩

theorem covers_congr {us ws : List (α × α)} (h : ∀ w, w ∈ us ↔ w ∈ ws) (t : α) :
    Covers us t ↔ Covers ws t := by simp only [Covers, h]

/-- Intervals that cover nothing can be dropped. -/
theorem covers_filter_lt (ws : List (α × α)) (t : α) :
    Covers (ws.filter (fun w => w.1 < w.2)) t ↔ Covers ws t := by
  constructor
  · rintro ⟨w,hw,h⟩
    exact ⟨w,List.mem_of_mem_filter hw,h⟩
  · rintro ⟨w,hw,h₁,h₂⟩
    exact ⟨w,List.mem_filter.mpr ⟨hw,by simpa using h₁.trans_lt h₂⟩,h₁,h₂⟩

/-- Nonempty intervals in order, each ending strictly before every later one starts. -/
structure Separated (ws : List (α × α)) : Prop where
  nonempty : ∀ w ∈ ws, w.1 < w.2
  ordered : ws.Pairwise (fun a b => a.2 < b.1)

namespace Separated

theorem nil : Separated ([] : List (α × α)) := ⟨by simp,List.Pairwise.nil⟩

theorem cons_iff {w : α × α} {ws : List (α × α)} :
    Separated (w::ws) ↔ w.1 < w.2 ∧ (∀ b ∈ ws, w.2 < b.1) ∧ Separated ws := by
  constructor
  · rintro ⟨hn,ho⟩
    obtain ⟨hw,hws⟩ := List.pairwise_cons.mp ho
    exact ⟨hn w (by simp),hw,⟨fun b hb => hn b (by simp [hb]),hws⟩⟩
  · rintro ⟨hw,hb,hs⟩
    refine ⟨?_,List.pairwise_cons.mpr ⟨hb,hs.ordered⟩⟩
    intro b hb'
    rcases List.mem_cons.mp hb' with rfl | hb'
    · exact hw
    · exact hs.nonempty b hb'

/-- The first start of a separated list is the least covered point. -/
theorem head_le_of_covers {w : α × α} {ws : List (α × α)} (h : Separated (w::ws)) {t : α}
    (ht : Covers (w::ws) t) : w.1 ≤ t := by
  obtain ⟨hw,hb,-⟩ := cons_iff.mp h
  rcases (covers_cons w ws t).mp ht with ht | ⟨b,hmem,hbt,-⟩
  · exact ht.1
  · exact hw.le.trans ((hb b hmem).le.trans hbt)

/-- The end of the first interval of a separated list is not covered. -/
theorem not_covers_head_end {w : α × α} {ws : List (α × α)} (h : Separated (w::ws)) :
    ¬ Covers (w::ws) w.2 := by
  obtain ⟨-,hb,-⟩ := cons_iff.mp h
  intro ht
  rcases (covers_cons w ws w.2).mp ht with ht | ⟨b,hmem,hbt,-⟩
  · exact lt_irrefl _ ht.2
  · exact absurd hbt (hb b hmem).not_ge

/-- Below the tail of a separated list only the head covers anything. -/
theorem covers_tail_iff {w : α × α} {ws : List (α × α)} (h : Separated (w::ws)) (t : α) :
    Covers ws t ↔ Covers (w::ws) t ∧ w.2 ≤ t := by
  obtain ⟨-,hb,-⟩ := cons_iff.mp h
  constructor
  · intro ht
    obtain ⟨b,hmem,hbt,-⟩ := id ht
    exact ⟨(covers_cons w ws t).mpr (.inr ht),(hb b hmem).le.trans hbt⟩
  · rintro ⟨ht,hwt⟩
    rcases (covers_cons w ws t).mp ht with ht | ht
    · exact absurd ht.2 hwt.not_gt
    · exact ht

/-- A head that covers everything up to `y` reaches at least as far as any other separated
list covering the same points: the comparison step of `eq_of_covers`. -/
theorem head_end_le {u w : α × α} {us ws : List (α × α)} (hu : Separated (u::us))
    (h : ∀ t, Covers (u::us) t ↔ Covers (w::ws) t) (hstart : u.1 = w.1) : w.2 ≤ u.2 := by
  by_contra hlt
  have hin : Covers (w::ws) u.2 := by
    refine (covers_cons w ws u.2).mpr (.inl ⟨?_,lt_of_not_ge hlt⟩)
    exact hstart ▸ (cons_iff.mp hu).1.le
  exact hu.not_covers_head_end ((h u.2).mpr hin)

/-- Separated lists are canonical: they are determined by the points they cover. -/
theorem eq_of_covers {us ws : List (α × α)} (hu : Separated us) (hw : Separated ws)
    (h : ∀ t, Covers us t ↔ Covers ws t) : us = ws := by
  induction us generalizing ws with
  | nil =>
    cases ws with
    | nil => rfl
    | cons w ws =>
      have hww := (cons_iff.mp hw).1
      exact absurd ((h w.1).mpr ((covers_cons w ws w.1).mpr (.inl ⟨le_rfl,hww⟩))) (by simp)
  | cons u us ih =>
    have huu := (cons_iff.mp hu).1
    have hu1 : Covers (u::us) u.1 := (covers_cons u us u.1).mpr (.inl ⟨le_rfl,huu⟩)
    cases ws with
    | nil => exact absurd ((h u.1).mp hu1) (by simp)
    | cons w ws =>
      have hww := (cons_iff.mp hw).1
      have hw1 : Covers (w::ws) w.1 := (covers_cons w ws w.1).mpr (.inl ⟨le_rfl,hww⟩)
      have hstart : u.1 = w.1 :=
        le_antisymm (hu.head_le_of_covers ((h w.1).mpr hw1)) (hw.head_le_of_covers ((h u.1).mp hu1))
      have hend : u.2 = w.2 :=
        le_antisymm (head_end_le hw (fun t => (h t).symm) hstart.symm) (head_end_le hu h hstart)
      have htail : us = ws := by
        apply ih (cons_iff.mp hu).2.2 (cons_iff.mp hw).2.2
        intro t
        rw [hu.covers_tail_iff,hw.covers_tail_iff,h t,hend]
      rw [htail,Prod.ext hstart hend]

end Separated

section StableSort
variable {β : Type*}

/-- Stable sort on a key: equal keys keep the order of the list. -/
def sortByKey (key : β → α) (xs : List β) : List β := xs.insertionSort (fun a b => key a ≤ key b)

theorem sortByKey_perm (key : β → α) (xs : List β) : (sortByKey key xs).Perm xs :=
  List.perm_insertionSort _ xs

@[simp] theorem mem_sortByKey (key : β → α) (xs : List β) (x : β) :
    x ∈ sortByKey key xs ↔ x ∈ xs := (sortByKey_perm key xs).mem_iff

theorem sortByKey_sorted (key : β → α) (xs : List β) :
    (sortByKey key xs).Pairwise (fun a b => key a ≤ key b) := by
  have : Std.Total (fun a b : β => key a ≤ key b) := ⟨fun a b => le_total (key a) (key b)⟩
  have : IsTrans β (fun a b : β => key a ≤ key b) := ⟨fun _ _ _ => le_trans⟩
  exact List.pairwise_insertionSort _ xs

theorem sortByKey_of_sorted {key : β → α} {xs : List β}
    (h : xs.Pairwise (fun a b => key a ≤ key b)) : sortByKey key xs = xs := h.insertionSort_eq

theorem sortByKey_map {γ : Type*} (key : β → α) (f : γ → β) (xs : List γ) :
    sortByKey key (xs.map f) = (sortByKey (fun x => key (f x)) xs).map f :=
  (List.map_insertionSort _ _ f xs (fun _ _ _ _ => Iff.rfl)).symm

/-- A list in order of an injective key is the sorted form of each of its permutations. -/
theorem sortByKey_eq_of_perm {key : β → α} (hkey : Function.Injective key) {xs ys : List β}
    (hperm : ys.Perm xs) (hs : ys.Pairwise (fun a b => key a ≤ key b)) : sortByKey key xs = ys := by
  apply ((sortByKey_perm key xs).trans hperm.symm).eq_of_pairwise _ (sortByKey_sorted key xs) hs
  intro a b _ _ hab hba
  exact hkey (le_antisymm hab hba)

theorem orderedInsert_ties {key : β → α} {R : β → β → Prop} {x : β} {xs : List β}
    (hx : ∀ y ∈ xs, key x = key y → R x y)
    (hxs : xs.Pairwise (fun a b => key a = key b → R a b)) :
    (xs.orderedInsert (fun a b => key a ≤ key b) x).Pairwise
      (fun a b => key a = key b → R a b) := by
  induction xs with
  | nil => simp
  | cons y ys ih =>
    obtain ⟨hy,hys⟩ := List.pairwise_cons.mp hxs
    rw [List.orderedInsert_cons]
    split
    · exact List.pairwise_cons.mpr ⟨hx,hxs⟩
    · rename_i hlt
      refine List.pairwise_cons.mpr ⟨?_,ih (fun z hz => hx z (by simp [hz])) hys⟩
      intro z hz
      rcases (List.mem_orderedInsert _).mp hz with rfl | hz
      · exact fun h => absurd h.ge hlt
      · exact hy z hz

/-- A stable sort keeps what holds between entries of one key. -/
theorem sortByKey_ties {key : β → α} {R : β → β → Prop} {xs : List β}
    (h : xs.Pairwise (fun a b => key a = key b → R a b)) :
    (sortByKey key xs).Pairwise (fun a b => key a = key b → R a b) := by
  induction xs with
  | nil => exact List.Pairwise.nil
  | cons x xs ih =>
    obtain ⟨hx,hxs⟩ := List.pairwise_cons.mp h
    exact orderedInsert_ties (fun y hy => hx y ((mem_sortByKey key xs y).mp hy)) (ih hxs)

end StableSort

section Lex

/-- Intervals of one start come in order of their ends. -/
def TiesInOrder (ws : List (α × α)) : Prop := ws.Pairwise (fun a b => a.1 = b.1 → a.2 ≤ b.2)

instance (ws : List (α × α)) : Decidable (TiesInOrder ws) :=
  inferInstanceAs (Decidable (ws.Pairwise _))

theorem tiesInOrder_of_lt {ws : List (α × α)} (h : ws.Pairwise (fun a b => a.1 < b.1)) :
    TiesInOrder ws := h.imp (fun hlt heq => absurd heq hlt.ne)

/-- The stable sort on the start is the sort of the pairs when ties are in order already. -/
theorem sortByKey_toLex_eq {ws : List (α × α)} (h : TiesInOrder ws) :
    sortByKey toLex ws = sortByKey Prod.fst ws := by
  apply sortByKey_eq_of_perm toLex.injective (sortByKey_perm _ _)
  apply ((sortByKey_sorted Prod.fst ws).and (sortByKey_ties h)).imp
  rintro a b ⟨hle,hties⟩
  rcases hle.lt_or_eq with hlt | heq
  · exact Prod.Lex.toLex_le_toLex.mpr (.inl hlt)
  · exact Prod.Lex.toLex_le_toLex.mpr (.inr ⟨heq,hties heq⟩)

end Lex

/-- The list is in order of starts, as a stable sort on the start leaves it. -/
def StartSorted (ws : List (α × α)) : Prop := ws.Pairwise (fun a b => a.1 ≤ b.1)

/-- Extend the first interval to the end of the second, unless it reaches further already. -/
def extend (a b : α × α) : α × α := (a.1,max a.2 b.2)

/-- Coalesce a list in order of starts: an interval that starts no later than `reach` of the
current end is absorbed, any other opens a new interval. -/
def coalesce (reach : α → α) (ws : List (α × α)) : List (α × α) :=
  joinAll (fun a b => b.1 ≤ reach a.2) extend ws

@[simp] theorem coalesce_nil (reach : α → α) : coalesce reach [] = [] := rfl

/-- Coalescing nonempty intervals leaves nonempty intervals. -/
theorem coalesce_nonempty {reach : α → α} {ws : List (α × α)} (hn : ∀ w ∈ ws, w.1 < w.2) :
    ∀ w ∈ coalesce reach ws, w.1 < w.2 :=
  forall_mem_joinAll (fun _ _ ha _ => ha.trans_le (le_max_left _ _)) hn

/-- After coalescing, neighbours lie out of reach of each other. -/
theorem coalesce_spaced {reach : α → α} {ws : List (α × α)} (hs : StartSorted ws) :
    (coalesce reach ws).Pairwise (fun a b => reach a.2 < b.1) := by
  have h : (joinAll (fun a b => b.1 ≤ reach a.2) extend ws).Pairwise
      (fun a b => a.1 ≤ b.1 ∧ ¬ b.1 ≤ reach a.2) := by
    apply joinAll_pairwise Prod.fst _ _ hs
    · intro a b
      rfl
    · intro a b c hle hreach
      exact hle.trans hreach
  exact h.imp (fun h => lt_of_not_ge h.2)

theorem coalesce_separated {reach : α → α} (hreach : ∀ a, a ≤ reach a) {ws : List (α × α)}
    (hs : StartSorted ws) (hn : ∀ w ∈ ws, w.1 < w.2) : Separated (coalesce reach ws) :=
  ⟨coalesce_nonempty hn,(coalesce_spaced hs).imp (fun h => (hreach _).trans_lt h)⟩

/-- Absorbing the second interval into the first keeps the list in order. -/
theorem StartSorted.extend {cur x : α × α} {xs : List (α × α)} (h : StartSorted (cur::x::xs)) :
    StartSorted (extend cur x::xs) := by
  obtain ⟨hcur,hxs⟩ := List.pairwise_cons.mp h
  exact List.pairwise_cons.mpr ⟨fun b hb => hcur b (by simp [hb]),(List.pairwise_cons.mp hxs).2⟩

/-- A touching second interval is absorbed without gaining or losing a point. -/
theorem covers_extend {cur x : α × α} (hx : cur.1 ≤ x.1) (htouch : x.1 ≤ cur.2)
    (ws : List (α × α)) (t : α) : Covers (extend cur x::ws) t ↔ Covers (cur::x::ws) t := by
  simp only [covers_cons, extend, lt_max_iff]
  rcases le_or_gt x.1 t with hxt | hxt
  · simp only [hxt, hx.trans hxt, true_and, or_assoc]
  · simp only [hxt.not_ge, false_and, false_or, hxt.trans_le htouch, true_or, and_true]

/-- When only touching intervals are joined, the sweep covers exactly the same points. -/
theorem covers_coalesceFrom {cur : α × α} {ws : List (α × α)} (hs : StartSorted (cur::ws))
    (t : α) : Covers (joinFrom (fun a b => b.1 ≤ id a.2) extend cur ws) t ↔
      Covers (cur::ws) t := by
  induction ws generalizing cur with
  | nil => rfl
  | cons x xs ih =>
    obtain ⟨hcur,hxs⟩ := List.pairwise_cons.mp hs
    simp only [joinFrom, id]
    split
    · rename_i htouch
      rw [← covers_extend (hcur x (by simp)) htouch]
      exact ih hs.extend
    · rw [covers_cons,covers_cons cur]
      exact or_congr_right (ih hxs)

theorem covers_coalesce {ws : List (α × α)} (hs : StartSorted ws) (t : α) :
    Covers (coalesce id ws) t ↔ Covers ws t := by
  cases ws with
  | nil => simp
  | cons w ws => exact covers_coalesceFrom hs t

/-- The canonical form of a list of intervals: drop the empty ones, sort, coalesce. -/
def normalize (ws : List (α × α)) : List (α × α) :=
  coalesce id (sortByKey Prod.fst (ws.filter (fun w => w.1 < w.2)))

theorem normalize_separated (ws : List (α × α)) : Separated (normalize ws) := by
  apply coalesce_separated (fun _ => le_rfl) (sortByKey_sorted Prod.fst _)
  intro w hw
  simpa using (List.mem_filter.mp ((mem_sortByKey _ _ w).mp hw)).2

/-- Normalising changes the list and not the points it covers. -/
theorem covers_normalize (ws : List (α × α)) (t : α) : Covers (normalize ws) t ↔ Covers ws t := by
  rw [normalize,covers_coalesce (sortByKey_sorted Prod.fst _),covers_congr (mem_sortByKey _ _),
    covers_filter_lt]

example : normalize [(5,9),(0,2),(7,8),(2,4),(3,3)] = [(0,4),(5,(9 : ℕ))] := by decide

end Intervals
