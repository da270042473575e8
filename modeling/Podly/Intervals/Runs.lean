import Mathlib.Data.List.Chain
import Mathlib.Data.Prod.Lex
import Podly.Intervals.Coalesce

/-! Runs of consecutive intervals of a sorted list. A run spans from the start of its first
interval to the end of its last one, which need not be the furthest end in it. -/
namespace Intervals
open Sweep
variable {α : Type*}

/-- A nonempty run of consecutive intervals. -/
structure Run (α : Type*) where
  windows : List (α × α)
  nonempty : windows ≠ []
deriving DecidableEq

namespace Run

def single (w : α × α) : Run α := ⟨[w],by simp⟩

def join (a b : Run α) : Run α := ⟨a.windows ++ b.windows,by simp [a.nonempty]⟩

def first (r : Run α) : α × α := r.windows.head r.nonempty

def last (r : Run α) : α × α := r.windows.getLast r.nonempty

/-- From the start of the first interval to the end of the last one. -/
def span (r : Run α) : α × α := (r.first.1,r.last.2)

/-- The span two neighbours get when they are joined. -/
def spanTo (a b : α × α) : α × α := (a.1,b.2)

@[simp] theorem windows_single (w : α × α) : (single w).windows = [w] := rfl

@[simp] theorem windows_join (a b : Run α) :
    (a.join b).windows = a.windows ++ b.windows := rfl

@[simp] theorem span_single (w : α × α) : (single w).span = w := rfl

@[simp] theorem span_join (a b : Run α) : (a.join b).span = spanTo a.span b.span := by
  simp [span, spanTo, first, last, join, List.head_append_of_ne_nil, a.nonempty,
    List.getLast_append_of_ne_nil, b.nonempty]

theorem first_mem (r : Run α) : r.first ∈ r.windows := List.head_mem r.nonempty

theorem last_mem (r : Run α) : r.last ∈ r.windows := List.getLast_mem r.nonempty

theorem map_span_single (ws : List (α × α)) : (ws.map single).map span = ws := by
  rw [List.map_map]
  exact List.map_id ws

theorem flatMap_windows_single (ws : List (α × α)) :
    (ws.map single).flatMap windows = ws := by simp [List.flatMap_map]

end Run

variable [LinearOrder α]

/-- The order of pairs by start and then by end. -/
def LexSorted (ws : List (α × α)) : Prop := ws.Pairwise (fun a b => toLex a ≤ toLex b)

theorem start_le_of_toLex_le {a b : α × α} (h : toLex a ≤ toLex b) : a.1 ≤ b.1 := by
  rcases Prod.Lex.toLex_le_toLex.mp h with h | ⟨h,-⟩
  · exact h.le
  · exact h.le

theorem end_le_of_toLex_le {a b : α × α} (h : toLex a ≤ toLex b) (hstart : b.1 ≤ a.1) :
    a.2 ≤ b.2 := by
  rcases Prod.Lex.toLex_le_toLex.mp h with h | ⟨-,h⟩
  · exact absurd hstart h.not_ge
  · exact h

namespace Run
variable {rs : List (Run α)}

theorem sorted_windows (h : LexSorted (rs.flatMap windows)) {r : Run α} (hr : r ∈ rs) :
    LexSorted r.windows := (List.pairwise_flatMap.mp h).1 r hr

/-- A run starts no later than any of its intervals. -/
theorem first_le (h : LexSorted (rs.flatMap windows)) {r : Run α} (hr : r ∈ rs) {w : α × α}
    (hw : w ∈ r.windows) : toLex r.first ≤ toLex w := by
  have hs := sorted_windows h hr
  obtain ⟨x,xs,hx⟩ := List.exists_cons_of_ne_nil r.nonempty
  have hfirst : r.first = x := by simp [first, hx]
  rw [hx] at hw hs
  rw [hfirst]
  rcases List.mem_cons.mp hw with rfl | hw
  · exact le_rfl
  · exact (List.pairwise_cons.mp hs).1 w hw

/-- No interval of a run comes after its last one. -/
theorem le_last (h : LexSorted (rs.flatMap windows)) {r : Run α} (hr : r ∈ rs) {w : α × α}
    (hw : w ∈ r.windows) : toLex w ≤ toLex r.last := by
  have hs := sorted_windows h hr
  rw [LexSorted,← List.dropLast_append_getLast r.nonempty] at hs
  rw [← List.dropLast_append_getLast r.nonempty,List.mem_append,List.mem_singleton] at hw
  rcases hw with hw | rfl
  · exact (List.pairwise_append.mp hs).2.2 w hw r.last (List.mem_singleton.mpr rfl)
  · exact le_rfl

/-- The spans of the runs come in order of their starts. -/
theorem spans_startSorted (h : LexSorted (rs.flatMap windows)) :
    rs.Pairwise (fun a b => a.span.1 ≤ b.span.1) := by
  apply (List.pairwise_flatMap.mp h).2.imp
  intro a b hab
  have hle := start_le_of_toLex_le (hab a.first a.first_mem b.first b.first_mem)
  exact hle

end Run

section Joined
variable {β : Type*} {near : β → β → Prop} [DecidableRel near]

/-- Sweep runs together whose neighbouring ends are near. -/
def joinRuns (near : β → β → Prop) [DecidableRel near] (ws : List (β × β)) : List (Run β) :=
  joinAll (fun a b => near a.span.2 b.span.1) Run.join (ws.map Run.single)

theorem map_span_joinRuns (ws : List (β × β)) : (joinRuns near ws).map Run.span =
    joinAll (fun a b => near a.2 b.1) Run.spanTo ws := by
  rw [joinRuns,map_joinAll (q := fun a b : β × β => near a.2 b.1) Run.span (fun _ _ => Iff.rfl)
    Run.span_join,Run.map_span_single]

theorem flatMap_windows_joinRuns (ws : List (β × β)) :
    (joinRuns near ws).flatMap Run.windows = ws := by
  rw [joinRuns,flatMap_joinAll Run.windows_join,Run.flatMap_windows_single]

/-- In one run neighbours are near. -/
theorem isChain_of_mem_joinFrom {cur : Run β} {ws : List (β × β)}
    (h : cur.windows.IsChain (fun a b => near a.2 b.1)) :
    ∀ r ∈ joinFrom (fun a b : Run β => near a.span.2 b.span.1) Run.join cur (ws.map Run.single),
      r.windows.IsChain (fun a b => near a.2 b.1) := by
  induction ws generalizing cur with
  | nil =>
    intro r hr
    rwa [List.mem_singleton.mp hr]
  | cons w ws ih =>
    intro r hr
    rw [List.map_cons,joinFrom] at hr
    split at hr
    · rename_i hnear
      refine ih ?_ r hr
      rw [Run.windows_join,List.isChain_append]
      refine ⟨h,List.isChain_singleton w,?_⟩
      intro a ha b hb
      rw [List.getLast?_eq_some_getLast cur.nonempty,Option.mem_def,Option.some_inj] at ha
      rw [Run.windows_single,List.head?_cons,Option.mem_def,Option.some_inj] at hb
      rw [← ha,← hb]
      exact hnear
    · rcases List.mem_cons.mp hr with rfl | hr
      · exact h
      · exact ih (List.isChain_singleton w) r hr

theorem isChain_of_mem_joinRuns {ws : List (β × β)} {r : Run β} (hr : r ∈ joinRuns near ws) :
    r.windows.IsChain (fun a b => near a.2 b.1) := by
  cases ws with
  | nil => exact absurd hr List.not_mem_nil
  | cons w ws => exact isChain_of_mem_joinFrom (List.isChain_singleton w) r hr

/-- The first run of the rest begins where the current one does. -/
theorem start_of_mem_head?_joinFrom {cur r : Run β} {rs : List (Run β)}
    (hr : r ∈ (joinFrom (fun a b : Run β => near a.span.2 b.span.1) Run.join cur rs).head?) :
    r.span.1 = cur.span.1 := by
  induction rs generalizing cur with
  | nil => rw [Option.mem_some_iff.mp hr]
  | cons x rs ih =>
    rw [joinFrom] at hr
    split at hr
    · rw [ih hr,Run.span_join]
      rfl
    · rw [Option.mem_some_iff.mp hr]

/-- From one run to the next neighbours are not near. -/
theorem isChain_joinFrom {cur : Run β} {rs : List (Run β)} :
    (joinFrom (fun a b : Run β => near a.span.2 b.span.1) Run.join cur rs).IsChain
      (fun a b => ¬near a.span.2 b.span.1) := by
  induction rs generalizing cur with
  | nil => exact List.isChain_singleton _
  | cons x rs ih =>
    rw [joinFrom]
    split
    · exact ih
    · rename_i hfar
      refine List.isChain_cons.mpr ⟨?_,ih⟩
      intro r hr
      rwa [start_of_mem_head?_joinFrom hr]

theorem isChain_joinRuns (ws : List (β × β)) :
    (joinRuns near ws).IsChain (fun a b => ¬near a.span.2 b.span.1) := by
  cases ws with
  | nil => exact List.isChain_nil
  | cons w ws => exact isChain_joinFrom

end Joined

section Spans
variable {near : α × α → α × α → Prop} [DecidableRel near]

/-- Windows that are joined over the gaps between them stay separated. -/
theorem separated_joinFrom {cur : α × α} {ws : List (α × α)} (h : Separated (cur::ws)) :
    Separated (joinFrom near Run.spanTo cur ws) := by
  induction ws generalizing cur with
  | nil => exact h
  | cons w ws ih =>
    obtain ⟨hcur,hfirst,hws⟩ := Separated.cons_iff.mp h
    obtain ⟨hw,hrest,htail⟩ := Separated.cons_iff.mp hws
    rw [joinFrom]
    split
    · have hspan : cur.1 < w.2 := (hcur.trans (hfirst w List.mem_cons_self)).trans hw
      exact ih (Separated.cons_iff.mpr ⟨hspan,hrest,htail⟩)
    · have hjoin : ∀ a b : α × α, (Run.spanTo a b).1 = a.1 := fun _ _ => rfl
      refine Separated.cons_iff.mpr ⟨hcur,fun b hb => ?_,ih hws⟩
      have hstarts : (w::ws).Pairwise (fun a b => a.1 ≤ b.1) :=
        hws.ordered.imp_of_mem (fun ha _ hab => ((hws.nonempty _ ha).trans hab).le)
      exact (hfirst w List.mem_cons_self).trans_le
        (start_le_of_mem_joinFrom Prod.fst hjoin hstarts hb)

theorem separated_joinAll {ws : List (α × α)} (h : Separated ws) :
    Separated (joinAll near Run.spanTo ws) := by
  cases ws with
  | nil => exact h
  | cons w ws => exact separated_joinFrom h

theorem covers_joinFrom {cur : α × α} {ws : List (α × α)} (h : Separated (cur::ws)) {t : α}
    (ht : Covers (cur::ws) t) : Covers (joinFrom near Run.spanTo cur ws) t := by
  induction ws generalizing cur with
  | nil => exact ht
  | cons w ws ih =>
    obtain ⟨hcur,hfirst,hws⟩ := Separated.cons_iff.mp h
    obtain ⟨hw,hrest,htail⟩ := Separated.cons_iff.mp hws
    have hgap := hfirst w List.mem_cons_self
    rw [joinFrom]
    split
    · refine ih (Separated.cons_iff.mpr ⟨(hcur.trans hgap).trans hw,hrest,htail⟩) ?_
      rw [covers_cons,covers_cons] at ht
      rw [covers_cons]
      rcases ht with ⟨hstart,hend⟩ | ⟨hstart,hend⟩ | ht
      · exact Or.inl ⟨hstart,hend.trans (hgap.trans hw)⟩
      · exact Or.inl ⟨(hcur.trans hgap).le.trans hstart,hend⟩
      · exact Or.inr ht
    · rw [covers_cons] at ht ⊢
      exact ht.imp_right (ih hws)

/-- Joining loses no point. -/
theorem covers_joinAll {ws : List (α × α)} (h : Separated ws) {t : α} (ht : Covers ws t) :
    Covers (joinAll near Run.spanTo ws) t := by
  cases ws with
  | nil => exact ht
  | cons w ws => exact covers_joinFrom h ht

end Spans

end Intervals
