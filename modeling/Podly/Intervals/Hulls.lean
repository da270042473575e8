import Mathlib.Data.List.Forall2
import Mathlib.Order.Bounds.Basic
import Podly.Intervals.Coalesce
import Podly.Lists.Components

/-! What coalescing makes of a list of intervals: the hulls of its components, where two intervals
are near if neither starts out of reach of the other. -/
namespace Intervals
open Connectivity Sweep
variable {α : Type*} [LinearOrder α]

/-- Neither of two intervals starts out of reach of the other. -/
def Near (reach : α → α) (a b : α × α) : Prop := a.1 ≤ reach b.2 ∧ b.1 ≤ reach a.2

/-- The second interval starts out of reach of the first. -/
def Far (reach : α → α) (a b : α × α) : Prop := reach a.2 < b.1

/-- The least interval around a group. -/
structure IsHull (hull : α × α) (group : List (α × α)) : Prop where
  start : IsLeast {t | ∃ w ∈ group, w.1 = t} hull.1
  stop : IsGreatest {t | ∃ w ∈ group, w.2 = t} hull.2

section Hulls
variable {reach : α → α} {hull w : α × α} {group ws : List (α × α)}

theorem Near.symm {a b : α × α} (h : Near reach a b) : Near reach b a := ⟨h.2,h.1⟩

theorem isHull_singleton (w : α × α) : IsHull w [w] := by
  refine ⟨⟨⟨w,List.mem_singleton_self w,rfl⟩,?_⟩,⟨⟨w,List.mem_singleton_self w,rfl⟩,?_⟩⟩
  · rintro t ⟨v,hv,rfl⟩
    rw [List.mem_singleton.mp hv]
  · rintro t ⟨v,hv,rfl⟩
    rw [List.mem_singleton.mp hv]

theorem IsHull.start_le (h : IsHull hull group) (hw : w ∈ group) : hull.1 ≤ w.1 :=
  h.start.2 ⟨w,hw,rfl⟩

theorem IsHull.le_stop (h : IsHull hull group) (hw : w ∈ group) : w.2 ≤ hull.2 :=
  h.stop.2 ⟨w,hw,rfl⟩

/-- The hull of a group with one more interval, which starts no earlier. -/
theorem IsHull.extend (h : IsHull hull group) (hw : hull.1 ≤ w.1) :
    IsHull (extend hull w) (group ++ [w]) := by
  obtain ⟨v,hv,hstart⟩ := h.start.1
  obtain ⟨u,hu,hstop⟩ := h.stop.1
  refine ⟨⟨⟨v,List.mem_append_left _ hv,hstart⟩,?_⟩,⟨?_,?_⟩⟩
  · rintro t ⟨x,hx,rfl⟩
    rcases List.mem_append.mp hx with hx | hx
    · exact h.start_le hx
    · rw [List.mem_singleton.mp hx]
      exact hw
  · rcases le_total hull.2 w.2 with hle | hle
    · exact ⟨w,List.mem_concat_self,(max_eq_right hle).symm⟩
    · exact ⟨u,List.mem_append_left _ hu,hstop.trans (max_eq_left hle).symm⟩
  · rintro t ⟨x,hx,rfl⟩
    rcases List.mem_append.mp hx with hx | hx
    · exact (h.le_stop hx).trans (le_max_left _ _)
    · rw [List.mem_singleton.mp hx]
      exact le_max_right _ _

/-- One step of the sweep: an interval in reach of the hull of a connected group joins it. -/
theorem connected_concat (h : IsHull hull group) (hgroup : Connected (Near reach) group)
    (hself : ∀ a, a ≤ reach a) (hw : w.1 ≤ w.2) (hbefore : ∀ v ∈ group, v.1 ≤ w.1)
    (hreach : w.1 ≤ reach hull.2) : Connected (Near reach) (group ++ [w]) := by
  obtain ⟨v,hv,hstop⟩ := h.stop.1
  have hnear : Near reach v w :=
    ⟨(hbefore v hv).trans (hw.trans (hself w.2)),hreach.trans (le_of_eq (congrArg reach hstop.symm))⟩
  exact hgroup.concat hv hnear hnear.symm

/-- The sweep from the hull of a connected group makes hulls of connected groups. -/
theorem exists_groups_joinFrom (hself : ∀ a, a ≤ reach a) (hull : α × α) (group ws : List (α × α))
    (hhull : IsHull hull group) (hgroup : Connected (Near reach) group) (hne : group ≠ [])
    (hs : StartSorted (group ++ ws)) (hn : ∀ w ∈ ws, w.1 ≤ w.2) :
    ∃ groups : List (List (α × α)), groups.flatten = group ++ ws ∧ (∀ g ∈ groups, g ≠ []) ∧
      (∀ g ∈ groups, Connected (Near reach) g) ∧
      List.Forall₂ IsHull
        (joinFrom (fun a b : α × α => b.1 ≤ reach a.2) Intervals.extend hull ws) groups := by
  induction ws generalizing hull group with
  | nil =>
    refine ⟨[group],by simp,by simpa using hne,by simpa using hgroup,?_⟩
    exact List.Forall₂.cons hhull List.Forall₂.nil
  | cons w ws ih =>
    have hrest : ∀ v ∈ ws, v.1 ≤ v.2 := fun v hv => hn v (List.mem_cons_of_mem w hv)
    have hbefore : ∀ v ∈ group, v.1 ≤ w.1 := fun v hv =>
      (List.pairwise_append.mp hs).2.2 v hv w List.mem_cons_self
    rw [joinFrom]
    split
    · rename_i hreach
      obtain ⟨v,hv,hstart⟩ := hhull.start.1
      have hle : hull.1 ≤ w.1 := hstart.symm.le.trans (hbefore v hv)
      have hconnected := connected_concat hhull hgroup hself (hn w List.mem_cons_self) hbefore hreach
      have hsorted : StartSorted ((group ++ [w]) ++ ws) := by
        rw [List.append_assoc]
        exact hs
      obtain ⟨groups,hflatten,hgroups⟩ :=
        ih _ (group ++ [w]) (hhull.extend hle) hconnected (by simp) hsorted hrest
      rw [List.append_assoc] at hflatten
      exact ⟨groups,hflatten,hgroups⟩
    · have hsingle : Connected (Near reach) [w] := by
        intro a ha b hb
        rw [List.mem_singleton.mp ha,List.mem_singleton.mp hb]
      obtain ⟨groups,hflatten,hnonempty,hgroups,hhulls⟩ :=
        ih w [w] (isHull_singleton w) hsingle (by simp) (List.pairwise_append.mp hs).2.1 hrest
      refine ⟨group::groups,?_,?_,?_,List.Forall₂.cons hhull hhulls⟩
      · rw [List.flatten_cons,hflatten,List.singleton_append]
      · exact List.forall_mem_cons.mpr ⟨hne,hnonempty⟩
      · exact List.forall_mem_cons.mpr ⟨hgroup,hgroups⟩

end Hulls

section Related
variable {β γ : Type*} {R : β → γ → Prop} {xs : List β} {ys : List γ}

theorem exists_left_of_forall₂ (h : List.Forall₂ R xs ys) {y : γ} (hy : y ∈ ys) :
    ∃ x ∈ xs, R x y := by
  induction h with
  | nil => cases hy
  | @cons a b xs ys hab hrest ih =>
    rcases List.mem_cons.mp hy with rfl | hy
    · exact ⟨a,List.mem_cons_self,hab⟩
    · obtain ⟨x,hx,hxy⟩ := ih hy
      exact ⟨x,List.mem_cons_of_mem a hx,hxy⟩

/-- What holds pairwise of one list holds pairwise of a related one, if the relation carries it. -/
theorem pairwise_of_forall₂ {S : β → β → Prop} {S' : γ → γ → Prop} (h : List.Forall₂ R xs ys)
    (hxs : xs.Pairwise S) (hstep : ∀ a b c d, R a c → R b d → S a b → S' c d) : ys.Pairwise S' := by
  induction h with
  | nil => exact List.Pairwise.nil
  | @cons a b xs ys hab hrest ih =>
    obtain ⟨ha,hxs⟩ := List.pairwise_cons.mp hxs
    refine List.pairwise_cons.mpr ⟨?_,ih hxs⟩
    intro y hy
    obtain ⟨x,hx,hxy⟩ := exists_left_of_forall₂ hrest hy
    exact hstep a x b y hab hxy (ha x hx)

end Related

/-- Coalescing a sorted list gives the hulls of its components. -/
theorem coalesce_components {reach : α → α} (hself : ∀ a, a ≤ reach a) (hmono : Monotone reach)
    {ws : List (α × α)} (hs : StartSorted ws) (hn : ∀ w ∈ ws, w.1 ≤ w.2) :
    ∃ groups, Components (Near reach) (Far reach) ws groups ∧
      List.Forall₂ IsHull (coalesce reach ws) groups := by
  have hspaced := @coalesce_spaced α _ reach _ hs
  cases ws with
  | nil =>
    exact ⟨[],⟨List.Perm.refl _,by simp,List.Pairwise.nil,by simp⟩,List.Forall₂.nil⟩
  | cons w ws =>
    have hsingle : Connected (Near reach) [w] := by
      intro a ha b hb
      rw [List.mem_singleton.mp ha,List.mem_singleton.mp hb]
    obtain ⟨groups,hflatten,hnonempty,hconnected,hhulls⟩ := exists_groups_joinFrom hself w [w] ws
      (isHull_singleton w) hsingle (by simp) hs (fun v hv => hn v (List.mem_cons_of_mem w hv))
    refine ⟨groups,⟨hflatten ▸ List.Perm.refl _,hnonempty,?_,hconnected⟩,hhulls⟩
    refine pairwise_of_forall₂ hhulls hspaced ?_
    intro a b c d hac hbd hab x hx y hy
    exact ((hmono (hac.le_stop hx)).trans_lt hab).trans_le (hbd.start_le hy)

end Intervals
