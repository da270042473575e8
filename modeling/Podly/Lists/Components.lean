import Mathlib.Data.List.Chain
import Mathlib.Data.List.Perm.Basic
import Mathlib.Data.List.SplitBy
import Mathlib.Logic.Relation

/-! The components of a list: groups that are connected in themselves and far from each other. There
is only one way to divide a list into them. -/
namespace Connectivity
variable {α : Type*} (near far : α → α → Prop)

/-- Two entries of a group that are near each other. -/
def Linked (group : List α) (x y : α) : Prop := near x y ∧ x ∈ group ∧ y ∈ group

/-- Every two entries of the group are connected by near ones in it. -/
def Connected (group : List α) : Prop :=
  ∀ x ∈ group, ∀ y ∈ group, Relation.ReflTransGen (Linked near group) x y

/-- The groups divide the list into connected ones, every one far from those behind it. -/
structure Components (xs : List α) (groups : List (List α)) : Prop where
  perm : groups.flatten.Perm xs
  nonempty : ∀ group ∈ groups, group ≠ []
  apart : groups.Pairwise (fun g h => ∀ x ∈ g, ∀ y ∈ h, far x y)
  connected : ∀ group ∈ groups, Connected near group

variable {near far}

theorem Linked.mono {group larger : List α} {x y : α} (h : Linked near group x y)
    (hsub : ∀ a ∈ group, a ∈ larger) : Linked near larger x y :=
  ⟨h.1,hsub x h.2.1,hsub y h.2.2⟩

/-- Entries one near the other form a connected group. -/
theorem connected_of_isChain (hsymm : ∀ x y, near x y → near y x) {group : List α}
    (hchain : group.IsChain near) : Connected near group := by
  have hfirst : ∀ first ∈ group.head?, ∀ y ∈ group,
      Relation.ReflTransGen (Linked near group) first y := by
    induction group with
    | nil => exact nofun
    | cons a group ih =>
      intro first hfirst y hy
      obtain rfl := Option.some.inj hfirst
      rcases List.mem_cons.mp hy with rfl | hy
      · exact Relation.ReflTransGen.refl
      · cases group with
        | nil => cases hy
        | cons b group =>
          obtain ⟨hab,hchain⟩ := List.isChain_cons_cons.mp hchain
          have hlink : Linked near (a::b::group) a b :=
            ⟨hab,List.mem_cons_self,List.mem_cons_of_mem a List.mem_cons_self⟩
          have hpath := ih hchain b rfl y hy
          refine Relation.ReflTransGen.head hlink (Relation.ReflTransGen.mono ?_ _ _ hpath)
          intro u v huv
          exact huv.mono (fun w hw => List.mem_cons_of_mem a hw)
  intro x hx y hy
  obtain ⟨first,rest,rfl⟩ := List.exists_cons_of_ne_nil (List.ne_nil_of_mem hx)
  have : Std.Symm (Linked near (first::rest)) :=
    ⟨fun u v h => ⟨hsymm u v h.1,h.2.2,h.2.1⟩⟩
  have hback := hfirst first rfl x hx
  exact (Relation.ReflTransGen.stdSymm.symm _ _ hback).trans (hfirst first rfl y hy)

/-- An entry near one of a connected group joins it. -/
theorem Connected.concat {group : List α} {w x : α} (h : Connected near group) (hw : w ∈ group)
    (hwx : near w x) (hxw : near x w) : Connected near (group ++ [x]) := by
  have hlast : x ∈ group ++ [x] := List.mem_concat_self
  have hinner : ∀ a ∈ group, ∀ b ∈ group,
      Relation.ReflTransGen (Linked near (group ++ [x])) a b := by
    intro a ha b hb
    refine Relation.ReflTransGen.mono ?_ _ _ (h a ha b hb)
    intro u v huv
    exact huv.mono (fun c hc => List.mem_append_left _ hc)
  have hw' : w ∈ group ++ [x] := List.mem_append_left _ hw
  intro a ha b hb
  rw [List.mem_append,List.mem_singleton] at ha hb
  rcases ha with ha | rfl
  · rcases hb with hb | rfl
    · exact hinner a ha b hb
    · exact (hinner a ha w hw).tail ⟨hwx,hw',hlast⟩
  · rcases hb with hb | rfl
    · exact Relation.ReflTransGen.head ⟨hxw,hlast,hw'⟩ (hinner w hw b hb)
    · exact Relation.ReflTransGen.refl

section Unique
variable {xs : List α} {groups others : List (List α)} {group other : List α}

/-- A path in the list stays in the group where it begins. -/
theorem Components.mem_of_path (h : Components near far xs (group::groups))
    (hfar : ∀ x y, far x y → ¬near x y) {x y : α} (hx : x ∈ group)
    (hpath : Relation.ReflTransGen (Linked near xs) x y) : y ∈ group := by
  induction hpath with
  | refl => exact hx
  | @tail y z _ hlink ih =>
    have hz : z ∈ (group::groups).flatten := h.perm.mem_iff.mpr hlink.2.2
    rw [List.flatten_cons,List.mem_append] at hz
    rcases hz with hz | hz
    · exact hz
    · obtain ⟨later,hlater,hz⟩ := List.mem_flatten.mp hz
      exact absurd hlink.1 (hfar y z ((List.pairwise_cons.mp h.apart).1 later hlater y ih z hz))

/-- The first groups of two divisions share an entry. -/
theorem Components.exists_common (hgroups : Components near far xs (group::groups))
    (hothers : Components near far xs (other::others)) (hasymm : ∀ x y, far x y → ¬far y x) :
    ∃ x ∈ group, x ∈ other := by
  obtain ⟨x,hx⟩ := List.exists_mem_of_ne_nil _ (hgroups.nonempty group List.mem_cons_self)
  obtain ⟨y,hy⟩ := List.exists_mem_of_ne_nil _ (hothers.nonempty other List.mem_cons_self)
  have hx' : x ∈ (other::others).flatten :=
    hothers.perm.mem_iff.mpr (hgroups.perm.mem_iff.mp (List.mem_append_left _ hx))
  have hy' : y ∈ (group::groups).flatten :=
    hgroups.perm.mem_iff.mpr (hothers.perm.mem_iff.mp (List.mem_append_left _ hy))
  rw [List.flatten_cons,List.mem_append] at hx' hy'
  rcases hx' with hx' | hx'
  · exact ⟨x,hx,hx'⟩
  rcases hy' with hy' | hy'
  · exact ⟨y,hy',hy⟩
  -- otherwise each of the two comes before the other
  obtain ⟨later,hlater,hx'⟩ := List.mem_flatten.mp hx'
  obtain ⟨later',hlater',hy'⟩ := List.mem_flatten.mp hy'
  have hyx := (List.pairwise_cons.mp hothers.apart).1 later hlater y hy x hx'
  have hxy := (List.pairwise_cons.mp hgroups.apart).1 later' hlater' x hx y hy'
  exact absurd hyx (hasymm x y hxy)

theorem Components.first_subset (hgroups : Components near far xs (group::groups))
    (hothers : Components near far xs (other::others)) (hfar : ∀ x y, far x y → ¬near x y)
    (hasymm : ∀ x y, far x y → ¬far y x) : ∀ x ∈ group, x ∈ other := by
  intro x hx
  obtain ⟨y,hy,hy'⟩ := hgroups.exists_common hothers hasymm
  refine hothers.mem_of_path hfar hy' ?_
  refine Relation.ReflTransGen.mono ?_ _ _ (hgroups.connected group List.mem_cons_self y hy x hx)
  intro u v huv
  exact huv.mono (fun w hw => hgroups.perm.mem_iff.mp (List.mem_append_left _ hw))

theorem Components.count_first [DecidableEq α] (h : Components near far xs (group::groups))
    (hfar : ∀ x y, far x y → ¬near x y) (hrefl : ∀ x ∈ xs, near x x) {x : α} (hx : x ∈ group) :
    group.count x = xs.count x := by
  have hnot : x ∉ groups.flatten := by
    intro hmem
    obtain ⟨later,hlater,hmem⟩ := List.mem_flatten.mp hmem
    have hself := (List.pairwise_cons.mp h.apart).1 later hlater x hx x hmem
    exact hfar x x hself (hrefl x (h.perm.mem_iff.mp (List.mem_append_left _ hx)))
  rw [← h.perm.count_eq,List.flatten_cons,List.count_append,List.count_eq_zero_of_not_mem hnot,
    Nat.add_zero]

/-- The first groups of two divisions are the same, but for the order in them. -/
theorem Components.first_perm (hgroups : Components near far xs (group::groups))
    (hothers : Components near far xs (other::others)) (hfar : ∀ x y, far x y → ¬near x y)
    (hasymm : ∀ x y, far x y → ¬far y x) (hrefl : ∀ x ∈ xs, near x x) : group.Perm other := by
  classical
  rw [List.perm_iff_count]
  intro x
  have hsub := hgroups.first_subset hothers hfar hasymm x
  have hsub' := hothers.first_subset hgroups hfar hasymm x
  by_cases hx : x ∈ group
  · rw [hgroups.count_first hfar hrefl hx,hothers.count_first hfar hrefl (hsub hx)]
  · rw [List.count_eq_zero_of_not_mem hx,List.count_eq_zero_of_not_mem (fun h => hx (hsub' h))]

theorem Components.tail (h : Components near far xs (group::groups)) :
    Components near far groups.flatten groups :=
  ⟨.refl _,fun g hg => h.nonempty g (List.mem_cons_of_mem group hg),
    (List.pairwise_cons.mp h.apart).2,fun g hg => h.connected g (List.mem_cons_of_mem group hg)⟩

theorem Components.congr {ys : List α} (h : Components near far xs groups) (hperm : xs.Perm ys) :
    Components near far ys groups :=
  ⟨h.perm.trans hperm,h.nonempty,h.apart,h.connected⟩

/-- Two divisions of a list into components are the same, but for the order in each group. -/
theorem Components.unique (hgroups : Components near far xs groups)
    (hothers : Components near far xs others) (hfar : ∀ x y, far x y → ¬near x y)
    (hasymm : ∀ x y, far x y → ¬far y x) (hrefl : ∀ x ∈ xs, near x x) :
    List.Forall₂ List.Perm groups others := by
  induction groups generalizing others xs with
  | nil =>
    have hnil : xs = [] := hgroups.perm.symm.eq_nil
    cases others with
    | nil => exact List.Forall₂.nil
    | cons other others =>
      have := hothers.perm.length_eq
      rw [hnil,List.flatten_cons,List.length_append,List.length_nil] at this
      exact absurd (List.eq_nil_of_length_eq_zero (by omega))
        (hothers.nonempty other List.mem_cons_self)
  | cons group groups ih =>
    cases others with
    | nil =>
      have := hgroups.perm.trans hothers.perm.symm
      have := this.length_eq
      rw [List.flatten_nil,List.flatten_cons,List.length_append,List.length_nil] at this
      exact absurd (List.eq_nil_of_length_eq_zero (by omega))
        (hgroups.nonempty group List.mem_cons_self)
    | cons other others =>
      have hfirst := hgroups.first_perm hothers hfar hasymm hrefl
      have hrest : others.flatten.Perm groups.flatten := by
        have h := hothers.perm.trans hgroups.perm.symm
        rw [List.flatten_cons,List.flatten_cons] at h
        exact (List.perm_append_left_iff group).mp ((hfirst.append_right _).trans h)
      refine List.Forall₂.cons hfirst (ih hgroups.tail (hothers.tail.congr hrest) ?_)
      intro x hx
      exact hrefl x (hgroups.perm.mem_iff.mp (List.mem_append_right group hx))

end Unique

section Split
variable {r : α → α → Bool} {xs : List α} {groups : List (List α)}

/-- What every cut puts between the entries before and behind it holds between the groups. -/
theorem pairwise_of_cuts (hnonempty : ∀ group ∈ groups, group ≠ [])
    (hcuts : groups.IsChain (fun g h => ∃ hg hh, r (g.getLast hg) (h.head hh) = false))
    (hfar : ∀ before a b after, groups.flatten = before ++ a::b::after → r a b = false →
      ∀ x ∈ before ++ [a], ∀ y ∈ b::after, far x y) :
    groups.Pairwise (fun g h => ∀ x ∈ g, ∀ y ∈ h, far x y) := by
  induction groups with
  | nil => exact List.Pairwise.nil
  | cons g groups ih =>
    have hg := hnonempty g List.mem_cons_self
    refine List.pairwise_cons.mpr ⟨?_,?_⟩
    · intro h hmem x hx y hy
      cases groups with
      | nil => cases hmem
      | cons next groups =>
        obtain ⟨_,hnext,hcut⟩ := (List.isChain_cons_cons.mp hcuts).1
        have hflat : (g::next::groups).flatten =
            g.dropLast ++ g.getLast hg::next.head hnext::(next.tail ++ groups.flatten) := by
          rw [List.flatten_cons,List.flatten_cons,← List.cons_append,List.cons_head_tail]
          conv_lhs => rw [← List.dropLast_concat_getLast hg]
          rw [List.append_assoc]
          rfl
        refine hfar _ _ _ _ hflat hcut x ?_ y ?_
        · rwa [List.dropLast_concat_getLast]
        · rw [← List.cons_append,List.cons_head_tail,← List.flatten_cons]
          exact List.mem_flatten_of_mem hmem hy
    · refine ih (fun h hh => hnonempty h (List.mem_cons_of_mem g hh)) hcuts.of_cons ?_
      intro before a b after hflat hcut x hx
      refine hfar (g ++ before) a b after ?_ hcut x ?_
      · rw [List.flatten_cons,hflat,List.append_assoc]
      · rw [List.append_assoc]
        exact List.mem_append_right g hx

/-- A list that is split where neighbours are not near is divided into components, where every cut
is one between all entries before and behind it. -/
theorem components_splitBy (hsymm : ∀ x y, near x y → near y x)
    (hnear : ∀ group ∈ xs.splitBy r, group.IsChain (fun a b => r a b) → group.IsChain near)
    (hfar : ∀ before a b after, xs = before ++ a::b::after → r a b = false →
      ∀ x ∈ before ++ [a], ∀ y ∈ b::after, far x y) :
    Components near far xs (xs.splitBy r) where
  perm := by rw [List.flatten_splitBy]
  nonempty _ h := List.ne_nil_of_mem_splitBy h
  apart := by
    apply pairwise_of_cuts (fun _ h => List.ne_nil_of_mem_splitBy h)
      (List.isChain_getLast_head_splitBy r xs)
    rwa [List.flatten_splitBy]
  connected group h :=
    connected_of_isChain hsymm (hnear group h (List.isChain_of_mem_splitBy h))

end Split

end Connectivity
