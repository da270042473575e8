import Podly.Classifier.Identify
import Podly.Lists.Components

/-! When the blocks of ads are the connected groups of the marks. -/
namespace Podly.Classifier
open Intervals Connectivity

/-- The pause between two marks is at most ten seconds. -/
def Near (a b : AdRow) : Prop :=
  b.segment.startTime - Block.stopOf a.segment ≤ 10 ∧
    a.segment.startTime - Block.stopOf b.segment ≤ 10

/-- The second mark begins more than ten seconds after the end of the first one. -/
def Far (a b : AdRow) : Prop :=
  a.segment.startTime < b.segment.startTime ∧
    10 < b.segment.startTime - Block.stopOf a.segment

/-- The blocks divide the marks, lie more than ten seconds apart, and are connected in themselves. -/
structure ConnectedBlocks (ads : List AdRow) (blocks : List Block) : Prop where
  partition : (blocks.flatMap Block.rows).Perm ads
  separated : blocks.Pairwise (fun a b => 10 < b.start - a.stop)
  connected : ∀ block ∈ blocks, Connected Near block.rows

/-- The same block, but for the order of its marks. -/
structure SameBlock (a b : Block) : Prop where
  rows : a.rows.Perm b.rows
  start : a.start = b.start
  stop : a.stop = b.stop
  confidence : a.confidence = b.confidence

/-- The blocks of a list of marks are its connected groups, in whichever order the marks come. -/
def GroupsConnected (ads : List AdRow) : Prop :=
  ConnectedBlocks ads (groupIntoBlocks ads) ∧
    ∀ ads' : List AdRow, ads'.Perm ads →
      List.Forall₂ SameBlock (groupIntoBlocks ads') (groupIntoBlocks ads)

/-- Where a mark ends more than ten seconds before the next start, so do all marks that start before
that. -/
def CutsPastAll (ads : List AdRow) : Prop :=
  ∀ x ∈ ads, ∀ y ∈ ads, y.segment.startTime < x.segment.startTime →
    (∀ w ∈ ads, ¬(y.segment.startTime < w.segment.startTime ∧
      w.segment.startTime < x.segment.startTime)) →
    10 < x.segment.startTime - Block.stopOf y.segment →
      ∀ z ∈ ads, z.segment.startTime < x.segment.startTime →
        10 < x.segment.startTime - Block.stopOf z.segment

instance (ads : List AdRow) : Decidable (CutsPastAll ads) := by
  unfold CutsPastAll
  infer_instance

section Bounds
variable {α : Type*} [LinearOrder α]

/-- A minimum that is taken along a list is at one of its entries, and below all. -/
theorem foldl_min_spec (a : α) (xs : List α) :
    xs.foldl min a ∈ a::xs ∧ ∀ x ∈ a::xs, xs.foldl min a ≤ x := by
  induction xs generalizing a with
  | nil => exact ⟨List.mem_cons_self,by simp⟩
  | cons b xs ih =>
    obtain ⟨hmem,hle⟩ := ih (min a b)
    obtain ⟨hfirst,hrest⟩ := List.forall_mem_cons.mp hle
    rw [List.foldl_cons]
    constructor
    · rcases List.mem_cons.mp hmem with h | h
      · rcases min_choice a b with hmin | hmin
        · rw [h,hmin]
          exact List.mem_cons_self
        · rw [h,hmin]
          exact List.mem_cons_of_mem a List.mem_cons_self
      · exact List.mem_cons_of_mem a (List.mem_cons_of_mem b h)
    · refine List.forall_mem_cons.mpr ⟨hfirst.trans (min_le_left a b),?_⟩
      exact List.forall_mem_cons.mpr ⟨hfirst.trans (min_le_right a b),hrest⟩

theorem foldl_max_spec (a : α) (xs : List α) :
    xs.foldl max a ∈ a::xs ∧ ∀ x ∈ a::xs, x ≤ xs.foldl max a :=
  foldl_min_spec (α := αᵒᵈ) a xs

end Bounds

namespace Block
variable {a b : Block}

theorem start_spec (block : Block) : (∃ row ∈ block.rows, block.start = row.segment.startTime) ∧
    ∀ row ∈ block.rows, block.start ≤ row.segment.startTime := by
  obtain ⟨hmem,hle⟩ := foldl_min_spec block.first.segment.startTime
    (block.rest.map (fun row => row.segment.startTime))
  rw [← List.map_cons (f := fun row : AdRow => row.segment.startTime)] at hmem hle
  obtain ⟨row,hrow,hstart⟩ := List.mem_map.mp hmem
  refine ⟨⟨row,hrow,hstart.symm⟩,?_⟩
  intro row hrow
  exact hle _ (List.mem_map_of_mem hrow)

theorem stop_spec (block : Block) : (∃ row ∈ block.rows, block.stop = stopOf row.segment) ∧
    ∀ row ∈ block.rows, stopOf row.segment ≤ block.stop := by
  obtain ⟨hmem,hle⟩ := foldl_max_spec (stopOf block.first.segment)
    (block.rest.map (fun row => stopOf row.segment))
  rw [← List.map_cons (f := fun row : AdRow => stopOf row.segment)] at hmem hle
  obtain ⟨row,hrow,hstop⟩ := List.mem_map.mp hmem
  refine ⟨⟨row,hrow,hstop.symm⟩,?_⟩
  intro row hrow
  exact hle _ (List.mem_map_of_mem hrow)

/-- What a block computes does not depend on the order of its marks. -/
theorem same_of_perm (h : a.rows.Perm b.rows) : SameBlock a b := by
  have hstart : ∀ a b : Block, a.rows.Perm b.rows → a.start ≤ b.start := by
    intro a b h
    obtain ⟨⟨row,hrow,hstart⟩,-⟩ := b.start_spec
    rw [hstart]
    exact a.start_spec.2 row (h.mem_iff.mpr hrow)
  have hstop : ∀ a b : Block, a.rows.Perm b.rows → a.stop ≤ b.stop := by
    intro a b h
    obtain ⟨⟨row,hrow,hstop⟩,-⟩ := a.stop_spec
    rw [hstop]
    exact b.stop_spec.2 row (h.mem_iff.mp hrow)
  refine ⟨h,(hstart a b h).antisymm (hstart b a h.symm),
    (hstop a b h).antisymm (hstop b a h.symm),?_⟩
  rw [confidence,confidence,h.length_eq,(h.map _).sum_eq]

/-- Blocks lie apart as their marks do. -/
theorem separated_iff : 10 < b.start - a.stop ↔
    ∀ x ∈ a.rows, ∀ y ∈ b.rows, 10 < y.segment.startTime - stopOf x.segment := by
  constructor
  · intro h x hx y hy
    have hstart := b.start_spec.2 y hy
    have hstop := a.stop_spec.2 x hx
    linarith
  · intro h
    obtain ⟨⟨y,hy,hstart⟩,-⟩ := b.start_spec
    obtain ⟨⟨x,hx,hstop⟩,-⟩ := a.stop_spec
    rw [hstart,hstop]
    exact h x hx y hy

end Block

section Grouped
variable {ads ads' : List AdRow}

/-- The test that keeps a mark in the block of the one before it. -/
def follows (before ad : AdRow) : Bool :=
  ad.segment.startTime - Block.stopOf before.segment ≤ 10

theorem map_rows_createBlock {groups : List (List AdRow)} (h : ∀ group ∈ groups, group ≠ []) :
    (groups.filterMap createBlock).map Block.rows = groups := by
  induction groups with
  | nil => rfl
  | cons group groups ih =>
    obtain ⟨hgroup,hgroups⟩ := List.forall_mem_cons.mp h
    obtain ⟨first,rest,rfl⟩ := List.exists_cons_of_ne_nil hgroup
    have hblock : createBlock (first::rest) = some ⟨first,rest⟩ := rfl
    rw [List.filterMap_cons_some hblock,List.map_cons,ih hgroups]
    rfl

theorem map_rows_groupIntoBlocks (ads : List AdRow) : (groupIntoBlocks ads).map Block.rows =
    (sortByKey (fun ad => ad.segment.startTime) ads).splitBy follows :=
  map_rows_createBlock (fun _ h => List.ne_nil_of_mem_splitBy h)

/-- The blocks divide the marks. -/
theorem flatMap_rows_groupIntoBlocks (ads : List AdRow) :
    ((groupIntoBlocks ads).flatMap Block.rows).Perm ads := by
  rw [List.flatMap_def,map_rows_groupIntoBlocks,List.flatten_splitBy]
  exact sortByKey_perm _ _

theorem mem_groupIntoBlocks {ads : List AdRow} {block : Block} (h : block ∈ groupIntoBlocks ads) :
    ∀ row ∈ block.rows, row ∈ ads := fun _ hrow =>
  (flatMap_rows_groupIntoBlocks ads).mem_iff.mp (List.mem_flatMap_of_mem h hrow)

/-- Where every cut passes all earlier marks, the marks of the blocks are the components. -/
theorem components_groupIntoBlocks
    (hlasts : ∀ ad ∈ ads, ad.segment.startTime ≤ Block.stopOf ad.segment) (hcuts : CutsPastAll ads)
    (hperm : ads'.Perm ads) :
    Components Near Far ads ((groupIntoBlocks ads').map Block.rows) := by
  have hsorted := sortByKey_sorted (fun ad : AdRow => ad.segment.startTime) ads'
  have hsort := (sortByKey_perm (fun ad : AdRow => ad.segment.startTime) ads').trans hperm
  rw [map_rows_groupIntoBlocks]
  generalize sortByKey (fun ad : AdRow => ad.segment.startTime) ads' = sorted at hsorted hsort
  refine (components_splitBy (fun x y h => ⟨h.2,h.1⟩) ?_ ?_).congr hsort
  · intro group hgroup hchain
    have hsub := List.sublist_flatten_of_mem hgroup
    rw [List.flatten_splitBy] at hsub
    refine List.isChain_iff_getElem.mpr ?_
    intro i hi
    have hfollows := List.isChain_iff_getElem.mp hchain i hi
    have horder := List.pairwise_iff_getElem.mp (hsorted.sublist hsub) i (i + 1) (by omega) hi
      (Nat.lt_succ_self i)
    have hlast := hlasts group[i + 1] (hsort.mem_iff.mp (hsub.mem (List.getElem_mem hi)))
    refine ⟨of_decide_eq_true hfollows,?_⟩
    linarith
  · intro before a b after hsplit hcut x hx y hy
    have hgap : 10 < b.segment.startTime - Block.stopOf a.segment := by
      exact not_le.mp (of_decide_eq_false hcut)
    have hmem : ∀ ad ∈ before ++ a::b::after, ad ∈ ads := by
      intro ad had
      exact hsort.mem_iff.mp (hsplit ▸ had)
    have ha : a ∈ ads := hmem a (by simp)
    have hb : b ∈ ads := hmem b (by simp)
    -- the marks up to `a` start by its start, those from `b` on not before that of `b`
    rw [hsplit,List.append_cons] at hsorted
    obtain ⟨hbefore,hafter,hacross⟩ := List.pairwise_append.mp hsorted
    have hupto : ∀ ad ∈ before ++ [a], ad.segment.startTime ≤ a.segment.startTime := by
      intro ad had
      rcases List.mem_append.mp had with had | had
      · exact (List.pairwise_append.mp hbefore).2.2 ad had a List.mem_cons_self
      · rw [List.mem_singleton.mp had]
    have hfrom : ∀ ad ∈ b::after, b.segment.startTime ≤ ad.segment.startTime := by
      refine List.forall_mem_cons.mpr ⟨le_rfl,?_⟩
      exact (List.pairwise_cons.mp hafter).1
    have hlast := hlasts a ha
    have hlt : a.segment.startTime < b.segment.startTime := by linarith
    have hnone : ∀ w ∈ ads, ¬(a.segment.startTime < w.segment.startTime ∧
        w.segment.startTime < b.segment.startTime) := by
      rintro w hw ⟨haw,hwb⟩
      have hw := hsort.mem_iff.mpr hw
      rw [hsplit,List.append_cons,List.mem_append] at hw
      rcases hw with hw | hw
      · exact (hupto w hw).not_gt haw
      · exact (hfrom w hw).not_gt hwb
    have hx' : x ∈ ads := hmem x (by
      rw [List.append_cons]
      exact List.mem_append_left _ hx)
    have hpast := hcuts b hb a ha hlt hnone hgap x hx' ((hupto x hx).trans_lt hlt)
    have hy' := hfrom y hy
    exact ⟨by linarith [hupto x hx],by linarith⟩

theorem not_near_of_far {a b : AdRow} (h : Far a b) : ¬Near a b :=
  fun hnear => hnear.1.not_gt h.2

theorem connectedBlocks_of_cutsPastAll
    (hlasts : ∀ ad ∈ ads, ad.segment.startTime ≤ Block.stopOf ad.segment)
    (hcuts : CutsPastAll ads) : ConnectedBlocks ads (groupIntoBlocks ads) := by
  have h := components_groupIntoBlocks hlasts hcuts (List.Perm.refl ads)
  refine ⟨?_,?_,?_⟩
  · rw [List.flatMap_def]
    exact h.perm
  · refine (List.pairwise_map.mp h.apart).imp ?_
    intro a b hfar
    exact Block.separated_iff.mpr (fun x hx y hy => (hfar x hx y hy).2)
  · intro block hblock
    exact h.connected block.rows (List.mem_map_of_mem hblock)

/-- Components are unique, so that the order of the marks makes no difference. -/
theorem same_groupIntoBlocks
    (hlasts : ∀ ad ∈ ads, ad.segment.startTime ≤ Block.stopOf ad.segment)
    (hcuts : CutsPastAll ads) (hperm : ads'.Perm ads) :
    List.Forall₂ SameBlock (groupIntoBlocks ads') (groupIntoBlocks ads) := by
  have h := (components_groupIntoBlocks hlasts hcuts hperm).unique
    (components_groupIntoBlocks hlasts hcuts (List.Perm.refl ads))
    (fun _ _ => not_near_of_far) (fun _ _ hab hba => hab.1.asymm hba.1) (by
      intro ad had
      have := hlasts ad had
      exact ⟨by linarith,by linarith⟩)
  rw [List.forall₂_map_left_iff,List.forall₂_map_right_iff] at h
  exact h.imp (fun _ _ => Block.same_of_perm)

/-- At a cut behind a mark the marks up to it and those behind it are blocks of their own. -/
theorem groupIntoBlocks_append {before after : List AdRow} {a b : AdRow}
    (hsorted : (before ++ a::b::after).Pairwise
      (fun a b => a.segment.startTime ≤ b.segment.startTime))
    (hcut : 10 < b.segment.startTime - Block.stopOf a.segment) :
    groupIntoBlocks (before ++ a::b::after) =
      groupIntoBlocks (before ++ [a]) ++ groupIntoBlocks (b::after) := by
  have hsplit := hsorted
  rw [List.append_cons,List.pairwise_append] at hsplit
  have hsame : ∀ ads : List AdRow, ads.Pairwise
      (fun a b => a.segment.startTime ≤ b.segment.startTime) →
        sortByKey (fun ad => ad.segment.startTime) ads = ads := fun _ h => sortByKey_of_sorted h
  have hbefore := hsame _ hsplit.1
  have hafter := hsame _ hsplit.2.1
  have hall := hsame _ hsorted
  rw [groupIntoBlocks,groupIntoBlocks,groupIntoBlocks,hall,hbefore,hafter,List.append_cons,
    List.splitBy_append_cons,List.filterMap_append]
  intro last hlast
  rw [List.getLast?_concat] at hlast
  obtain rfl := Option.some.inj hlast
  exact decide_eq_false (not_le.mpr hcut)

theorem exists_block_of_mem {ad : AdRow} (h : ad ∈ ads) :
    ∃ block ∈ groupIntoBlocks ads, ad ∈ block.rows :=
  List.mem_flatMap.mp ((flatMap_rows_groupIntoBlocks ads).mem_iff.mpr h)

theorem separated_of_same {blocks blocks' : List Block} (h : List.Forall₂ SameBlock blocks' blocks)
    (hseparated : blocks.Pairwise (fun a b => 10 < b.start - a.stop)) :
    blocks'.Pairwise (fun a b => 10 < b.start - a.stop) := by
  have hbounds : blocks'.map (fun b => (b.start,b.stop)) = blocks.map (fun b => (b.start,b.stop)) := by
    rw [← List.forall₂_eq_eq_eq,List.forall₂_map_left_iff,List.forall₂_map_right_iff]
    exact h.imp (fun _ _ hab => Prod.ext hab.start hab.stop)
  have hpairwise : (blocks.map (fun b => (b.start,b.stop))).Pairwise
      (fun a b => 10 < b.1 - a.2) := List.pairwise_map.mpr hseparated
  rw [← hbounds] at hpairwise
  exact List.pairwise_map.mp hpairwise

/-- Between neighbouring starts the marks can be ordered with a given one as the last before the cut. -/
theorem exists_sorted_behind {x y : AdRow} (hx : x ∈ ads) (hy : y ∈ ads)
    (hyx : y.segment.startTime < x.segment.startTime)
    (hnone : ∀ w ∈ ads, ¬(y.segment.startTime < w.segment.startTime ∧
      w.segment.startTime < x.segment.startTime)) :
    ∃ before b after, (before ++ y::b::after).Perm ads ∧
      (before ++ y::b::after).Pairwise (fun a b => a.segment.startTime ≤ b.segment.startTime) ∧
        b.segment.startTime = x.segment.startTime := by
  obtain ⟨l₁,l₂,rfl⟩ := List.append_of_mem hy
  have hperm := sortByKey_perm (fun ad : AdRow => ad.segment.startTime) (l₁ ++ l₂)
  have hsorted := sortByKey_sorted (fun ad : AdRow => ad.segment.startTime) (l₁ ++ l₂)
  generalize sortByKey (fun ad : AdRow => ad.segment.startTime) (l₁ ++ l₂) = sorted
    at hperm hsorted
  -- the marks that start by `y`, and those that start later
  let early : AdRow → Bool := fun ad => ad.segment.startTime ≤ y.segment.startTime
  have hlate : ∀ ad ∈ sorted.filter (fun ad => !early ad),
      y.segment.startTime < ad.segment.startTime := by
    intro ad had
    simpa [early] using (List.mem_filter.mp had).2
  have hx' : x ∈ sorted.filter (fun ad => !early ad) := by
    refine List.mem_filter.mpr ⟨hperm.mem_iff.mpr ?_,by simpa [early] using hyx⟩
    have hne : x ≠ y := fun heq => hyx.ne (heq ▸ rfl)
    simpa [hne] using hx
  have hpermAll : (sorted.filter early ++ y::sorted.filter (fun ad => !early ad)).Perm
      (l₁ ++ y::l₂) := by
    refine List.perm_middle.trans (List.Perm.trans ?_ List.perm_middle.symm)
    exact ((List.filter_append_perm early sorted).trans hperm).cons y
  have hall : (sorted.filter early ++ y::sorted.filter (fun ad => !early ad)).Pairwise
      (fun a b => a.segment.startTime ≤ b.segment.startTime) := by
    refine List.pairwise_append.mpr ⟨hsorted.sublist List.filter_sublist,?_,?_⟩
    · exact List.pairwise_cons.mpr ⟨fun ad had => (hlate ad had).le,
        hsorted.sublist List.filter_sublist⟩
    · intro ad had ad' had'
      have hle : ad.segment.startTime ≤ y.segment.startTime := by
        simpa [early] using (List.mem_filter.mp had).2
      rcases List.mem_cons.mp had' with rfl | had'
      · exact hle
      · exact hle.trans (hlate ad' had').le
  obtain ⟨b,after,hrest⟩ := List.exists_cons_of_ne_nil (List.ne_nil_of_mem hx')
  rw [hrest] at hlate hx' hpermAll hall
  refine ⟨_,b,after,hpermAll,hall,le_antisymm ?_ ?_⟩
  · -- the first of those that start later starts with `x`
    have hsortedRest := (List.pairwise_cons.mp (List.pairwise_append.mp hall).2.1).2
    rcases List.mem_cons.mp hx' with rfl | hx'
    · exact le_rfl
    · exact (List.pairwise_cons.mp hsortedRest).1 x hx'
  · have hb : b ∈ l₁ ++ y::l₂ := hpermAll.mem_iff.mp (by simp)
    exact not_lt.mp fun hlt => hnone b hb ⟨hlate b List.mem_cons_self,hlt⟩

/-- Where the blocks are the connected groups in every order of the marks, every cut passes all
earlier marks: with `y` as the last of the marks that start with it, the list is cut behind it. -/
theorem cutsPastAll_of_groupsConnected (h : GroupsConnected ads) : CutsPastAll ads := by
  intro x hx y hy hyx hnone hcut z hz hzx
  obtain ⟨before,b,after,hperm,hsorted,hstart⟩ := exists_sorted_behind hx hy hyx hnone
  have hz' : z ∈ before ++ [y] := by
    have hz' := hperm.mem_iff.mpr hz
    rw [List.append_cons,List.mem_append] at hz'
    refine hz'.resolve_right fun hbehind => ?_
    have hafter := (List.pairwise_cons.mp (List.pairwise_append.mp hsorted).2.1).2
    rcases List.mem_cons.mp hbehind with rfl | hbehind
    · linarith
    · have := (List.pairwise_cons.mp hafter).1 z hbehind
      linarith
  have hseparated := separated_of_same (h.2 _ hperm) h.1.separated
  rw [groupIntoBlocks_append hsorted (hstart ▸ hcut),List.pairwise_append] at hseparated
  obtain ⟨blockZ,hblockZ,hzrow⟩ := exists_block_of_mem hz'
  obtain ⟨blockB,hblockB,hbrow⟩ := exists_block_of_mem (List.mem_cons_self (a := b) (l := after))
  have hapart := hseparated.2.2 blockZ hblockZ blockB hblockB
  rw [← hstart]
  exact Block.separated_iff.mp hapart z hzrow b hbrow

end Grouped

/-- The blocks of marks are their connected groups exactly when every cut passes all earlier marks. -/
theorem groupsConnected_iff {ads : List AdRow}
    (hlasts : ∀ ad ∈ ads, ad.segment.startTime ≤ Block.stopOf ad.segment) :
    GroupsConnected ads ↔ CutsPastAll ads :=
  ⟨cutsPastAll_of_groupsConnected,fun hcuts =>
    ⟨connectedBlocks_of_cutsPastAll hlasts hcuts,fun _ => same_groupIntoBlocks hlasts hcuts⟩⟩

/-- A mark on a segment of the given times. -/
def markAt (id : ℕ) (startTime endTime : ℚ) : AdRow :=
  ⟨⟨id,id,1,9/10⟩,⟨id,id,startTime,some endTime,"",none⟩⟩

theorem groupsConnected_iff_nested :
    GroupsConnected [markAt 0 0 20,markAt 1 5 18,markAt 2 25 30,markAt 3 60 70] ↔
      CutsPastAll [markAt 0 0 20,markAt 1 5 18,markAt 2 25 30,markAt 3 60 70] :=
  groupsConnected_iff (by decide +kernel)

/-- A short mark inside a long one cuts the block, though the long one reaches past the next. -/
theorem not_groupsConnected_inside :
    ¬GroupsConnected [markAt 0 0 100,markAt 1 1 2,markAt 2 50 60] := by
  intro h
  exact absurd (cutsPastAll_of_groupsConnected h) (by decide +kernel)

end Podly.Classifier
