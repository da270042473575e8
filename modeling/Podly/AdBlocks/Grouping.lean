import Mathlib.Data.List.SplitBy
import Mathlib.Tactic.Linarith
import Podly.AdBlocks.Groups

/-! Which time a group of ad segments spans, and how far the groups lie apart. -/
namespace Podly.AdBlocks
open Intervals

/-- The test that keeps a segment in the group of the one before it. -/
def isNear (maxGap : ℚ) (last segment : TranscriptSegment) : Bool :=
  segment.startTime - last.endTime ≤ maxGap

/-- The group spans its segments. -/
def AdGroup.Spans (g : AdGroup) : Prop :=
  ∀ s ∈ g.segments, g.startTime ≤ s.startTime ∧ s.endTime ≤ g.endTime

/-- No time is lost when segments in order of their starts are grouped: the groups of either pass
span their segments and hold all of them in order, and a proximity group begins more than the gap
after every segment of the groups before it. -/
structure LosesNoTime (create : List TranscriptSegment → AdGroup) (maxGap minContentGap : ℚ)
    (segments : List TranscriptSegment) : Prop where
  proximitySpans : ∀ g ∈ groupByProximity create maxGap segments, g.Spans
  refinedSpans : ∀ g ∈ refineByContent minContentGap (groupByProximity create maxGap segments),
    g.Spans
  proximityHolds : (groupByProximity create maxGap segments).flatMap AdGroup.segments = segments
  refinedHolds : (refineByContent minContentGap
    (groupByProximity create maxGap segments)).flatMap AdGroup.segments = segments
  apart : (groupByProximity create maxGap segments).Pairwise
    (fun g h => ∀ s ∈ g.segments, maxGap < h.startTime - s.endTime)

/-- Where no segment follows, or the next one begins more than the gap after the end of the last
one, no earlier segment ends after that. -/
def CutsAtLatestEnd (maxGap : ℚ) (segments : List TranscriptSegment) : Prop :=
  ∀ earlier last later, segments = earlier ++ last::later →
    (∀ next ∈ later.head?, maxGap < next.startTime - last.endTime) →
    ∀ s ∈ earlier, s.endTime ≤ last.endTime

section
variable {create : List TranscriptSegment → AdGroup} {maxGap minContentGap : ℚ}
  {segments cur : List TranscriptSegment} {last segment : TranscriptSegment}

theorem isNear_eq_false : isNear maxGap last segment = false ↔
    maxGap < segment.startTime - last.endTime := by
  rw [isNear,decide_eq_false_iff_not,not_le]

/-- The loop splits the segments where two neighbours are not near. -/
theorem closeGroup_foldl (done : List AdGroup) (hcur : cur ≠ [])
    (hnear : cur.IsChain (fun a b => isNear maxGap a b)) :
    closeGroup create (segments.foldl (proximityStep create maxGap) (done,cur)) =
      done ++ ((cur ++ segments).splitBy (isNear maxGap)).map create := by
  induction segments generalizing done cur with
  | nil =>
    rw [List.foldl_nil,closeGroup,if_neg hcur,List.append_nil,
      List.splitBy_of_isChain hcur hnear]
    rfl
  | cons s segments ih =>
    have hlast := List.getLast?_eq_some_getLast hcur
    rw [List.foldl_cons,proximityStep]
    simp only [hlast]
    split
    · rename_i hclose
      have hnear' : (cur ++ [s]).IsChain (fun a b => isNear maxGap a b) := by
        rw [List.isChain_append]
        refine ⟨hnear,List.isChain_singleton s,?_⟩
        intro a ha b hb
        rw [hlast,Option.mem_some_iff] at ha
        rw [List.head?_cons,Option.mem_some_iff] at hb
        rw [← ha,← hb,isNear,decide_eq_true hclose]
      rw [ih done (List.append_ne_nil_of_right_ne_nil _ (List.cons_ne_nil s [])) hnear',
        List.append_assoc,List.singleton_append]
    · rename_i hfar
      have hcut : ∀ a ∈ cur.getLast?, isNear maxGap a s = false := by
        intro a ha
        rw [hlast,Option.mem_some_iff] at ha
        rw [← ha,isNear,decide_eq_false hfar]
      rw [ih (done ++ [create cur]) (List.cons_ne_nil s []) (List.isChain_singleton s),
        List.splitBy_append_cons segments hcut,List.splitBy_of_isChain hcur hnear,
        List.map_append,List.append_assoc]
      rfl

theorem groupByProximity_eq :
    groupByProximity create maxGap segments = (segments.splitBy (isNear maxGap)).map create := by
  cases segments with
  | nil => rfl
  | cons s segments =>
    rw [groupByProximity,List.foldl_cons]
    exact closeGroup_foldl [] (List.cons_ne_nil s []) (List.isChain_singleton s)

/-- Merging neighbours keeps all segments in order. -/
theorem flatMap_refineByContent (groups : List AdGroup) :
    (refineByContent minContentGap groups).flatMap AdGroup.segments =
      groups.flatMap AdGroup.segments := by
  fun_induction refineByContent minContentGap groups with
  | case1 => rfl
  | case2 a => rfl
  | case3 a b rest hmerge ih =>
    rw [List.flatMap_cons,ih,List.flatMap_cons,List.flatMap_cons,← List.append_assoc]
    rfl
  | case4 a b rest hmerge ih =>
    rw [List.flatMap_cons,ih]
    rfl

/-- The group begins after the segments of the other one have ended. -/
structure AdGroup.Before (g h : AdGroup) : Prop where
  starts : g.startTime ≤ h.startTime
  ends : ∀ s ∈ g.segments, s.endTime ≤ h.startTime

theorem AdGroup.Before.spans_mergeGroups {g h : AdGroup} (hbefore : g.Before h) (hg : g.Spans)
    (hh : h.Spans) (hlong : h.startTime ≤ h.endTime) : (mergeGroups g h).Spans := by
  intro s hs
  rcases List.mem_append.mp hs with hs | hs
  · exact ⟨(hg s hs).1,(hbefore.ends s hs).trans hlong⟩
  · exact ⟨hbefore.starts.trans (hh s hs).1,(hh s hs).2⟩

theorem spans_of_mem_refineByContent {groups : List AdGroup}
    (hspans : ∀ g ∈ groups, g.Spans ∧ g.startTime ≤ g.endTime)
    (hbefore : groups.Pairwise AdGroup.Before) :
    ∀ g ∈ refineByContent minContentGap groups, g.Spans := by
  fun_induction refineByContent minContentGap groups with
  | case1 => exact fun g hg => absurd hg List.not_mem_nil
  | case2 a => exact fun g hg => (hspans g hg).1
  | case3 a b rest hmerge ih =>
    obtain ⟨ha,hbs⟩ := List.forall_mem_cons.mp hspans
    obtain ⟨hb,hrest⟩ := List.forall_mem_cons.mp hbs
    obtain ⟨hab,htail⟩ := List.pairwise_cons.mp hbefore
    refine List.forall_mem_cons.mpr ⟨?_,ih hrest (List.pairwise_cons.mp htail).2⟩
    exact (hab b List.mem_cons_self).spans_mergeGroups ha.1 hb.1 hb.2
  | case4 a b rest hmerge ih =>
    obtain ⟨ha,hbs⟩ := List.forall_mem_cons.mp hspans
    exact List.forall_mem_cons.mpr ⟨ha.1,ih hbs (List.pairwise_cons.mp hbefore).2⟩

end

section
variable {extractKeywords : List TranscriptSegment → Finset String}
  {pick : List TranscriptSegment → List Identification} {maxGap minContentGap : ℚ}
  {segments init : List TranscriptSegment} {last : TranscriptSegment}
  {before after : List (List TranscriptSegment)}

theorem endTime_createWith :
    (createWith extractKeywords pick (init ++ [last])).endTime = last.endTime := by
  simp [createWith]

theorem startTime_createWith {group : List TranscriptSegment} {s : TranscriptSegment}
    (hsorted : group.Pairwise (fun a b => a.startTime ≤ b.startTime)) (hs : s ∈ group) :
    (createWith extractKeywords pick group).startTime ≤ s.startTime := by
  cases group with
  | nil => exact absurd hs List.not_mem_nil
  | cons a group =>
    rcases List.mem_cons.mp hs with rfl | hs
    · exact le_rfl
    · exact (List.pairwise_cons.mp hsorted).1 s hs

/-- The segment after a group is not near its last one. -/
theorem far_of_splitBy (h : segments.splitBy (isNear maxGap) = before ++ (init ++ [last])::after)
    {next : TranscriptSegment} (hnext : next ∈ after.flatten.head?) :
    maxGap < next.startTime - last.endTime := by
  have hchain := List.isChain_getLast_head_splitBy (isNear maxGap) segments
  have hne := List.nil_notMem_splitBy (isNear maxGap) segments
  rw [h] at hchain hne
  cases after with
  | nil => exact absurd hnext (by simp)
  | cons group after =>
    obtain ⟨-,hfar⟩ := List.isChain_split.mp hchain
    obtain ⟨_,hgroup,hrel⟩ := (List.isChain_cons_cons.mp hfar).1
    obtain ⟨first,rest,rfl⟩ := List.exists_cons_of_ne_nil hgroup
    rw [List.flatten_cons,List.cons_append,List.head?_cons,Option.mem_some_iff] at hnext
    rw [List.getLast_append_singleton,List.head_cons,isNear_eq_false] at hrel
    rwa [← hnext]

/-- No segment up to the last one of a group ends after it. -/
theorem ends_of_splitBy (hcuts : CutsAtLatestEnd maxGap segments)
    (h : segments.splitBy (isNear maxGap) = before ++ (init ++ [last])::after) :
    ∀ s ∈ before.flatten ++ init, s.endTime ≤ last.endTime := by
  have hflat : segments = before.flatten ++ init ++ last::after.flatten := by
    rw [← List.flatten_splitBy (isNear maxGap) segments,h]
    simp
  exact hcuts _ _ _ hflat (fun next hnext => far_of_splitBy h hnext)

theorem sorted_of_mem_splitBy {group : List TranscriptSegment}
    (hsorted : segments.Pairwise (fun a b => a.startTime ≤ b.startTime))
    (hgroup : group ∈ segments.splitBy (isNear maxGap)) :
    group.Pairwise (fun a b => a.startTime ≤ b.startTime) := by
  have hsub := List.sublist_flatten_of_mem hgroup
  rw [List.flatten_splitBy] at hsub
  exact hsorted.sublist hsub

theorem spans_of_splitBy (hsorted : segments.Pairwise (fun a b => a.startTime ≤ b.startTime))
    (hcuts : CutsAtLatestEnd maxGap segments)
    (h : segments.splitBy (isNear maxGap) = before ++ (init ++ [last])::after) :
    (createWith extractKeywords pick (init ++ [last])).Spans := by
  have hmem : init ++ [last] ∈ segments.splitBy (isNear maxGap) := by
    rw [h]
    exact List.mem_append_right _ List.mem_cons_self
  intro s hs
  refine ⟨startTime_createWith (sorted_of_mem_splitBy hsorted hmem) hs,?_⟩
  rw [endTime_createWith]
  rcases List.mem_append.mp hs with hs | hs
  · exact ends_of_splitBy hcuts h s (List.mem_append_right _ hs)
  · exact (List.mem_singleton.mp hs ▸ le_rfl)

/-- A later group begins more than the gap after every segment of an earlier one. -/
theorem apart_of_splitBy (hsorted : segments.Pairwise (fun a b => a.startTime ≤ b.startTime))
    (hcuts : CutsAtLatestEnd maxGap segments)
    (h : segments.splitBy (isNear maxGap) = before ++ (init ++ [last])::after)
    {group : List TranscriptSegment} (hgroup : group ∈ after) :
    ∀ s ∈ init ++ [last],
      maxGap < (createWith extractKeywords pick group).startTime - s.endTime := by
  intro s hs
  have hend : s.endTime ≤ last.endTime := by
    rcases List.mem_append.mp hs with hs | hs
    · exact ends_of_splitBy hcuts h s (List.mem_append_right _ hs)
    · exact (List.mem_singleton.mp hs ▸ le_rfl)
  have hmem : group ∈ segments.splitBy (isNear maxGap) := by
    rw [h]
    exact List.mem_append_right _ (List.mem_cons_of_mem _ hgroup)
  obtain ⟨first,rest,rfl⟩ := List.exists_cons_of_ne_nil (List.ne_nil_of_mem_splitBy hmem)
  have hfirst : first ∈ after.flatten := List.mem_flatten_of_mem hgroup List.mem_cons_self
  obtain ⟨next,later,hlater⟩ := List.exists_cons_of_ne_nil (List.ne_nil_of_mem hfirst)
  have hfar : maxGap < next.startTime - last.endTime := by
    refine far_of_splitBy h ?_
    rw [hlater]
    exact rfl
  have hafter : (next::later).Pairwise (fun a b => a.startTime ≤ b.startTime) := by
    rw [← hlater]
    refine hsorted.sublist ?_
    rw [← List.flatten_splitBy (isNear maxGap) segments,h,List.flatten_append,List.flatten_cons]
    exact (List.sublist_append_right _ _).trans (List.sublist_append_right _ _)
  rw [hlater] at hfirst
  have hle : (createWith extractKeywords pick (next::later)).startTime ≤ first.startTime :=
    startTime_createWith hafter hfirst
  change next.startTime ≤ first.startTime at hle
  change maxGap < first.startTime - s.endTime
  linarith

theorem exists_concat_of_mem_splitBy {group : List TranscriptSegment}
    (hgroup : group ∈ segments.splitBy (isNear maxGap)) : ∃ init last, group = init ++ [last] :=
  ⟨_,_,(List.dropLast_concat_getLast (List.ne_nil_of_mem_splitBy hgroup)).symm⟩

/-- The groups of all segments hold them in order. -/
theorem flatMap_map_createWith :
    ((segments.splitBy (isNear maxGap)).map (createWith extractKeywords pick)).flatMap
      AdGroup.segments = segments := by
  rw [List.flatMap_map]
  change (segments.splitBy (isNear maxGap)).flatMap id = segments
  rw [List.flatMap_id,List.flatten_splitBy]

theorem pairwise_apart (hsorted : segments.Pairwise (fun a b => a.startTime ≤ b.startTime))
    (hcuts : CutsAtLatestEnd maxGap segments) :
    ((segments.splitBy (isNear maxGap)).map (createWith extractKeywords pick)).Pairwise
      (fun g h => ∀ s ∈ g.segments, maxGap < h.startTime - s.endTime) := by
  rw [List.pairwise_map,List.pairwise_iff_forall_sublist]
  intro group later hsub
  obtain ⟨before,rest,h,hgroup,hlater⟩ := List.cons_sublist_iff.mp hsub
  obtain ⟨before',between,rfl⟩ := List.append_of_mem hgroup
  have hmem : group ∈ segments.splitBy (isNear maxGap) := by
    rw [h]
    exact List.mem_append_left _ hgroup
  obtain ⟨init,last,rfl⟩ := exists_concat_of_mem_splitBy hmem
  rw [List.append_assoc,List.cons_append] at h
  exact apart_of_splitBy hsorted hcuts h
    (List.mem_append_right _ (List.singleton_sublist.mp hlater))

/-- With every cut at the latest end no time is lost. -/
theorem losesNoTime_of_cutsAtLatestEnd (hlong : ∀ s ∈ segments, s.startTime ≤ s.endTime)
    (hsorted : segments.Pairwise (fun a b => a.startTime ≤ b.startTime)) (hgap : 0 ≤ maxGap)
    (hcuts : CutsAtLatestEnd maxGap segments) :
    LosesNoTime (createWith extractKeywords pick) maxGap minContentGap segments := by
  have hapart : (groupByProximity (createWith extractKeywords pick) maxGap segments).Pairwise
      (fun g h => ∀ s ∈ g.segments, maxGap < h.startTime - s.endTime) := by
    rw [groupByProximity_eq]
    exact pairwise_apart hsorted hcuts
  have hspans : ∀ g ∈ groupByProximity (createWith extractKeywords pick) maxGap segments,
      g.Spans ∧ ∃ s ∈ g.segments, g.startTime = s.startTime ∧ s.startTime ≤ s.endTime := by
    intro g hg
    rw [groupByProximity_eq] at hg
    obtain ⟨group,hgroup,rfl⟩ := List.mem_map.mp hg
    constructor
    · obtain ⟨init,last,rfl⟩ := exists_concat_of_mem_splitBy hgroup
      obtain ⟨before,after,h⟩ := List.append_of_mem hgroup
      exact spans_of_splitBy hsorted hcuts h
    · have hmem : ∀ s ∈ group, s ∈ segments := by
        intro s hs
        rw [← List.flatten_splitBy (isNear maxGap) segments]
        exact List.mem_flatten_of_mem hgroup hs
      obtain ⟨first,rest,rfl⟩ := List.exists_cons_of_ne_nil (List.ne_nil_of_mem_splitBy hgroup)
      exact ⟨first,List.mem_cons_self,rfl,hlong first (hmem first List.mem_cons_self)⟩
  have hflat : (groupByProximity (createWith extractKeywords pick) maxGap segments).flatMap
      AdGroup.segments = segments := by
    rw [groupByProximity_eq]
    exact flatMap_map_createWith
  have hrefined : ∀ g ∈ refineByContent minContentGap
      (groupByProximity (createWith extractKeywords pick) maxGap segments), g.Spans := by
    apply spans_of_mem_refineByContent
    · intro g hg
      obtain ⟨hspan,s,hs,hstart,hend⟩ := hspans g hg
      refine ⟨hspan,?_⟩
      rw [hstart]
      exact hend.trans (hspan s hs).2
    · refine hapart.imp_of_mem ?_
      intro g h hg hh hgh
      have hends : ∀ s ∈ g.segments, s.endTime ≤ h.startTime := by
        intro s hs
        linarith [hgh s hs]
      obtain ⟨hspan,s,hs,hstart,hend⟩ := hspans g hg
      refine ⟨?_,hends⟩
      rw [hstart]
      exact hend.trans (hends s hs)
  exact ⟨fun g hg => (hspans g hg).1,hrefined,hflat,(flatMap_refineByContent _).trans hflat,hapart⟩

/-- The segments up to a cut are split on their own, and the last one of them ends a group. -/
theorem splitBy_at_cut (earlier : List TranscriptSegment) {later : List TranscriptSegment}
    (hcut : ∀ next ∈ later.head?, maxGap < next.startTime - last.endTime) :
    ∃ groups init, earlier = groups.flatten ++ init ∧
      (earlier ++ last::later).splitBy (isNear maxGap) =
        groups ++ (init ++ [last])::later.splitBy (isNear maxGap) := by
  have hsplit : (earlier ++ [last] ++ later).splitBy (isNear maxGap) =
      (earlier ++ [last]).splitBy (isNear maxGap) ++ later.splitBy (isNear maxGap) := by
    apply List.splitBy_append
    intro a ha b hb
    rw [List.getLast?_concat,Option.mem_some_iff] at ha
    rw [← ha,isNear_eq_false]
    exact hcut b hb
  have hne : (earlier ++ [last]).splitBy (isNear maxGap) ≠ [] :=
    List.splitBy_ne_nil.mpr (by simp)
  obtain ⟨groups,group,hgroups⟩ : ∃ groups group,
      (earlier ++ [last]).splitBy (isNear maxGap) = groups ++ [group] :=
    ⟨_,_,(List.dropLast_concat_getLast hne).symm⟩
  have hgroup : group ∈ (earlier ++ [last]).splitBy (isNear maxGap) := by
    rw [hgroups]
    exact List.mem_append_right _ List.mem_cons_self
  obtain ⟨init,last',rfl⟩ := exists_concat_of_mem_splitBy hgroup
  have hflat : groups.flatten ++ init ++ [last'] = earlier ++ [last] := by
    rw [← List.flatten_splitBy (isNear maxGap) (earlier ++ [last]),hgroups]
    simp
  obtain ⟨hearlier,hlast⟩ := List.append_inj' hflat rfl
  obtain rfl := List.singleton_inj.mp hlast
  rw [hgroups,List.append_assoc,List.append_assoc,List.singleton_append,
    List.singleton_append] at hsplit
  exact ⟨groups,init,hearlier.symm,hsplit⟩

theorem cutsAtLatestEnd_of_losesNoTime (hlong : ∀ s ∈ segments, s.startTime ≤ s.endTime)
    (hsorted : segments.Pairwise (fun a b => a.startTime ≤ b.startTime)) (hgap : 0 ≤ maxGap)
    (hkept : LosesNoTime (createWith extractKeywords pick) maxGap minContentGap segments) :
    CutsAtLatestEnd maxGap segments := by
  rintro earlier last later rfl hcut s hs
  obtain ⟨groups,init,rfl,hsplit⟩ := splitBy_at_cut earlier hcut
  have hspans := hkept.proximitySpans
  have hapart := hkept.apart
  rw [groupByProximity_eq,hsplit] at hspans hapart
  rcases List.mem_append.mp hs with hs | hs
  · obtain ⟨group,hgroup,hs⟩ := List.mem_flatten.mp hs
    rw [List.map_append,List.map_cons,List.pairwise_append] at hapart
    have hfar := hapart.2.2 _ (List.mem_map_of_mem hgroup) _ List.mem_cons_self s hs
    have hgroup' : init ++ [last] ∈
        (groups.flatten ++ init ++ last::later).splitBy (isNear maxGap) := by
      rw [hsplit]
      exact List.mem_append_right _ List.mem_cons_self
    have hstart : (createWith extractKeywords pick (init ++ [last])).startTime ≤
        last.startTime :=
      startTime_createWith (sorted_of_mem_splitBy hsorted hgroup')
        (List.mem_append_right _ List.mem_cons_self)
    have hend := hlong last (List.mem_append_right _ List.mem_cons_self)
    linarith
  · have hmem : createWith extractKeywords pick (init ++ [last]) ∈
        (groups ++ (init ++ [last])::later.splitBy (isNear maxGap)).map
          (createWith extractKeywords pick) :=
      List.mem_map_of_mem (List.mem_append_right _ List.mem_cons_self)
    have hend := (hspans _ hmem s (List.mem_append_left _ hs)).2
    rwa [endTime_createWith] at hend

/-- No time is lost exactly when every cut is at the latest end. -/
theorem losesNoTime_iff (adSegments : List TranscriptSegment)
    (hlong : ∀ s ∈ adSegments, s.startTime ≤ s.endTime) (hgap : 0 ≤ maxGap) :
    LosesNoTime (createWith extractKeywords pick) maxGap minContentGap
        (sortByKey TranscriptSegment.startTime adSegments) ↔
      CutsAtLatestEnd maxGap (sortByKey TranscriptSegment.startTime adSegments) := by
  have hsorted := sortByKey_sorted TranscriptSegment.startTime adSegments
  have hlong' : ∀ s ∈ sortByKey TranscriptSegment.startTime adSegments,
      s.startTime ≤ s.endTime := fun s hs => hlong s ((mem_sortByKey _ _ s).mp hs)
  exact ⟨cutsAtLatestEnd_of_losesNoTime hlong' hsorted hgap,
    losesNoTime_of_cutsAtLatestEnd hlong' hsorted hgap⟩

/-- Segments that end in the order in which they begin are cut at the latest end. -/
theorem cutsAtLatestEnd_of_ends (h : segments.Pairwise (fun a b => a.endTime ≤ b.endTime)) :
    CutsAtLatestEnd maxGap segments := by
  rintro earlier last later rfl - s hs
  exact (List.pairwise_append.mp h).2.2 s hs last List.mem_cons_self

/-- Two segments one after the other. -/
theorem losesNoTime_inOrder : (∀ s ∈ [(⟨1,0,10,""⟩ : TranscriptSegment),⟨2,9,20,""⟩],
    s.startTime ≤ s.endTime) ∧ (0 : ℚ) ≤ 8 ∧
    LosesNoTime (createGroup (fun _ => ∅) []) 8 12
      (sortByKey TranscriptSegment.startTime [⟨1,0,10,""⟩,⟨2,9,20,""⟩]) := by
  have hlong : ∀ s ∈ [(⟨1,0,10,""⟩ : TranscriptSegment),⟨2,9,20,""⟩],
      s.startTime ≤ s.endTime := by
    norm_num
  have hgap : (0 : ℚ) ≤ 8 := by norm_num
  refine ⟨hlong,hgap,(losesNoTime_iff _ hlong hgap).mpr (cutsAtLatestEnd_of_ends ?_)⟩
  rw [sortByKey_of_sorted (by norm_num)]
  norm_num

/-- A long segment around a short one: their group ends with the short one. -/
theorem not_losesNoTime_nested : ¬LosesNoTime (createGroup (fun _ => ∅) []) 8 12
    (sortByKey TranscriptSegment.startTime [⟨1,0,100,""⟩,⟨2,10,20,""⟩]) := by
  rw [sortByKey_of_sorted (by norm_num)]
  intro hkept
  have hspans := hkept.refinedSpans
  have hgroups : groupByProximity (createGroup (fun _ => ∅) []) 8
      [⟨1,0,100,""⟩,⟨2,10,20,""⟩] =
      [createGroup (fun _ => ∅) [] [⟨1,0,100,""⟩,⟨2,10,20,""⟩]] := by
    norm_num [groupByProximity,proximityStep,closeGroup]
    exact List.cons_ne_nil _ _
  rw [hgroups] at hspans
  have hend := (hspans _ List.mem_cons_self ⟨1,0,100,""⟩ List.mem_cons_self).2
  change (100 : ℚ) ≤ 20 at hend
  norm_num at hend

end

end Podly.AdBlocks
