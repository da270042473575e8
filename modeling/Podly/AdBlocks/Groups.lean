import Mathlib.Algebra.Order.Field.Rat
import Mathlib.Algebra.BigOperators.Group.List.Basic
import Mathlib.Data.Finset.Empty
import Mathlib.Data.Finset.Lattice.Basic
import Mathlib.Data.List.Forall2
import Mathlib.Data.List.Nodup
import Podly.Intervals.Coalesce

/-! Ad groups: the detected segments of a post grouped by proximity, refined by content and
filtered, as `merge_stats_ad_segments` and `AdMerger` do it. -/
namespace Podly.AdBlocks
open Intervals

/-- A row of `transcript_segment`. -/
structure TranscriptSegment where
  id : ℤ
  startTime : ℚ
  endTime : ℚ
  text : String
deriving DecidableEq

/-- A row of `identification`, with the status of its model call. -/
structure Identification where
  transcriptSegmentId : ℤ
  label : String
  confidence : Option ℚ
  modelCallStatus : String
deriving DecidableEq

/-- `StatsAdGroup`, `AdGroup`: the keywords come from a set on both sides. -/
structure AdGroup where
  segments : List TranscriptSegment
  identifications : List Identification
  startTime : ℚ
  endTime : ℚ
  confidenceAvg : ℚ
  keywords : Finset String

/-- The mean of the confidences, a missing one counting as zero; zero when there are none. -/
def confidenceAvg (ids : List Identification) : ℚ :=
  if ids = [] then 0 else (ids.map (fun i => i.confidence.getD 0)).sum / ids.length

section Create
variable (extractKeywords : List TranscriptSegment → Finset String)

/-- A group of segments, given how its identifications are picked. -/
def createWith (pick : List TranscriptSegment → List Identification)
    (segments : List TranscriptSegment) : AdGroup where
  segments := segments
  identifications := pick segments
  startTime := (segments.head?.map TranscriptSegment.startTime).getD 0
  endTime := (segments.getLast?.map TranscriptSegment.endTime).getD 0
  confidenceAvg := confidenceAvg (pick segments)
  keywords := extractKeywords segments

/-- `create_stats_ad_group`: the identifications of the segments, in their own order. -/
def createStatsAdGroup (identifications : List Identification) :
    List TranscriptSegment → AdGroup :=
  createWith extractKeywords (fun segments => identifications.filter
    (fun i => i.transcriptSegmentId ∈ segments.map TranscriptSegment.id))

/-- `id_lookup`: the last identification of a segment. -/
def idLookup (identifications : List Identification) (id : ℤ) : Option Identification :=
  (identifications.filter (fun i => i.transcriptSegmentId = id)).getLast?

/-- `AdMerger._create_group`: one identification for each segment, in the segments' order. -/
def createGroup (identifications : List Identification) : List TranscriptSegment → AdGroup :=
  createWith extractKeywords (fun segments =>
    (segments.map TranscriptSegment.id).filterMap (idLookup identifications))

end Create

/-- One turn of the grouping loop, over the groups that are done and the current segments. -/
def proximityStep (create : List TranscriptSegment → AdGroup) (maxGap : ℚ)
    (state : List AdGroup × List TranscriptSegment) (segment : TranscriptSegment) :
    List AdGroup × List TranscriptSegment :=
  match state.2.getLast? with
  | none => (state.1,[segment])
  | some last =>
    if segment.startTime - last.endTime ≤ maxGap then (state.1,state.2 ++ [segment])
    else (state.1 ++ [create state.2],[segment])

/-- After the loop the current segments make one more group. -/
def closeGroup (create : List TranscriptSegment → AdGroup)
    (state : List AdGroup × List TranscriptSegment) : List AdGroup :=
  if state.2 = [] then state.1 else state.1 ++ [create state.2]

/-- `_group_by_proximity`, and the loop of `merge_stats_ad_segments`. -/
def groupByProximity (create : List TranscriptSegment → AdGroup) (maxGap : ℚ)
    (segments : List TranscriptSegment) : List AdGroup :=
  closeGroup create (segments.foldl (proximityStep create maxGap) ([],[]))

/-- `should_merge_stats_ad_groups`, `_should_merge`. -/
def ShouldMerge (a b : AdGroup) : Prop :=
  (9/10 ≤ a.confidenceAvg ∧ 9/10 ≤ b.confidenceAvg) ∨ (∃ k ∈ b.keywords, k ∈ a.keywords) ∨
    (b.startTime - a.endTime ≤ 10 ∧ 8/10 ≤ a.confidenceAvg ∧ 8/10 ≤ b.confidenceAvg)

instance (a b : AdGroup) : Decidable (ShouldMerge a b) :=
  inferInstanceAs (Decidable (_ ∨ _ ∨ _))

/-- The group made of two neighbours. -/
def mergeGroups (a b : AdGroup) : AdGroup where
  segments := a.segments ++ b.segments
  identifications := a.identifications ++ b.identifications
  startTime := a.startTime
  endTime := b.endTime
  confidenceAvg := (a.confidenceAvg + b.confidenceAvg) / 2
  keywords := a.keywords ∪ b.keywords

/-- `_refine_by_content`: a group is merged with its neighbour at most once. -/
def refineByContent (minContentGap : ℚ) : List AdGroup → List AdGroup
  | [] => []
  | [a] => [a]
  | a::b::rest =>
    if b.startTime - a.endTime ≤ minContentGap ∧ ShouldMerge a b then
      mergeGroups a b::refineByContent minContentGap rest
    else a::refineByContent minContentGap (b::rest)

/-- `refine_stats_ad_groups`. -/
def refineStatsAdGroups : List AdGroup → List AdGroup := refineByContent 12

/-- `is_valid_stats_ad_group`, `_is_valid_group`. -/
def isValidGroup (g : AdGroup) : Bool :=
  if 180 < g.endTime - g.startTime ∧ g.keywords = ∅ ∧ g.confidenceAvg < 9/10 then false
  else if g.segments.length < 2 ∨ g.endTime - g.startTime ≤ 10 then
    g.keywords ≠ ∅ ∨ 9/10 ≤ g.confidenceAvg
  else true

section Merge
variable (extractKeywords : List TranscriptSegment → Finset String)

/-- `merge_stats_ad_segments`. -/
def mergeStatsAdSegments (segments : List TranscriptSegment)
    (identifications : List Identification) (maxGap : ℚ) : List AdGroup :=
  (refineStatsAdGroups (groupByProximity (createStatsAdGroup extractKeywords identifications)
    maxGap segments)).filter isValidGroup

/-- `AdMerger.merge`. -/
def adMergerMerge (adSegments : List TranscriptSegment) (identifications : List Identification)
    (maxGap minContentGap : ℚ) : List AdGroup :=
  (refineByContent minContentGap (groupByProximity (createGroup extractKeywords identifications)
    maxGap (sortByKey TranscriptSegment.startTime adSegments))).filter isValidGroup

end Merge

/-- Two groups that differ at most in the order of their identifications. -/
structure AdGroup.Agree (a b : AdGroup) : Prop where
  segments : a.segments = b.segments
  identifications : a.identifications.Perm b.identifications
  startTime : a.startTime = b.startTime
  endTime : a.endTime = b.endTime
  confidenceAvg : a.confidenceAvg = b.confidenceAvg
  keywords : a.keywords = b.keywords

/-- The mean does not depend on the order. -/
theorem confidenceAvg_perm {ids ids' : List Identification} (h : ids.Perm ids') :
    confidenceAvg ids = confidenceAvg ids' := by
  have hnil : ids = [] ↔ ids' = [] := by
    rw [← List.length_eq_zero_iff,← List.length_eq_zero_iff,h.length_eq]
  have hsum := (h.map (fun i => i.confidence.getD 0)).sum_eq
  simp only [confidenceAvg, hnil, hsum, h.length_eq]

theorem createWith_agree {extractKeywords : List TranscriptSegment → Finset String}
    {pick pick' : List TranscriptSegment → List Identification}
    {segments : List TranscriptSegment} (h : (pick segments).Perm (pick' segments)) :
    (createWith extractKeywords pick segments).Agree
      (createWith extractKeywords pick' segments) :=
  ⟨rfl,h,rfl,rfl,confidenceAvg_perm h,rfl⟩

section Lookup
variable {identifications : List Identification}

/-- With at most one identification a segment the lookup finds just that one. -/
theorem idLookup_eq_some_iff
    (hone : (identifications.map Identification.transcriptSegmentId).Nodup) {id : ℤ}
    {i : Identification} :
    idLookup identifications id = some i ↔ i ∈ identifications ∧ i.transcriptSegmentId = id := by
  have hinj := List.inj_on_of_nodup_map hone
  constructor
  · intro h
    simpa using List.mem_of_getLast? h
  · rintro ⟨hi,rfl⟩
    have hmem : i ∈ identifications.filter
        (fun j => j.transcriptSegmentId = i.transcriptSegmentId) :=
      List.mem_filter.mpr ⟨hi,by simp⟩
    obtain ⟨j,hj⟩ := Option.isSome_iff_exists.mp
      (List.getLast?_isSome.mpr (List.ne_nil_of_mem hmem))
    have hj' : j ∈ identifications ∧ j.transcriptSegmentId = i.transcriptSegmentId := by
      simpa using List.mem_of_getLast? hj
    rw [idLookup,hj,hinj hj'.1 hi hj'.2]

/-- Both ways to pick the identifications of a group find the same ones. -/
theorem picked_perm (hone : (identifications.map Identification.transcriptSegmentId).Nodup)
    {ids : List ℤ} (hids : ids.Nodup) :
    (identifications.filter (fun i => i.transcriptSegmentId ∈ ids)).Perm
      (ids.filterMap (idLookup identifications)) := by
  have hinj : ∀ a b i, i ∈ idLookup identifications a → i ∈ idLookup identifications b →
      a = b := by
    intro a b i ha hb
    rw [← ((idLookup_eq_some_iff hone).mp ha).2,((idLookup_eq_some_iff hone).mp hb).2]
  apply (List.perm_ext_iff_of_nodup (hone.of_map _ |>.filter _) (hids.filterMap hinj)).mpr
  intro i
  simp only [List.mem_filter, decide_eq_true_eq, List.mem_filterMap, idLookup_eq_some_iff hone]
  constructor
  · rintro ⟨hi,hid⟩
    exact ⟨_,hid,hi,rfl⟩
  · rintro ⟨id,hid,hi,rfl⟩
    exact ⟨hi,hid⟩

end Lookup

section Agreement
variable {create create' : List TranscriptSegment → AdGroup} {maxGap : ℚ}

/-- What one turn of the grouping loop preserves when groups are created in two ways. -/
theorem proximityStep_agree {l r : List AdGroup × List TranscriptSegment}
    (hdone : List.Forall₂ AdGroup.Agree l.1 r.1) (hcur : l.2 = r.2)
    (hcreate : (create l.2).Agree (create' l.2)) (segment : TranscriptSegment) :
    List.Forall₂ AdGroup.Agree (proximityStep create maxGap l segment).1
        (proximityStep create' maxGap r segment).1 ∧
      (proximityStep create maxGap l segment).2 = (proximityStep create' maxGap r segment).2 := by
  obtain ⟨done,cur⟩ := l
  obtain ⟨done',cur'⟩ := r
  cases hcur
  dsimp only [proximityStep] at *
  split
  · exact ⟨hdone,rfl⟩
  · split
    · exact ⟨hdone,rfl⟩
    · exact ⟨List.rel_append hdone (.cons hcreate .nil),rfl⟩

/-- The current segments of a turn, followed by those still to come, are among the segments the
loop has before it. -/
theorem proximityStep_current_sublist (l : List AdGroup × List TranscriptSegment)
    (segment : TranscriptSegment) (rest : List TranscriptSegment) :
    ((proximityStep create maxGap l segment).2 ++ rest).Sublist (l.2 ++ segment::rest) := by
  unfold proximityStep
  split
  · exact List.sublist_append_right _ _
  · split
    · simp
    · exact List.sublist_append_right _ _

theorem foldl_proximityStep_agree {segments : List TranscriptSegment}
    {l r : List AdGroup × List TranscriptSegment}
    (hdone : List.Forall₂ AdGroup.Agree l.1 r.1) (hcur : l.2 = r.2)
    (hcreate : ∀ c : List TranscriptSegment, c.Sublist (l.2 ++ segments) →
      (create c).Agree (create' c)) :
    List.Forall₂ AdGroup.Agree
      (closeGroup create (segments.foldl (proximityStep create maxGap) l))
      (closeGroup create' (segments.foldl (proximityStep create' maxGap) r)) := by
  induction segments generalizing l r with
  | nil =>
    have hlast : (create l.2).Agree (create' l.2) := hcreate l.2 (by simp)
    rw [List.foldl_nil,List.foldl_nil,closeGroup,closeGroup,← hcur]
    by_cases hnil : l.2 = []
    · rw [if_pos hnil,if_pos hnil]
      exact hdone
    · rw [if_neg hnil,if_neg hnil]
      exact List.rel_append hdone (.cons hlast .nil)
  | cons segment rest ih =>
    obtain ⟨hdone',hcur'⟩ := @proximityStep_agree create create' maxGap l r hdone hcur
      (hcreate l.2 (List.sublist_append_left _ _)) segment
    apply ih hdone' hcur'
    intro c hc
    exact hcreate c (hc.trans (proximityStep_current_sublist l segment rest))

theorem groupByProximity_agree {segments : List TranscriptSegment}
    (hcreate : ∀ c : List TranscriptSegment, c.Sublist segments → (create c).Agree (create' c)) :
    List.Forall₂ AdGroup.Agree (groupByProximity create maxGap segments)
      (groupByProximity create' maxGap segments) :=
  foldl_proximityStep_agree .nil rfl (by simpa using hcreate)

theorem AdGroup.Agree.shouldMerge_iff {a a' b b' : AdGroup} (ha : a.Agree a') (hb : b.Agree b') :
    ShouldMerge a b ↔ ShouldMerge a' b' := by
  simp only [ShouldMerge, ha.confidenceAvg, hb.confidenceAvg, ha.keywords, hb.keywords,
    hb.startTime, ha.endTime]

theorem AdGroup.Agree.mergeGroups {a a' b b' : AdGroup} (ha : a.Agree a') (hb : b.Agree b') :
    (mergeGroups a b).Agree (mergeGroups a' b') where
  segments := by simp only [AdBlocks.mergeGroups, ha.segments, hb.segments]
  identifications := ha.identifications.append hb.identifications
  startTime := ha.startTime
  endTime := hb.endTime
  confidenceAvg := by simp only [AdBlocks.mergeGroups, ha.confidenceAvg, hb.confidenceAvg]
  keywords := by simp only [AdBlocks.mergeGroups, ha.keywords, hb.keywords]

theorem AdGroup.Agree.isValidGroup_eq {a a' : AdGroup} (h : a.Agree a') :
    isValidGroup a = isValidGroup a' := by
  simp only [isValidGroup, h.segments, h.startTime, h.endTime, h.confidenceAvg, h.keywords]

theorem refineByContent_agree {minContentGap : ℚ} {groups groups' : List AdGroup}
    (h : List.Forall₂ AdGroup.Agree groups groups') :
    List.Forall₂ AdGroup.Agree (refineByContent minContentGap groups)
      (refineByContent minContentGap groups') := by
  fun_induction refineByContent minContentGap groups generalizing groups' with
  | case1 =>
    cases h
    exact .nil
  | case2 a =>
    cases h with
    | cons ha hrest =>
      cases hrest
      exact .cons ha .nil
  | case3 a b rest hmerge ih =>
    cases h with
    | cons ha hrest =>
      cases hrest with
      | cons hb hrest =>
        rw [hb.startTime,ha.endTime,ha.shouldMerge_iff hb] at hmerge
        rw [refineByContent,if_pos hmerge]
        exact .cons (ha.mergeGroups hb) (ih hrest)
  | case4 a b rest hmerge ih =>
    cases h with
    | cons ha hrest =>
      cases hrest with
      | cons hb hrest =>
        rw [hb.startTime,ha.endTime,ha.shouldMerge_iff hb] at hmerge
        rw [refineByContent,if_neg hmerge]
        exact .cons ha (ih (.cons hb hrest))

end Agreement

/-- The Rust groups and the Python groups of the same segments agree, when no segment has two
identifications and the merger is left with those that belong to some segment. -/
theorem mergeStatsAdSegments_agree {extractKeywords : List TranscriptSegment → Finset String}
    {adSegments : List TranscriptSegment} {identifications : List Identification}
    {belongs : Identification → Bool} {maxGap : ℚ}
    (hsegments : (adSegments.map TranscriptSegment.id).Nodup)
    (hone : ((identifications.filter belongs).map Identification.transcriptSegmentId).Nodup)
    (hbelongs : ∀ i ∈ identifications,
      i.transcriptSegmentId ∈ adSegments.map TranscriptSegment.id → belongs i) :
    List.Forall₂ AdGroup.Agree
      (mergeStatsAdSegments extractKeywords (sortByKey TranscriptSegment.startTime adSegments)
        identifications maxGap)
      (adMergerMerge extractKeywords adSegments (identifications.filter belongs) maxGap 12) := by
  let sorted := sortByKey TranscriptSegment.startTime adSegments
  have hperm : (sorted.map TranscriptSegment.id).Perm (adSegments.map TranscriptSegment.id) :=
    (sortByKey_perm _ _).map _
  have hcreate : ∀ c : List TranscriptSegment, c.Sublist sorted →
      (createStatsAdGroup extractKeywords identifications c).Agree
        (createGroup extractKeywords (identifications.filter belongs) c) := by
    intro c hc
    have hids : (c.map TranscriptSegment.id).Sublist (sorted.map TranscriptSegment.id) :=
      hc.map _
    apply createWith_agree
    have hsame : identifications.filter
          (fun i => i.transcriptSegmentId ∈ c.map TranscriptSegment.id) =
        (identifications.filter belongs).filter
          (fun i => i.transcriptSegmentId ∈ c.map TranscriptSegment.id) := by
      rw [List.filter_filter]
      apply List.filter_congr
      intro i hi
      by_cases hid : i.transcriptSegmentId ∈ c.map TranscriptSegment.id
      · simp only [hid, decide_true, Bool.true_and,
          hbelongs i hi (hperm.mem_iff.mp (hids.subset hid))]
      · simp only [hid, decide_false, Bool.false_and]
    rw [hsame]
    exact picked_perm hone ((hperm.nodup_iff.mpr hsegments).sublist hids)
  apply List.rel_filter
  · intro a b hab
    exact iff_of_eq (congrArg (· = true) hab.isValidGroup_eq)
  · exact refineByContent_agree (groupByProximity_agree hcreate)

end Podly.AdBlocks
