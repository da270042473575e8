import Podly.AdBlocks.AudioWindows
import Podly.AdBlocks.Boundaries

/-! The ad windows of a post, as Rust's `build_stats_ad_blocks` and Python's
`AudioProcessor.get_ad_segments` compute them, and when the two agree. -/
namespace Podly.AdBlocks
open Intervals

/-- What the queries of both sides return for a post. -/
structure PostRows where
  transcript : List TranscriptSegment
  /-- `id` is the primary key -/
  uniqueIds : (transcript.map TranscriptSegment.id).Nodup
  audio : List AudioSegment
  identifications : List Identification
  refinedAdBoundaries : List StoredBoundary

namespace PostRows
variable (rows : PostRows)

/-- The segment an identification is about: `segment_by_id`, `ident.transcript_segment`. -/
def segmentOf (i : Identification) : Option TranscriptSegment :=
  rows.transcript.find? (fun s => s.id = i.transcriptSegmentId)

/-- The filters of `build_stats_ad_blocks`: a missing confidence counts as zero. -/
def statsAdIdentifications (minConfidence : ℚ) : List Identification :=
  rows.identifications.filter (fun i =>
    i.label = "ad" ∧ minConfidence ≤ i.confidence.getD 0 ∧ i.modelCallStatus = "success")

/-- The query of `get_ad_segments`: a missing confidence passes no comparison, and the join drops
identifications without a segment. -/
def adIdentifications (minConfidence : ℚ) : List Identification :=
  rows.identifications.filter (fun i =>
    (rows.segmentOf i).isSome ∧ i.label = "ad" ∧ i.confidence.any (minConfidence ≤ ·) ∧
      i.modelCallStatus = "success")

/-- The stored boundaries, when refinement is enabled. -/
def refinedBoundaries (enableBoundaryRefinement : Bool) : List RefinedBoundary :=
  if enableBoundaryRefinement then parseRefinedBoundaries rows.refinedAdBoundaries else []

end PostRows

/-- What both sides do with the cut windows: bridge, extend the first one, sort. -/
def applyAudio (bridge expand : List (ℚ × ℚ) → List (ℚ × ℚ) → List (ℚ × ℚ))
    (bridgeable edge : List (ℚ × ℚ)) (hasContent : List (ℚ × ℚ) → Bool)
    (adWindows : List (ℚ × ℚ)) : List (ℚ × ℚ) :=
  let bridged := if bridgeable = [] then adWindows else bridge adWindows bridgeable
  sortByKey Prod.fst (if edge = [] ∨ hasContent bridged then bridged else expand bridged edge)

section Windows
variable (extractKeywords : List TranscriptSegment → Finset String) (rows : PostRows)
  (minConfidence maxGap : ℚ) (enableBoundaryRefinement : Bool)

/-- The groups `build_stats_ad_blocks` keeps. -/
def statsAdGroups : List AdGroup :=
  let ids := rows.statsAdIdentifications minConfidence
  mergeStatsAdSegments extractKeywords
    (sortByKey TranscriptSegment.startTime (ids.filterMap rows.segmentOf)) ids maxGap

/-- The windows its groups are cut at. -/
def statsCutWindows : List (ℚ × ℚ) :=
  (statsAdGroups extractKeywords rows minConfidence maxGap).map
    (fun group => cutWindowForStatsAdGroup group (rows.refinedBoundaries enableBoundaryRefinement))

/-- Rust's `build_stats_ad_blocks`. -/
def buildStatsAdBlocks : List (ℚ × ℚ) :=
  let ids := rows.statsAdIdentifications minConfidence
  if ids.filterMap rows.segmentOf = [] then []
  else applyAudio bridgeAdWindowsWithAudioRust expandEpisodeEdgeRust
    (extractAudioWindowsRust rows.audio false) (extractAudioWindowsRust rows.audio true)
    (fun adWindows => hasTranscriptContentBeforeFirstAd rows.transcript adWindows
      (ids.map Identification.transcriptSegmentId))
    (statsCutWindows extractKeywords rows minConfidence maxGap enableBoundaryRefinement)

/-- Python's `AudioProcessor.get_ad_segments`, without the sidecar. -/
def getAdSegments : List (ℚ × ℚ) :=
  let ids := rows.adIdentifications minConfidence
  let adSegmentsWithText := ids.filterMap rows.segmentOf
  let validIdentifications := ids.filter (fun i => (rows.segmentOf i).isSome)
  if ids = [] ∨ adSegmentsWithText = [] then []
  else
    let adGroups := adMergerMerge extractKeywords adSegmentsWithText validIdentifications maxGap 12
    applyAudio bridgeAdWindowsWithAudio expandEpisodeEdge
      (extractAudioWindows bridgeableAudioLabels rows.audio)
      (extractAudioWindows edgeExpansionAudioLabels rows.audio)
      (fun adWindows => hasTranscriptContentBeforeFirstAd rows.transcript adWindows
        (validIdentifications.map Identification.transcriptSegmentId))
      (adGroups.map (fun group =>
        cutWindowForAdGroup group (rows.refinedBoundaries enableBoundaryRefinement)))

/-- At most one successful ad identification a segment. -/
def OneIdentificationPerSegment : Prop :=
  ((rows.identifications.filter (fun i => i.label = "ad" ∧ i.modelCallStatus = "success")).map
    Identification.transcriptSegmentId).Nodup

instance : Decidable (OneIdentificationPerSegment rows) := inferInstanceAs (Decidable (List.Nodup _))

/-- The conditions under which no step tells the two implementations apart. -/
structure ReadAlike : Prop where
  /-- a missing confidence is rejected by both -/
  confidences : 0 < minConfidence ∨ ∀ i ∈ rows.identifications, i.label = "ad" →
    i.modelCallStatus = "success" → (rows.segmentOf i).isSome → i.confidence ≠ none
  /-- no block is matched at Rust's tolerance only -/
  blocks : ∀ group ∈ statsAdGroups extractKeywords rows minConfidence maxGap,
    ∀ block ∈ atomicAdBlocksForGroup group,
      MatchedAlike (rows.refinedBoundaries enableBoundaryRefinement) block
  /-- the labels of the audio around the kept groups count alike -/
  labels : statsAdGroups extractKeywords rows minConfidence maxGap ≠ [] →
    ∀ s ∈ rows.audio, s.startTime < s.endTime → CountedAlike s.label
  /-- the ads are bridged, or not extended, or those of one start come in order of their ends -/
  ties : extractAudioWindowsRust rows.audio false ≠ [] ∨
    extractAudioWindowsRust rows.audio true = [] ∨
    hasTranscriptContentBeforeFirstAd rows.transcript
      (statsCutWindows extractKeywords rows minConfidence maxGap enableBoundaryRefinement)
      ((rows.statsAdIdentifications minConfidence).map Identification.transcriptSegmentId) ∨
    TiesInOrder (statsCutWindows extractKeywords rows minConfidence maxGap enableBoundaryRefinement)

end Windows

namespace PostRows
variable {rows : PostRows} {minConfidence : ℚ}

theorem segmentOf_eq_some {i : Identification} {s : TranscriptSegment}
    (h : rows.segmentOf i = some s) : s ∈ rows.transcript ∧ s.id = i.transcriptSegmentId :=
  ⟨List.mem_of_find?_eq_some h,by simpa using List.find?_some h⟩

theorem segmentOf_isSome_iff (i : Identification) :
    (rows.segmentOf i).isSome ↔
      i.transcriptSegmentId ∈ rows.transcript.map TranscriptSegment.id := by
  simp [segmentOf]

/-- Known confidences: the query keeps just the identifications of stored segments. -/
theorem adIdentifications_eq
    (h : 0 < minConfidence ∨ ∀ i ∈ rows.identifications, i.label = "ad" →
      i.modelCallStatus = "success" → (rows.segmentOf i).isSome → i.confidence ≠ none) :
    rows.adIdentifications minConfidence =
      (rows.statsAdIdentifications minConfidence).filter
        (fun i => (rows.segmentOf i).isSome) := by
  rw [adIdentifications,statsAdIdentifications,List.filter_filter]
  apply List.filter_congr
  intro i hi
  rw [Bool.eq_iff_iff]
  simp only [Bool.and_eq_true, decide_eq_true_eq]
  apply and_congr_right
  intro hsome
  cases hconf : i.confidence with
  | some c => simp
  | none =>
    have hrejected : i.label = "ad" → i.modelCallStatus = "success" → ¬ minConfidence ≤ 0 := by
      intro hlabel hstatus
      rcases h with hpos | hknown
      · exact hpos.not_ge
      · exact absurd hconf (hknown i hi hlabel hstatus hsome)
    simp only [Option.any_none, Option.getD_none, Bool.false_eq_true, false_and, and_false,
      false_iff, not_and]
    intro hlabel hle hstatus
    exact hrejected hlabel hstatus hle

/-- Dropping the identifications without a segment loses no segment. -/
theorem filterMap_segmentOf_filter (ids : List Identification) :
    (ids.filter (fun i => (rows.segmentOf i).isSome)).filterMap rows.segmentOf =
      ids.filterMap rows.segmentOf := by
  rw [List.filterMap_filter]
  apply List.filterMap_congr
  intro i _
  cases rows.segmentOf i <;> rfl

/-- The segments' ids are the ones the identifications name. -/
theorem map_id_filterMap_segmentOf (ids : List Identification) :
    (ids.filterMap rows.segmentOf).map TranscriptSegment.id =
      (ids.filter (fun i => (rows.segmentOf i).isSome)).map
        Identification.transcriptSegmentId := by
  induction ids with
  | nil => rfl
  | cons i ids ih =>
    rw [List.filterMap_cons,List.filter_cons]
    cases hi : rows.segmentOf i with
    | none => simpa using ih
    | some s => simpa [(segmentOf_eq_some hi).2] using ih

theorem nodup_statsAdIdentifications (h : OneIdentificationPerSegment rows) :
    ((rows.statsAdIdentifications minConfidence).map
      Identification.transcriptSegmentId).Nodup := by
  refine List.Nodup.sublist (List.Sublist.map _ ?_) h
  apply List.monotone_filter_right
  intro i hi
  simp only [decide_eq_true_eq] at hi ⊢
  exact ⟨hi.1,hi.2.2⟩

end PostRows

/-- Both orders of groups are cut at the same windows. -/
theorem map_cutWindow_agree {groups groups' : List AdGroup} {refined : List RefinedBoundary}
    (h : List.Forall₂ AdGroup.Agree groups groups')
    (hblocks : ∀ group ∈ groups, ∀ block ∈ atomicAdBlocksForGroup group,
      MatchedAlike refined block) :
    groups.map (fun group => cutWindowForStatsAdGroup group refined) =
      groups'.map (fun group => cutWindowForAdGroup group refined) := by
  rw [← List.forall₂_eq_eq_eq,List.forall₂_map_left_iff,List.forall₂_map_right_iff]
  apply ((List.forall₂_and_left _ _).mpr ⟨hblocks,h⟩).imp
  rintro a b ⟨ha,hab⟩
  exact cutWindow_agree hab ha

/-- Only the segments of the transcript are looked up among the ads. -/
theorem hasTranscriptContentBeforeFirstAd_congr {transcript : List TranscriptSegment}
    {ids ids' : List ℤ} (h : ∀ s ∈ transcript, s.id ∈ ids ↔ s.id ∈ ids')
    (adWindows : List (ℚ × ℚ)) :
    hasTranscriptContentBeforeFirstAd transcript adWindows ids =
      hasTranscriptContentBeforeFirstAd transcript adWindows ids' := by
  unfold hasTranscriptContentBeforeFirstAd
  split
  · rfl
  · split
    · rfl
    · rename_i firstStart _ _
      rw [Bool.eq_iff_iff,List.any_eq_true,List.any_eq_true]
      apply exists_congr
      intro s
      apply and_congr_right
      intro hs
      simp only [decide_eq_true_eq, h s hs]

/-- The audio steps agree when the ads are bridged, or not extended, or have their ties in order. -/
theorem applyAudio_eq {bridgeable edge adWindows : List (ℚ × ℚ)}
    {hasContent : List (ℚ × ℚ) → Bool}
    (h : bridgeable ≠ [] ∨ edge = [] ∨ hasContent adWindows ∨ TiesInOrder adWindows) :
    applyAudio bridgeAdWindowsWithAudioRust expandEpisodeEdgeRust bridgeable edge hasContent
        adWindows =
      applyAudio bridgeAdWindowsWithAudio expandEpisodeEdge bridgeable edge hasContent
        adWindows := by
  simp only [applyAudio, bridgeAdWindowsWithAudio_eq]
  generalize hbridged : (if bridgeable = [] then adWindows
    else bridgeAdWindowsWithAudio adWindows bridgeable) = bridged
  have hties : edge = [] ∨ hasContent bridged ∨ TiesInOrder bridged := by
    by_cases hb : bridgeable = []
    · rw [if_pos hb] at hbridged
      rw [← hbridged]
      exact h.resolve_left (fun hne => hne hb)
    · rw [if_neg hb] at hbridged
      rw [← hbridged]
      exact .inr (.inr (bridgeAdWindowsWithAudio_ties _ _))
  split
  · rfl
  · rename_i hextended
    rcases hties with hedge | hcontent | hties
    · exact absurd (.inl hedge) hextended
    · exact absurd (.inr hcontent) hextended
    · rw [expandEpisodeEdge_eq hties]

/-- Without a window to cut, no audio adds one. -/
@[simp] theorem applyAudio_rust_nil (bridgeable edge : List (ℚ × ℚ))
    (hasContent : List (ℚ × ℚ) → Bool) :
    applyAudio bridgeAdWindowsWithAudioRust expandEpisodeEdgeRust bridgeable edge hasContent [] =
      [] := by
  have hbridge : bridgeAdWindowsWithAudioRust [] bridgeable = [] := rfl
  have hexpand : expandEpisodeEdgeRust [] edge = [] := rfl
  simp only [applyAudio, hbridge, hexpand, ite_self]
  rfl

@[simp] theorem applyAudio_python_nil (bridgeable edge : List (ℚ × ℚ))
    (hasContent : List (ℚ × ℚ) → Bool) :
    applyAudio bridgeAdWindowsWithAudio expandEpisodeEdge bridgeable edge hasContent [] = [] := by
  have hbridge : bridgeAdWindowsWithAudio [] bridgeable = [] := rfl
  have hexpand : expandEpisodeEdge [] edge = [] := rfl
  simp only [applyAudio, hbridge, hexpand, ite_self]
  rfl

section Agreement
variable {extractKeywords : List TranscriptSegment → Finset String} {rows : PostRows}
  {minConfidence maxGap : ℚ} {enableBoundaryRefinement : Bool}

/-- Both sides keep the same groups when they read the same confidences. -/
theorem statsAdGroups_agree (hone : OneIdentificationPerSegment rows)
    (hids : rows.adIdentifications minConfidence =
      (rows.statsAdIdentifications minConfidence).filter (fun i => (rows.segmentOf i).isSome)) :
    List.Forall₂ AdGroup.Agree (statsAdGroups extractKeywords rows minConfidence maxGap)
      (adMergerMerge extractKeywords
        ((rows.statsAdIdentifications minConfidence).filterMap rows.segmentOf)
        (rows.adIdentifications minConfidence) maxGap 12) := by
  have hnodup : (((rows.statsAdIdentifications minConfidence).filter
      (fun i => (rows.segmentOf i).isSome)).map Identification.transcriptSegmentId).Nodup :=
    (PostRows.nodup_statsAdIdentifications hone).sublist (List.filter_sublist.map _)
  rw [hids]
  apply mergeStatsAdSegments_agree
  · rw [PostRows.map_id_filterMap_segmentOf]
    exact hnodup
  · exact hnodup
  · intro i _ hid
    rw [PostRows.map_id_filterMap_segmentOf] at hid
    obtain ⟨j,hj,hji⟩ := List.mem_map.mp hid
    rw [PostRows.segmentOf_isSome_iff,← hji,← PostRows.segmentOf_isSome_iff]
    exact (List.mem_filter.mp hj).2

/-- A segment of the transcript is among the ads of both sides or of neither. -/
theorem mem_adSegmentIds_iff (hids : rows.adIdentifications minConfidence =
      (rows.statsAdIdentifications minConfidence).filter (fun i => (rows.segmentOf i).isSome))
    {s : TranscriptSegment} (hs : s ∈ rows.transcript) :
    s.id ∈ (rows.statsAdIdentifications minConfidence).map Identification.transcriptSegmentId ↔
      s.id ∈ (rows.adIdentifications minConfidence).map Identification.transcriptSegmentId := by
  rw [hids]
  constructor
  · intro hid
    obtain ⟨i,hi,his⟩ := List.mem_map.mp hid
    have hstored : (rows.segmentOf i).isSome := by
      rw [PostRows.segmentOf_isSome_iff,his]
      exact List.mem_map_of_mem hs
    exact List.mem_map.mpr ⟨i,List.mem_filter.mpr ⟨hi,hstored⟩,his⟩
  · intro hid
    exact (List.filter_sublist.map _).subset hid

/-- The Rust windows are the Python windows wherever no step tells them apart. -/
theorem buildStatsAdBlocks_eq_getAdSegments (hone : OneIdentificationPerSegment rows)
    (h : ReadAlike extractKeywords rows minConfidence maxGap enableBoundaryRefinement) :
    buildStatsAdBlocks extractKeywords rows minConfidence maxGap enableBoundaryRefinement =
      getAdSegments extractKeywords rows minConfidence maxGap enableBoundaryRefinement := by
  have hids := PostRows.adIdentifications_eq h.confidences
  have hvalid : (rows.adIdentifications minConfidence).filter
      (fun i => (rows.segmentOf i).isSome) = rows.adIdentifications minConfidence := by
    rw [hids,List.filter_filter]
    simp only [Bool.and_self]
  have hsegments : (rows.adIdentifications minConfidence).filterMap rows.segmentOf =
      (rows.statsAdIdentifications minConfidence).filterMap rows.segmentOf := by
    rw [hids,PostRows.filterMap_segmentOf_filter]
  rw [buildStatsAdBlocks,getAdSegments]
  dsimp only
  rw [hvalid,hsegments]
  by_cases hnil : (rows.statsAdIdentifications minConfidence).filterMap rows.segmentOf = []
  · rw [if_pos hnil,if_pos (.inr hnil)]
  · have hsome : ¬ (rows.adIdentifications minConfidence = [] ∨
        (rows.statsAdIdentifications minConfidence).filterMap rows.segmentOf = []) := by
      rintro (hempty | hempty)
      · rw [hempty] at hsegments
        exact hnil hsegments.symm
      · exact hnil hempty
    have hcut := map_cutWindow_agree (statsAdGroups_agree hone hids) h.blocks
    have hcontent := hasTranscriptContentBeforeFirstAd_congr
      (fun s hs => mem_adSegmentIds_iff hids hs)
    rw [if_neg hnil,if_neg hsome,applyAudio_eq h.ties,statsCutWindows,hcut]
    by_cases hgroups : statsAdGroups extractKeywords rows minConfidence maxGap = []
    · rw [← hcut,hgroups,List.map_nil,applyAudio_python_nil,applyAudio_python_nil]
    · have hlabels := h.labels hgroups
      rw [extractAudioWindows_eq hlabels,extractAudioWindows_eq hlabels]
      simp only [hcontent, if_true, Bool.false_eq_true, if_false]

end Agreement

/-- Two ad segments and a stored boundary whose original window begins at the given time. -/
def boundaryRows (origStart : ℚ) : PostRows where
  transcript := [⟨1,100,110,"a word from our sponsor"⟩,⟨2,110,120,"and back to the show"⟩]
  uniqueIds := by decide
  audio := []
  identifications := [⟨1,"ad",some (95/100),"success"⟩,⟨2,"ad",some (95/100),"success"⟩]
  refinedAdBoundaries := [⟨some origStart,some 130,some (243/2),some (261/2)⟩]

theorem buildStatsAdBlocks_eq_getAdSegments_overlapping :
    buildStatsAdBlocks (fun _ => ∅) (boundaryRows 115) (8/10) 8 true =
      getAdSegments (fun _ => ∅) (boundaryRows 115) (8/10) 8 true := by
  apply buildStatsAdBlocks_eq_getAdSegments
  · decide
  · exact ⟨.inl (by decide +kernel),by decide +kernel,by decide +kernel,
      .inr (.inl (by decide +kernel))⟩

/-- Where no ad is found no label is read, whatever it begins with. -/
example : ReadAlike (fun _ => ∅)
    {boundaryRows 122 with identifications := [],audio := [⟨0,5,"\x1cmusic"⟩]} 0 8 true :=
  ⟨by decide +kernel,by decide +kernel,by decide +kernel,.inr (.inr (.inr (by decide +kernel)))⟩

/-- A boundary two seconds after the ad moves the Rust window past the ad, not the Python one. -/
theorem buildStatsAdBlocks_ne_getAdSegments :
    OneIdentificationPerSegment (boundaryRows 122) ∧
      buildStatsAdBlocks (fun _ => ∅) (boundaryRows 122) (8/10) 8 true = [(243/2,261/2)] ∧
      getAdSegments (fun _ => ∅) (boundaryRows 122) (8/10) 8 true = [(100,120)] := by
  decide +kernel

end Podly.AdBlocks
