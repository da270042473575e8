import Mathlib.Tactic.NormNum
import Podly.AdBlocks.Groups
import Podly.WordBoundary.Tokens
import Podly.Writer.ProcessedPaths

/-! Audio windows around ads: which audio segments count, how they bridge the gap between two ads
and how they extend the first ad to the start of the episode. The mirrors differ in what they trim
off a label and in how they sort the ads before extending the first one. -/
namespace Podly.AdBlocks
open Intervals Sweep

/-- A row of `audio_segment`. -/
structure AudioSegment where
  startTime : ℚ
  endTime : ℚ
  label : String
deriving DecidableEq

/-- Rust's `str::trim`. -/
def trim : String → String := WordBoundary.trimBoth WordBoundary.isWhitespace

/-- Python's `str.strip`. -/
def strip : String → String := WordBoundary.trimBoth Writer.isSpace

/-- Drop the underscores and lower the case. ASCII is enough: no other letter is lowered to one
that occurs in the labels that are looked for. -/
def foldLabel (s : String) : String :=
  String.ofList ((s.toList.filter (· ≠ '_')).map Char.toLower)

/-- Rust's `normalize_audio_label`. -/
def normalizeAudioLabel (label : String) : String := foldLabel (trim label)

/-- Python's `normalize_audio_segment_label`. -/
def normalizeAudioSegmentLabel (label : String) : Option String :=
  if strip label = "" then none else some (foldLabel (strip label))

/-- `BRIDGEABLE_AUDIO_LABELS`. -/
def bridgeableAudioLabels : List String := ["music","silence","noenergy"]

/-- `EDGE_EXPANSION_AUDIO_LABELS`. -/
def edgeExpansionAudioLabels : List String := ["music","silence","noenergy","speech"]

/-- Python's `_merge_time_windows`. -/
def mergeTimeWindows (gapSeconds : ℚ) (windows : List (ℚ × ℚ)) : List (ℚ × ℚ) :=
  coalesce (fun e => e + gapSeconds) (sortByKey Prod.fst (windows.filter (fun w => w.1 < w.2)))

/-- Rust's `merge_float_windows`. -/
def mergeFloatWindows (gapSeconds : ℚ) (windows : List (ℚ × ℚ)) : List (ℚ × ℚ) :=
  (sortByKey Prod.fst (windows.filter (fun w => w.1 < w.2))).foldl
    (joinPush (fun last w => w.1 ≤ last.2 + gapSeconds) extend) []

/-- The windows of the segments whose label is wanted. -/
def windowsWith (wanted : String → Bool) (segments : List AudioSegment) : List (ℚ × ℚ) :=
  (segments.filter (fun s => wanted s.label ∧ s.startTime < s.endTime)).map
    (fun s => (s.startTime,s.endTime))

/-- Rust's `extract_audio_windows`. -/
def extractAudioWindowsRust (segments : List AudioSegment) (includeSpeech : Bool) :
    List (ℚ × ℚ) :=
  let allowed := if includeSpeech then edgeExpansionAudioLabels else bridgeableAudioLabels
  mergeFloatWindows (3/4) (windowsWith (fun label => normalizeAudioLabel label ∈ allowed) segments)

/-- Python's `extract_audio_windows`; `extract_edge_audio_windows` passes the other labels. -/
def extractAudioWindows (allowed : List String) (segments : List AudioSegment) : List (ℚ × ℚ) :=
  mergeTimeWindows (3/4)
    (windowsWith (fun label => (normalizeAudioSegmentLabel label).any (· ∈ allowed)) segments)

/-- The loop of `gap_is_covered_by_audio`. -/
def coversUpTo (gapEnd tolerance : ℚ) (coverage : ℚ) : List (ℚ × ℚ) → Bool
  | [] => false
  | w::ws =>
    if w.2 < coverage - tolerance then coversUpTo gapEnd tolerance coverage ws
    else if w.1 > coverage + tolerance then false
    else if max coverage w.2 ≥ gapEnd - tolerance then true
    else coversUpTo gapEnd tolerance (max coverage w.2) ws

/-- `gap_is_covered_by_audio`, `_gap_is_covered_by_audio`. -/
def gapIsCoveredByAudio (gapStart gapEnd : ℚ) (audioWindows : List (ℚ × ℚ)) (tolerance : ℚ) :
    Bool :=
  if gapEnd ≤ gapStart then true else coversUpTo gapEnd tolerance gapStart audioWindows

/-- Join neighbouring ads when audio covers the gap between them. -/
def bridgeMerged (mergedAds mergedAudio : List (ℚ × ℚ)) : List (ℚ × ℚ) :=
  if mergedAds.length ≤ 1 ∨ mergedAudio = [] then mergedAds
  else mergedAds.foldl (joinPush
    (fun cur next => gapIsCoveredByAudio cur.2 next.1 mergedAudio (3/4))
    (fun cur next => (cur.1,next.2))) []

/-- Rust's `bridge_ad_windows_with_audio`. -/
def bridgeAdWindowsWithAudioRust (adWindows audioWindows : List (ℚ × ℚ)) : List (ℚ × ℚ) :=
  bridgeMerged (mergeFloatWindows 0 adWindows) (mergeFloatWindows (3/4) audioWindows)

/-- Python's `bridge_ad_windows_with_audio`. -/
def bridgeAdWindowsWithAudio (adWindows audioWindows : List (ℚ × ℚ)) : List (ℚ × ℚ) :=
  bridgeMerged (mergeTimeWindows 0 adWindows) (mergeTimeWindows (3/4) audioWindows)

/-- The loop of `_covered_audio_start`, over the audio from the last window to the first: how far
back the audio reaches without a gap, and whether it reached anything. -/
def leadingCoverage (tolerance : ℚ) (state : ℚ × Bool) : List (ℚ × ℚ) → ℚ × Bool
  | [] => state
  | w::ws =>
    if w.2 < state.1 - tolerance then state
    else if w.1 > state.1 + tolerance then leadingCoverage tolerance state ws
    else leadingCoverage tolerance (min state.1 w.1,true) ws

/-- `_covered_audio_start`. -/
def coveredAudioStart (targetStart : ℚ) (latestFirst : List (ℚ × ℚ)) : Option ℚ :=
  let covered := leadingCoverage (3/4) (targetStart,false) latestFirst
  if covered.2 ∧ covered.1 ≤ 30 then some (max 0 covered.1) else none

/-- Move the start of the first ad back over the audio before it. -/
def expandFirst (latestFirst : List (ℚ × ℚ)) : List (ℚ × ℚ) → List (ℚ × ℚ)
  | [] => []
  | first::rest =>
    if latestFirst = [] then first::rest
    else if first.1 ≤ 30 then
      match coveredAudioStart first.1 latestFirst with
      | some start => (start,first.2)::rest
      | none => first::rest
    else first::rest

/-- Rust's `expand_episode_edge_ad_windows_with_audio`: the ads in order of starts. -/
def expandEpisodeEdgeRust (adWindows edgeAudioWindows : List (ℚ × ℚ)) : List (ℚ × ℚ) :=
  expandFirst (mergeFloatWindows (3/4) edgeAudioWindows).reverse (sortByKey Prod.fst adWindows)

/-- Python's `expand_episode_edge_ad_windows_with_audio`: ads and audio sorted as pairs. -/
def expandEpisodeEdge (adWindows edgeAudioWindows : List (ℚ × ℚ)) : List (ℚ × ℚ) :=
  expandFirst (sortByKey toLex (mergeTimeWindows (3/4) edgeAudioWindows)).reverse
    (sortByKey toLex adWindows)

/-- `has_transcript_content_before_first_ad`, `_has_transcript_content_before_first_ad`. -/
def hasTranscriptContentBeforeFirstAd (transcript : List TranscriptSegment)
    (adWindows : List (ℚ × ℚ)) (adSegmentIds : List ℤ) : Bool :=
  match (adWindows.map Prod.fst).min? with
  | none => false
  | some firstStart =>
    if firstStart > 30 then false
    else transcript.any (fun s => s.startTime < firstStart ∧ s.id ∉ adSegmentIds)

/-- Both loops that merge windows are one sweep. -/
theorem mergeFloatWindows_eq (gapSeconds : ℚ) (windows : List (ℚ × ℚ)) :
    mergeFloatWindows gapSeconds windows = mergeTimeWindows gapSeconds windows :=
  foldl_joinPush _ _ _

/-- Merged windows start one strictly after the other. -/
theorem mergeTimeWindows_starts {gapSeconds : ℚ} (h : 0 ≤ gapSeconds) (windows : List (ℚ × ℚ)) :
    (mergeTimeWindows gapSeconds windows).Pairwise (fun a b => a.1 < b.1) := by
  have hsep : Separated (mergeTimeWindows gapSeconds windows) := by
    apply coalesce_separated (fun a => le_add_of_nonneg_right h) (sortByKey_sorted Prod.fst _)
    intro w hw
    simpa using (List.mem_filter.mp ((mem_sortByKey _ _ w).mp hw)).2
  apply hsep.ordered.imp_of_mem
  intro a b ha _ hab
  exact (hsep.nonempty a ha).trans hab

theorem bridgeMerged_starts {mergedAds mergedAudio : List (ℚ × ℚ)}
    (h : mergedAds.Pairwise (fun a b => a.1 < b.1)) :
    (bridgeMerged mergedAds mergedAudio).Pairwise (fun a b => a.1 < b.1) := by
  unfold bridgeMerged
  split
  · exact h
  · rw [foldl_joinPush]
    apply List.pairwise_map.mp
    refine List.Pairwise.sublist ?_ (List.pairwise_map.mpr h)
    apply map_joinAll_sublist Prod.fst
    intro a b
    rfl

theorem bridgeAdWindowsWithAudio_eq (adWindows audioWindows : List (ℚ × ℚ)) :
    bridgeAdWindowsWithAudioRust adWindows audioWindows =
      bridgeAdWindowsWithAudio adWindows audioWindows := by
  rw [bridgeAdWindowsWithAudioRust,bridgeAdWindowsWithAudio,mergeFloatWindows_eq,
    mergeFloatWindows_eq]

/-- Bridged ads start one strictly after the other. -/
theorem bridgeAdWindowsWithAudio_ties (adWindows audioWindows : List (ℚ × ℚ)) :
    TiesInOrder (bridgeAdWindowsWithAudio adWindows audioWindows) :=
  tiesInOrder_of_lt (bridgeMerged_starts (mergeTimeWindows_starts le_rfl adWindows))

/-- The edge expansions agree on ads whose ties are in order. -/
theorem expandEpisodeEdge_eq {adWindows : List (ℚ × ℚ)} (h : TiesInOrder adWindows)
    (edgeAudioWindows : List (ℚ × ℚ)) :
    expandEpisodeEdgeRust adWindows edgeAudioWindows =
      expandEpisodeEdge adWindows edgeAudioWindows := by
  have hstarts : (mergeTimeWindows (3/4) edgeAudioWindows).Pairwise (fun a b => a.1 < b.1) :=
    mergeTimeWindows_starts (by norm_num : (0 : ℚ) ≤ 3/4) edgeAudioWindows
  rw [expandEpisodeEdgeRust,expandEpisodeEdge,mergeFloatWindows_eq,sortByKey_toLex_eq h,
    sortByKey_toLex_eq (tiesInOrder_of_lt hstarts),
    sortByKey_of_sorted (hstarts.imp fun hlt => hlt.le)]

/-- A label that both languages trim alike is wanted by both or by neither. -/
theorem normalizeAudioSegmentLabel_any {allowed : List String} (hempty : "" ∉ allowed)
    {label : String} (h : trim label = strip label) :
    (normalizeAudioSegmentLabel label).any (· ∈ allowed) =
      decide (normalizeAudioLabel label ∈ allowed) := by
  rw [normalizeAudioSegmentLabel,normalizeAudioLabel,h]
  split
  · rename_i hnil
    have hfold : foldLabel "" = "" := by decide
    rw [hnil,hfold,Option.any_none,decide_eq_false hempty]
  · exact Option.any_some

/-- Both sides count a label among the bridgeable ones, or neither does, and among the ones at the
edges. -/
def CountedAlike (label : String) : Prop :=
  ∀ allowed ∈ [bridgeableAudioLabels,edgeExpansionAudioLabels],
    (normalizeAudioSegmentLabel label).any (· ∈ allowed) = decide (normalizeAudioLabel label ∈ allowed)

instance (label : String) : Decidable (CountedAlike label) :=
  inferInstanceAs (Decidable (∀ allowed ∈ _, _))

/-- Only white space at the ends that one language trims and the other keeps can tell them apart. -/
theorem CountedAlike.of_trim_eq_strip {label : String} (h : trim label = strip label) :
    CountedAlike label := by
  intro allowed hallowed
  apply normalizeAudioSegmentLabel_any _ h
  simp only [List.mem_cons, List.not_mem_nil, or_false] at hallowed
  rcases hallowed with rfl | rfl <;> decide

/-- Windows of no length are dropped before their labels matter. -/
theorem extractAudioWindows_eq {segments : List AudioSegment}
    (h : ∀ s ∈ segments, s.startTime < s.endTime → CountedAlike s.label) (includeSpeech : Bool) :
    extractAudioWindowsRust segments includeSpeech = extractAudioWindows
      (if includeSpeech then edgeExpansionAudioLabels else bridgeableAudioLabels) segments := by
  have hallowed : (if includeSpeech then edgeExpansionAudioLabels else bridgeableAudioLabels) ∈
      [bridgeableAudioLabels,edgeExpansionAudioLabels] := by
    cases includeSpeech <;> simp
  rw [extractAudioWindowsRust,extractAudioWindows,mergeFloatWindows_eq,windowsWith,windowsWith]
  congr 2
  apply List.filter_congr
  intro s hs
  rw [decide_eq_decide]
  apply and_congr_left
  intro hlong
  rw [h s hs hlong _ hallowed]

end Podly.AdBlocks
