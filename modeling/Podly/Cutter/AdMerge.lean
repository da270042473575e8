import Podly.Floats.Scaled
import Podly.Intervals.Runs

/-! From detected ad windows in seconds to the millisecond windows that are cut:
`AudioProcessor.merge_ad_segments` and its mirror in the sidecar, in the arithmetic that rounds every
sum, difference and product, which is the one of doubles or exact. -/
namespace Podly.Cutter
open Intervals Sweep Floats

/-- `EPISODE_EDGE_FRAGMENT_WINDOW_SECONDS`. -/
def episodeEdgeFragmentWindowSeconds : ℚ := 30

/-- `SHORT_EDGE_FRAGMENT_MERGE_GAP_SECONDS`. -/
def shortEdgeFragmentMergeGapSeconds : ℚ := 20

/-- `MIN_NEIGHBOR_AD_DURATION_FOR_EDGE_MERGE_SECONDS`. -/
def minNeighborAdDurationForEdgeMergeSeconds : ℚ := 15

/-- Python's `int` on a number: truncation toward zero. -/
def truncate (x : ℚ) : ℤ := if 0 ≤ x then ⌊x⌋ else ⌈x⌉

section Passes
variable (R : Rounding)

/-- `duration_ms / 1000.0`. -/
def audioDuration (durationMs : ℤ) : ℚ := R (R durationMs / 1000)

/-- The end of the window lies close to the end of the audio. -/
def NearEnd (audio minSeparation : ℚ) (w : ℚ × ℚ) : Prop := R (audio - w.2) < minSeparation

/-- The length filter keeps the window. -/
def IsLong (minLength : ℚ) (w : ℚ × ℚ) : Prop := R (w.2 - w.1) ≥ minLength

/-- A short first window close to the start of the episode, with a long enough neighbour close
behind it. -/
def IsLeadingFragment (minLength : ℚ) (leading following : ℚ × ℚ) : Prop :=
  leading.1 ≤ episodeEdgeFragmentWindowSeconds ∧ R (leading.2 - leading.1) < minLength ∧
    R (following.2 - following.1) ≥ minNeighborAdDurationForEdgeMergeSeconds ∧
    R (following.1 - leading.2) ≤ shortEdgeFragmentMergeGapSeconds

/-- A short last window close to the end of the episode, with a long enough neighbour close
before it. -/
def IsTrailingFragment (audioDurationSeconds minLength : ℚ) (previous trailing : ℚ × ℚ) : Prop :=
  R (audioDurationSeconds - trailing.2) ≤ episodeEdgeFragmentWindowSeconds ∧
    R (trailing.2 - trailing.1) < minLength ∧
    R (previous.2 - previous.1) ≥ minNeighborAdDurationForEdgeMergeSeconds ∧
    R (trailing.1 - previous.2) ≤ shortEdgeFragmentMergeGapSeconds

/-- The test of the `while` loop of `_merge_close_segments`. -/
def IsClose (minSeparation : ℚ) (current next : ℚ × ℚ) : Prop :=
  R (current.2 + minSeparation) ≥ next.1

instance (audio minSeparation : ℚ) (w : ℚ × ℚ) : Decidable (NearEnd R audio minSeparation w) :=
  inferInstanceAs (Decidable (_ < _))

instance (minLength : ℚ) (w : ℚ × ℚ) : Decidable (IsLong R minLength w) :=
  inferInstanceAs (Decidable (_ ≥ _))

instance (minLength : ℚ) : DecidableRel (IsLeadingFragment R minLength) :=
  fun _ _ => inferInstanceAs (Decidable (_ ∧ _ ∧ _ ∧ _))

instance (audioDurationSeconds minLength : ℚ) :
    DecidableRel (IsTrailingFragment R audioDurationSeconds minLength) :=
  fun _ _ => inferInstanceAs (Decidable (_ ∧ _ ∧ _ ∧ _))

instance (minSeparation : ℚ) : DecidableRel (IsClose R minSeparation) :=
  fun _ _ => inferInstanceAs (Decidable (_ ≥ _))

/-- `_get_last_segment_if_near_end`. -/
def getLastSegmentIfNearEnd (adSegments : List (ℚ × ℚ))
    (audioDurationSeconds minSeparation : ℚ) : Option (ℚ × ℚ) :=
  match adSegments.getLast? with
  | none => none
  | some last => if NearEnd R audioDurationSeconds minSeparation last then some last else none

/-- `_merge_short_episode_edge_segments`. Both joins keep the start of the earlier window and the
end of the later one. -/
def mergeShortEpisodeEdgeSegments (adSegments : List (ℚ × ℚ))
    (audioDurationSeconds minLength : ℚ) : List (ℚ × ℚ) :=
  if adSegments.length < 2 then adSegments else
    let merged := joinHead (IsLeadingFragment R minLength) Run.spanTo adSegments
    if merged.length < 2 then merged else
      joinLast (IsTrailingFragment R audioDurationSeconds minLength) Run.spanTo merged

/-- `_merge_close_segments`: the joined window ends where the later one ends. -/
def mergeCloseSegments (adSegments : List (ℚ × ℚ)) (minSeparation : ℚ) : List (ℚ × ℚ) :=
  joinAll (IsClose R minSeparation) Run.spanTo adSegments

/-- `_filter_short_segments`. -/
def filterShortSegments (adSegments : List (ℚ × ℚ)) (minLength : ℚ) : List (ℚ × ℚ) :=
  adSegments.filter (fun s => IsLong R minLength s)

/-- `_restore_last_segment_if_needed`. -/
def restoreLastSegmentIfNeeded (adSegments : List (ℚ × ℚ)) (lastSegment : Option (ℚ × ℚ)) :
    List (ℚ × ℚ) :=
  match lastSegment with
  | none => adSegments
  | some last =>
    if adSegments.any (fun s => s.1 ≤ last.1 ∧ s.2 ≥ last.2) then adSegments
    else adSegments ++ [last]

/-- `_extend_last_segment_to_end_if_needed`. -/
def extendLastSegmentToEndIfNeeded (adSegments : List (ℚ × ℚ))
    (audioDurationSeconds minSeparation : ℚ) : List (ℚ × ℚ) :=
  match adSegments.getLast? with
  | none => adSegments
  | some last =>
    if NearEnd R audioDurationSeconds minSeparation last then
      adSegments.dropLast ++ [(last.1,audioDurationSeconds)]
    else adSegments

/-- The passes of `merge_ad_segments` over the sorted windows, in seconds. -/
def mergedAdSegments (audioDurationSeconds : ℚ) (adSegments : List (ℚ × ℚ))
    (minLength minSeparation : ℚ) : List (ℚ × ℚ) :=
  let sorted := sortByKey toLex adSegments
  let lastSegment := getLastSegmentIfNearEnd R sorted audioDurationSeconds minSeparation
  let edges := mergeShortEpisodeEdgeSegments R sorted audioDurationSeconds minLength
  let close := mergeCloseSegments R edges minSeparation
  let long := filterShortSegments R close minLength
  let restored := restoreLastSegmentIfNeeded long lastSegment
  extendLastSegmentToEndIfNeeded R restored audioDurationSeconds minSeparation

/-- `AudioProcessor.merge_ad_segments`. -/
def mergeAdSegments (durationMs : ℤ) (adSegments : List (ℚ × ℚ))
    (minAdSegmentLengthSeconds minAdSegmentSeparationSeconds : ℚ) : List (ℤ × ℤ) :=
  if adSegments.isEmpty then [] else
    (mergedAdSegments R (audioDuration R durationMs) adSegments minAdSegmentLengthSeconds
      minAdSegmentSeparationSeconds).map (fun s => (truncate (R (s.1 * 1000)),truncate (R (s.2 * 1000))))

/-- Rust's `merge_cutter_ad_segments`, with the edge merges written inline. -/
def mergeCutterAdSegments (durationMs : ℤ) (adSegments : List (ℚ × ℚ))
    (minLength minSeparation : ℚ) : List (ℤ × ℤ) :=
  if adSegments.isEmpty then [] else
    let audioDuration : ℚ := R (R durationMs / 1000)
    let segs := sortByKey toLex adSegments
    let lastSegment := match segs.getLast? with
      | some last => if R (audioDuration - last.2) < minSeparation then some last else none
      | none => none
    let segs :=
      if segs.length ≥ 2 then
        let segs := joinHead (IsLeadingFragment R minLength) Run.spanTo segs
        if segs.length ≥ 2 then
          joinLast (IsTrailingFragment R audioDuration minLength) Run.spanTo segs
        else segs
      else segs
    let segs := joinAll (IsClose R minSeparation) Run.spanTo segs
    let segs := segs.filter (fun s => R (s.2 - s.1) ≥ minLength)
    let segs := match lastSegment with
      | some last =>
        if ¬ segs.any (fun s => s.1 ≤ last.1 ∧ s.2 ≥ last.2) then segs ++ [last] else segs
      | none => segs
    let segs := match segs.getLast? with
      | some last =>
        if R (audioDuration - last.2) < minSeparation then segs.dropLast ++ [(last.1,audioDuration)]
        else segs
      | none => segs
    segs.map (fun s => (truncate (R (s.1 * 1000)),truncate (R (s.2 * 1000))))

end Passes

variable {R : Rounding}

/-- The sidecar's mirror computes the same windows. -/
theorem mergeCutterAdSegments_eq (durationMs : ℤ) (adSegments : List (ℚ × ℚ))
    (minLength minSeparation : ℚ) :
    mergeCutterAdSegments R durationMs adSegments minLength minSeparation =
      mergeAdSegments R durationMs adSegments minLength minSeparation := by
  unfold mergeCutterAdSegments mergeAdSegments mergedAdSegments
  split
  · rfl
  · have hlast : ∀ (ws : List (ℚ × ℚ)) (audio : ℚ),
        (match ws.getLast? with
          | some last => if R (audio - last.2) < minSeparation then some last else none
          | none => none) = getLastSegmentIfNearEnd R ws audio minSeparation := by
      intro ws audio
      unfold getLastSegmentIfNearEnd
      cases ws.getLast? <;> rfl
    have hedges : ∀ (ws : List (ℚ × ℚ)) (audio : ℚ),
        (if ws.length ≥ 2 then
          if (joinHead (IsLeadingFragment R minLength) Run.spanTo ws).length ≥ 2 then
            joinLast (IsTrailingFragment R audio minLength) Run.spanTo
              (joinHead (IsLeadingFragment R minLength) Run.spanTo ws)
          else joinHead (IsLeadingFragment R minLength) Run.spanTo ws
        else ws) = mergeShortEpisodeEdgeSegments R ws audio minLength := by
      intro ws audio
      simp only [mergeShortEpisodeEdgeSegments, ← not_lt, ite_not]
    have hrestore : ∀ (ws : List (ℚ × ℚ)) (last : Option (ℚ × ℚ)),
        (match last with
          | some last =>
            if ¬ ws.any (fun s => s.1 ≤ last.1 ∧ s.2 ≥ last.2) then ws ++ [last] else ws
          | none => ws) = restoreLastSegmentIfNeeded ws last := by
      intro ws last
      unfold restoreLastSegmentIfNeeded
      cases last
      · rfl
      · exact ite_not _ _ _
    have hextend : ∀ (ws : List (ℚ × ℚ)) (audio : ℚ),
        (match ws.getLast? with
          | some last =>
            if R (audio - last.2) < minSeparation then ws.dropLast ++ [(last.1,audio)] else ws
          | none => ws) = extendLastSegmentToEndIfNeeded R ws audio minSeparation := by
      intro ws audio
      unfold extendLastSegmentToEndIfNeeded
      cases ws.getLast? <;> rfl
    have hfilter : ∀ ws : List (ℚ × ℚ),
        ws.filter (fun s => R (s.2 - s.1) ≥ minLength) = filterShortSegments R ws minLength :=
      fun _ => rfl
    have haudio : R (R durationMs / 1000) = audioDuration R durationMs := rfl
    simp only [hlast, hedges, hfilter, hrestore, hextend, haudio, mergeCloseSegments]

/-- The sorted windows after the edge joins, as runs. -/
def edgeRuns (R : Rounding) (audioDurationSeconds minLength : ℚ) (sorted : List (ℚ × ℚ)) : List (Run ℚ) :=
  joinLast (fun a b => IsTrailingFragment R audioDurationSeconds minLength a.span b.span) Run.join
    (joinHead (fun a b => IsLeadingFragment R minLength a.span b.span) Run.join
      (sorted.map Run.single))

/-- The runs of sorted windows that `merge_ad_segments` joins to one window each. -/
def adRuns (R : Rounding) (audioDurationSeconds minLength minSeparation : ℚ) (sorted : List (ℚ × ℚ)) :
    List (Run ℚ) :=
  joinAll (fun a b => IsClose R minSeparation a.span b.span) Run.join
    (edgeRuns R audioDurationSeconds minLength sorted)

theorem mergeShortEpisodeEdgeSegments_eq (adSegments : List (ℚ × ℚ)) (audio minLength : ℚ) :
    mergeShortEpisodeEdgeSegments R adSegments audio minLength =
      joinLast (IsTrailingFragment R audio minLength) Run.spanTo
        (joinHead (IsLeadingFragment R minLength) Run.spanTo adSegments) := by
  unfold mergeShortEpisodeEdgeSegments
  split
  · rename_i h
    rw [joinHead_of_length_lt _ _ h,joinLast_of_length_lt _ _ h]
  · dsimp only
    split
    · rename_i h
      rw [joinLast_of_length_lt _ _ h]
    · rfl

/-- The spans of the runs are the windows the code holds after the close merge. -/
theorem map_span_adRuns (audio minLength minSeparation : ℚ) (sorted : List (ℚ × ℚ)) :
    (adRuns R audio minLength minSeparation sorted).map Run.span =
      mergeCloseSegments R (mergeShortEpisodeEdgeSegments R sorted audio minLength)
        minSeparation := by
  rw [mergeShortEpisodeEdgeSegments_eq,mergeCloseSegments,adRuns,
    map_joinAll Run.span (fun _ _ => Iff.rfl) Run.span_join,edgeRuns,
    map_joinLast Run.span (fun _ _ => Iff.rfl) Run.span_join,
    map_joinHead Run.span (fun _ _ => Iff.rfl) Run.span_join,Run.map_span_single]

/-- The runs are a partition of the sorted windows. -/
theorem flatMap_windows_adRuns (audio minLength minSeparation : ℚ) (sorted : List (ℚ × ℚ)) :
    (adRuns R audio minLength minSeparation sorted).flatMap Run.windows = sorted := by
  rw [adRuns,flatMap_joinAll Run.windows_join,edgeRuns,flatMap_joinLast Run.windows_join,
    flatMap_joinHead Run.windows_join,Run.flatMap_windows_single]

end Podly.Cutter
