import Mathlib.Algebra.Order.Group.Unbundled.Abs
import Mathlib.Algebra.Order.Field.Rat
import Podly.Classifier.Chunks
import Podly.Classifier.Records
import Podly.Intervals.Coalesce
import Podly.Lists.FirstBest

/-! What the classifier computes from rows it has read: the identifications of a chunk, those of
neighbouring segments, the blocks of ads, and the segments a refined block keeps. -/
namespace Podly.Classifier
open Store Intervals

/-- `AdSegmentPrediction`. -/
structure AdSegmentPrediction where
  segmentOffset : ℚ
  confidence : ℚ

inductive ContentType
  | technicalDiscussion
  | educationalSelfPromo
  | promotionalExternal
  | transition
deriving DecidableEq

/-- `AdSegmentPredictionList`. -/
structure AdSegmentPredictionList where
  adSegments : List AdSegmentPrediction
  contentType : Option ContentType

/-- `_adjust_confidence`. -/
def adjustConfidence (baseConfidence : ℚ) : Option ContentType → ℚ
  | some .educationalSelfPromo | some .technicalDiscussion => max 0 (baseConfidence - 1/4)
  | some .transition => max 0 (baseConfidence - 1/10)
  | some .promotionalExternal | none => baseConfidence

/-- `_find_matching_segment`: the first of the nearest segments, nearer than half a second. -/
def findMatchingSegment (segmentOffset : ℚ) (chunk : List TranscriptSegment) :
    Option TranscriptSegment :=
  FirstBest.firstBest (fun s => 1/2 - |s.startTime - segmentOffset|) chunk

/-- `_segment_has_ad_identification`. -/
def hasAdIdentification (identifications : IdentificationTable) (segmentId : ℤ) : Bool :=
  identifications.rows.any (fun old => old.transcriptSegmentId = segmentId)

/-- The rows to insert for a chunk and its matched segments, whose ids are the processed ones. -/
structure Matching where
  toInsert : List NewIdentification
  matched : List TranscriptSegment

def Matching.processed (m : Matching) : List ℤ := m.matched.map TranscriptSegment.id

section Create
variable (identifications : IdentificationTable) (modelCallId : ℕ) (minConfidence : ℚ)

/-- One segment of the look-back in `_maybe_add_preroll_context`. -/
def addPreroll (baseConfidence : ℚ) (m : Matching) (segment : TranscriptSegment) : Matching :=
  if segment.id ∈ m.processed ∨ hasAdIdentification identifications segment.id then m
  else ⟨m.toInsert ++ [⟨segment.id,modelCallId,max baseConfidence minConfidence⟩],
    m.matched ++ [segment]⟩

/-- The segments that `_maybe_add_preroll_context` looks back at. -/
def prerollSegments (chunk : List TranscriptSegment) (segment : TranscriptSegment) :
    List TranscriptSegment :=
  if segment.startTime > 45 then []
  else
    let index := chunk.findIdx (fun s => s.id = segment.id)
    (chunk.take index).drop (index - 3)

/-- One prediction of `_create_identifications`. -/
def createIdentification (chunk : List TranscriptSegment) (contentType : Option ContentType)
    (m : Matching) (prediction : AdSegmentPrediction) : Matching :=
  let confidence := adjustConfidence prediction.confidence contentType
  if confidence < minConfidence then m
  else
    match findMatchingSegment prediction.segmentOffset chunk with
    | none => m
    | some segment =>
      if segment.id ∈ m.processed then m
      else if hasAdIdentification identifications segment.id then
        ⟨m.toInsert,m.matched ++ [segment]⟩
      else
        (prerollSegments chunk segment).foldl
          (addPreroll identifications modelCallId minConfidence confidence)
          ⟨m.toInsert ++ [⟨segment.id,modelCallId,confidence⟩],m.matched ++ [segment]⟩

/-- `_create_identifications`. -/
def createIdentifications (chunk : List TranscriptSegment)
    (predictions : AdSegmentPredictionList) : Matching :=
  predictions.adSegments.foldl
    (createIdentification identifications modelCallId minConfidence chunk predictions.contentType)
    ⟨[],[]⟩

end Create

/-- The transcript of a post: its segments are numbered without repetition, from zero on. -/
structure PostTranscript where
  segments : Transcript
  sequence_nodup : (segments.rows.map TranscriptSegment.sequenceNum).Nodup
  sequence_nonneg : ∀ s ∈ segments.rows, 0 ≤ s.sequenceNum

/-- Two segments of ten seconds. -/
def PostTranscript.twoSegments : PostTranscript where
  segments := ⟨[⟨0,0,0,some 10,"",none⟩,⟨1,1,10,some 20,"",none⟩],by decide⟩
  sequence_nodup := by decide
  sequence_nonneg := by decide

def PostTranscript.bySequenceNum (transcript : PostTranscript) (sequenceNum : ℤ) :
    Option TranscriptSegment :=
  transcript.segments.rows.find? (fun s => s.sequenceNum = sequenceNum)

/-- An identification joined with its segment. -/
structure AdRow where
  identification : Identification
  segment : TranscriptSegment

/-- The order in which the database returns rows that no `order_by` sorts. -/
structure RowOrder where
  order : List AdRow → List AdRow
  perm : ∀ rows, (order rows).Perm rows

/-- By segment, and for a segment by the call: the order of the two indexes that SQLite walks. -/
def RowOrder.bySegment : RowOrder where
  order := sortByKey (fun row => toLex (row.segment.sequenceNum,row.identification.modelCallId))
  perm := sortByKey_perm _

/-- The ad identifications of the segments of a post, in the order of the query. -/
def adIdentifications (rowOrder : RowOrder) (transcript : PostTranscript)
    (identifications : IdentificationTable) : List AdRow :=
  rowOrder.order (identifications.rows.filterMap fun identification =>
    (transcript.segments.get identification.transcriptSegmentId).map
      (fun segment => ⟨identification,segment⟩))

theorem mem_adIdentifications {t : IdentificationTable} {rowOrder : RowOrder}
    {transcript : PostTranscript} {row : AdRow} :
    row ∈ adIdentifications rowOrder transcript t ↔ row.identification ∈ t.rows ∧
      row.segment ∈ transcript.segments.rows ∧
        row.segment.id = row.identification.transcriptSegmentId := by
  rw [adIdentifications,(rowOrder.perm _).mem_iff,List.mem_filterMap]
  constructor
  · rintro ⟨identification,hmem,hjoined⟩
    obtain ⟨segment,hsegment,rfl⟩ := Option.map_eq_some_iff.mp hjoined
    exact ⟨hmem,Table.get_eq_some.mp hsegment⟩
  · rintro ⟨hmem,hsegment⟩
    exact ⟨row.identification,hmem,Option.map_eq_some_iff.mpr
      ⟨row.segment,Table.get_eq_some.mpr hsegment,rfl⟩⟩

/-- What `CueDetector.analyze` finds in a text; a strong cue is a url, a promotion, a phone number
or a call to action. -/
structure Signals where
  strongCue : Bool
  transition : Bool
  selfPromo : Bool

/-- `_should_expand_neighbor`. -/
def shouldExpandNeighbor (enableBoundaryRefinement : Bool) (signals : Signals) (gapSeconds : ℚ) :
    Bool :=
  if enableBoundaryRefinement then
    signals.strongCue || signals.transition || gapSeconds ≤ 10
  else signals.strongCue

/-- `_neighbor_confidence`. -/
def neighborConfidence (signals : Signals) (gapSeconds : ℚ) : ℚ :=
  let confidence : ℚ :=
    if signals.strongCue then if gapSeconds ≤ 10 then 85/100 else 8/10
    else if signals.transition then 72/100 else 75/100
  if signals.selfPromo then max (1/2) (confidence - 1/4) else confidence

/-- The segments within the window around a segment, from first to last. -/
def neighbors (transcript : PostTranscript) (window : ℕ) (segment : TranscriptSegment) :
    List TranscriptSegment :=
  ((List.range (2 * window + 1)).map (fun n : ℕ => (n : ℤ) - window)).filterMap fun offset =>
    if offset = 0 then none else transcript.bySequenceNum (segment.sequenceNum + offset)

section Expand
variable (transcript : PostTranscript) (analyze : String → Signals)
  (enableBoundaryRefinement : Bool) (modelCallId : ℕ)

/-- One neighbour in `expand_neighbors_bulk`, over the segments that have an identification of the
call and the rows to create. -/
def expandNeighbor (ad : TranscriptSegment) (state : List ℤ × List NewIdentification)
    (segment : TranscriptSegment) : List ℤ × List NewIdentification :=
  let signals := analyze segment.text
  let gapSeconds := |segment.startTime - ad.startTime|
  if segment.id ∈ state.1 then state
  else if shouldExpandNeighbor enableBoundaryRefinement signals gapSeconds then
    (segment.id::state.1,
      state.2 ++ [⟨segment.id,modelCallId,neighborConfidence signals gapSeconds⟩])
  else state

/-- The rows that `expand_neighbors_bulk` creates. -/
def expandNeighborsBulk (window : ℕ) (ads : List AdRow) : List NewIdentification :=
  let existing := (ads.filter (fun ad => ad.identification.modelCallId = modelCallId)).map
    (fun ad => ad.segment.id)
  (ads.foldl (fun state ad => (neighbors transcript window ad.segment).foldl
    (expandNeighbor analyze enableBoundaryRefinement modelCallId ad.segment) state)
    (existing,[])).2

end Expand

/-- A block of ads, as `_create_block` makes it of one identification or more. -/
structure Block where
  first : AdRow
  rest : List AdRow

namespace Block

def rows (block : Block) : List AdRow := block.first::block.rest

def segments (block : Block) : List TranscriptSegment := block.rows.map AdRow.segment

def start (block : Block) : ℚ :=
  (block.rest.map (fun row => row.segment.startTime)).foldl min block.first.segment.startTime

/-- The end of a segment. -/
def stopOf (segment : TranscriptSegment) : ℚ := segment.endTime.getD segment.startTime

def stop (block : Block) : ℚ :=
  (block.rest.map (fun row => stopOf row.segment)).foldl max (stopOf block.first.segment)

/-- The mean of the confidences. -/
def confidence (block : Block) : ℚ :=
  (block.rows.map (fun row => row.identification.confidence)).sum / block.rows.length

def firstSequenceNum (block : Block) : ℤ :=
  (block.rest.map (fun row => row.segment.sequenceNum)).foldl min block.first.segment.sequenceNum

def lastSequenceNum (block : Block) : ℤ :=
  (block.rest.map (fun row => row.segment.sequenceNum)).foldl max block.first.segment.sequenceNum

end Block

/-- `_create_block`. -/
def createBlock : List AdRow → Option Block
  | [] => none
  | first::rest => some ⟨first,rest⟩

/-- `_group_into_blocks`: a row that starts at most ten seconds after the end of the row before it
joins its block. -/
def groupIntoBlocks (ads : List AdRow) : List Block :=
  ((sortByKey (fun ad => ad.segment.startTime) ads).splitBy (fun before ad =>
    ad.segment.startTime - Block.stopOf before.segment ≤ 10)).filterMap createBlock

/-- `seg_end` in `_apply_refinement`, where an end of zero counts as none. -/
def refinementEnd (segment : TranscriptSegment) : ℚ :=
  match segment.endTime with
  | some stop => if stop = 0 then segment.startTime else stop
  | none => segment.startTime

/-- The rows that `_apply_refinement` creates: one for each segment that overlaps the window. -/
def refinedIdentifications (transcript : PostTranscript) (block : Block) (window : ℚ × ℚ)
    (modelCallId : ℕ) : List NewIdentification :=
  (transcript.segments.rows.filter (fun segment =>
    segment.startTime ≤ window.2 ∧ window.1 ≤ refinementEnd segment)).map
    (fun segment => ⟨segment.id,modelCallId,block.confidence⟩)

end Podly.Classifier
