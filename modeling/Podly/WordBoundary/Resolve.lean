import Podly.Intervals.Coalesce
import Podly.Lists.Around
import Podly.WordBoundary.Tokens

/-! The sidecar's resolution of a refinement payload to times: `wb_refine_start`, `wb_refine_end`
and what they call. -/
namespace Podly.WordBoundary
open Serde Intervals Lists

/-- `WB_MAX_START_EXTENSION_SECONDS`, `MAX_START_EXTENSION_SECONDS`. -/
def maxStartExtensionSeconds : ℚ := 30

/-- `WB_MAX_END_EXTENSION_SECONDS`, `MAX_END_EXTENSION_SECONDS`. -/
def maxEndExtensionSeconds : ℚ := 15

/-- `WB_PHRASE_MAX_WORDS`. -/
def phraseMaxWords : ℕ := 4

structure WbSegment where
  sequenceNum : ℤ
  startTime : ℚ
  endTime : ℚ
  text : String
  /-- word-timestamp entries, maybe none -/
  words : List Value

/-- `WbExtractedPayload`. -/
structure Payload where
  startSegmentSeq : Option ℤ
  startPhrase : Option String
  endSegmentSeq : Option ℤ
  endPhrase : Option String
  startWord : Option String
  startOccurrence : Option String
  startWordIndex : Option ℤ
  startReason : String
  endReason : String
deriving DecidableEq

def findSegment (segments : List WbSegment) (seq : Option ℤ) : Option WbSegment :=
  seq.bind (fun seq => segments.find? (fun s => s.sequenceNum = seq))

variable (T : Text)

def segmentWordEntry (item : Value) : Option TimedWord :=
  let token := T.lower (normalizeToken (((item.get "word").bind Value.asStr).getD ""))
  if token = "" then none
  else some ⟨token,(item.get "start").bind Value.asF64,(item.get "end").bind Value.asF64⟩

/-- `wb_segment_word_entries`. -/
def segmentWordEntries (words : List Value) : List TimedWord := words.filterMap (segmentWordEntry T)

def estimatePhraseTimeForSegment (segment : WbSegment) (phraseTokens : List String)
    (directionEnd : Bool) : Option ℚ :=
  let timedWords := segmentWordEntries T segment.words
  let exact := (findPhraseMatch (timedWords.map TimedWord.token) phraseTokens directionEnd
    phraseMaxWords).bind (fun found => exactPhraseBoundaryTime timedWords found directionEnd)
  match exact with
  | some t => some t
  | none =>
    let endTime := max segment.endTime segment.startTime
    let duration := max (endTime - segment.startTime) 0
    let words := splitWordsLower T segment.text
    if words = [] ∨ duration ≤ 0 then none
    else (findPhraseMatch words phraseTokens directionEnd phraseMaxWords).map (fun found =>
      let secondsPerWord := duration / words.length
      let estimated := if directionEnd then segment.startTime + (found.2 + 1 : ℕ) * secondsPerWord
        else segment.startTime + found.1 * secondsPerWord
      min estimated endTime)

/-- The segments a phrase is looked for in: the preferred one, then the others of the context, from
the end of the context for an end phrase. -/
def phraseCandidates (segments context : List WbSegment) (preferredSeq : Option ℤ)
    (directionEnd : Bool) : List WbSegment :=
  let ordered := sortByKey WbSegment.sequenceNum context
  (findSegment segments preferredSeq).toList ++
    (if directionEnd then ordered.reverse else ordered).filter
      (fun s => some s.sequenceNum ≠ preferredSeq)

def estimatePhraseTime (segments context : List WbSegment) (preferredSeq : Option ℤ)
    (phrase : Option String) (directionEnd : Bool) : Option ℚ :=
  phrase.bind fun phrase =>
    let tokens := splitWordsLower T phrase
    if tokens = [] then none
    else (phraseCandidates segments context preferredSeq directionEnd).findSome?
      (fun s => estimatePhraseTimeForSegment T s tokens directionEnd)

def estimateWordTime (segments : List WbSegment) (segmentSeq : Option ℤ)
    (word occurrence : Option String) (wordIndex : Option ℤ) : ℚ :=
  match findSegment segments segmentSeq with
  | none => (segments.head?.map WbSegment.startTime).getD 0
  | some seg =>
    let endTime := max seg.endTime seg.startTime
    let duration := max (endTime - seg.startTime) 0
    let timedWords := segmentWordEntries T seg.words
    let exact := timedWords[resolveWordIndex T (timedWords.map TimedWord.token) word occurrence
      wordIndex]?.bind TimedWord.start
    match exact with
    | some t => min t endTime
    | none =>
      let words := splitWords T seg.text
      if words = [] ∨ duration ≤ 0 then seg.startTime
      else
        let secondsPerWord := duration / words.length
        min (seg.startTime + resolveWordIndex T words word occurrence wordIndex * secondsPerWord)
          endTime

def estimateSegmentBoundaryTime (segments : List WbSegment) (segmentSeq : Option ℤ)
    (boundaryEnd : Bool) : Option ℚ :=
  (findSegment segments segmentSeq).map
    (fun seg => if boundaryEnd then seg.endTime else seg.startTime)

def constrainStart (estimated orig : ℚ) : ℚ := max estimated (orig - maxStartExtensionSeconds)

def constrainEnd (estimated orig : ℚ) : ℚ := min estimated (orig + maxEndExtensionSeconds)

/-- One side of a refinement: its time, whether it changed, and its error. -/
structure Side where
  time : ℚ
  changed : Bool
  error : Option String
deriving DecidableEq

def refineStart (segments context : List WbSegment) (adStart : ℚ) (payload : Payload) : Side :=
  if hasText T payload.startPhrase then
    match estimatePhraseTime T segments context payload.startSegmentSeq payload.startPhrase
        false with
    | some est => ⟨constrainStart est adStart,true,none⟩
    | none => ⟨adStart,false,some "start_phrase_not_found"⟩
  else
    match estimateSegmentBoundaryTime segments payload.startSegmentSeq false with
    | some segStart =>
      let constrained := constrainStart segStart adStart
      ⟨constrained,constrained ≠ adStart,none⟩
    | none =>
      if hasText T payload.startWord || payload.startWordIndex.isSome then
        ⟨constrainStart (estimateWordTime T segments payload.startSegmentSeq payload.startWord
          payload.startOccurrence payload.startWordIndex) adStart,true,none⟩
      else ⟨adStart,false,none⟩

def refineEnd (segments context : List WbSegment) (adEnd : ℚ) (payload : Payload) : Side :=
  if hasText T payload.endPhrase then
    match estimatePhraseTime T segments context payload.endSegmentSeq payload.endPhrase true with
    | some est => ⟨constrainEnd est adEnd,true,none⟩
    | none => ⟨adEnd,false,some "end_phrase_not_found"⟩
  else
    match estimateSegmentBoundaryTime segments payload.endSegmentSeq true with
    | some segEnd =>
      let constrained := constrainEnd segEnd adEnd
      ⟨constrained,constrained ≠ adEnd,none⟩
    | none => ⟨adEnd,false,none⟩

/-- The segments in a range of sequence numbers two wider than the ad on both sides. -/
def contextBySeqWindow (segments : List WbSegment) (first last : ℤ) : List WbSegment :=
  match (segments.map WbSegment.sequenceNum).min?, (segments.map WbSegment.sequenceNum).max? with
  | some minSeq, some maxSeq =>
    let startSeq := max minSeq (first - 2)
    let endSeq := min maxSeq (last + 2)
    segments.filter (fun s => startSeq ≤ s.sequenceNum && s.sequenceNum ≤ endSeq)
  | _, _ => []

/-- The segments that overlap the ad in time, two more on both sides and what lies between. -/
def contextByTimeOverlap (segments : List WbSegment) (adStart adEnd : ℚ) : List WbSegment :=
  around 2 2 (fun s : WbSegment => s.startTime ≤ adEnd && adStart ≤ s.endTime) segments

/-- `select_wb_context_segments_wb`: by time if there is no window or it selects nothing. -/
def selectContext (segments : List WbSegment) (adStart adEnd : ℚ) (firstSeq lastSeq : Option ℤ) :
    List WbSegment :=
  match firstSeq, lastSeq with
  | some first, some last =>
    if contextBySeqWindow segments first last ≠ [] then contextBySeqWindow segments first last
    else contextByTimeOverlap segments adStart adEnd
  | _, _ => contextByTimeOverlap segments adStart adEnd

end Podly.WordBoundary
