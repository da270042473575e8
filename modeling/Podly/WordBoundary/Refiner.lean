import Podly.WordBoundary.FromLlm

/-! `WordBoundaryRefiner.refine`: the reply of the model resolved by the sidecar or in Python, and
the guards that follow. A Python computation that raises is `none`; all of them end in the same
fallback. -/
namespace Podly.WordBoundary
open Serde Intervals

/-- What Python makes of JSON values: lower case and white space, numerals in strings, and `str` of
values that are no strings. -/
structure Python where
  text : Text
  numerals : Numerals
  repr : Value → String

namespace Python
variable (P : Python)

/-- `str(value)`. -/
def str : Value → String
  | .str s => s
  | value => P.repr value

/-- `int(value)`. -/
def int : Value → Option ℤ
  | .bool b => some (if b then 1 else 0)
  | .int n => some n
  | .float q => some (truncate q)
  | .str s => P.numerals.toInt s
  | _ => none

/-- `float(value)`. -/
def float : Value → Option ℚ
  | .bool b => some (if b then 1 else 0)
  | .int n => some n
  | .float q => some q
  | .str s => P.numerals.toFloat s
  | _ => none

end Python

/-- `bool(value)`. -/
def isTruthy : Value → Bool
  | .null => false
  | .bool b => b
  | .int n => n ≠ 0
  | .float q => q ≠ 0
  | .str s => s ≠ ""
  | .array items => !items.isEmpty
  | .object fields => !fields.isEmpty

/-- `value is None`. -/
def isNull : Value → Bool
  | .null => true
  | _ => false

/-- `dict.get`, with `None` for a missing key. -/
def getOrNull (key : String) (value : Value) : Value := (value.get key).getD .null

/-- The payload as Python extracts it: the values as the reply has them. -/
structure PythonPayload where
  startSegmentSeq : Value
  startPhrase : Value
  endSegmentSeq : Value
  endPhrase : Value
  startWord : Value
  startOccurrence : Value
  startWordIndex : Value
  startReason : String
  endReason : String

/-- One side with its reason. -/
structure RefinedSide where
  time : ℚ
  changed : Bool
  reason : String
deriving DecidableEq

structure WordBoundaryRefinement where
  refinedStart : ℚ
  refinedEnd : ℚ
  startAdjustmentReason : String
  endAdjustmentReason : String
deriving DecidableEq

section
variable (P : Python)

/-- `_extract_payload`. -/
def extractPayload (parsed : Value) : PythonPayload :=
  let reason := fun key =>
    let value := getOrNull key parsed
    if isTruthy value then P.str value else ""
  { startSegmentSeq := getOrNull "refined_start_segment_seq" parsed,
    startPhrase := getOrNull "refined_start_phrase" parsed,
    endSegmentSeq := getOrNull "refined_end_segment_seq" parsed,
    endPhrase := getOrNull "refined_end_phrase" parsed,
    startWord := getOrNull "refined_start_word" parsed,
    startOccurrence := match getOrNull "occurrence" parsed with
      | .null => getOrNull "occurance" parsed
      | occurrence => occurrence,
    startWordIndex := getOrNull "refined_start_word_index" parsed,
    startReason := reason "start_adjustment_reason",
    endReason := reason "end_adjustment_reason" }

/-- A value as an optional string: `None` stays away, everything else goes through `str`. -/
def optionalStr : Value → Option String
  | .null => none
  | value => some (P.str value)

/-- `_has_text`. -/
def pyHasText (value : Value) : Bool := hasText P.text (optionalStr P value)

/-- One word of `_segment_word_entries`: skipped without token, and raising on a time that is no
number. -/
def pySegmentWordEntry (item : Value) : Option (Option TimedWord) :=
  match getOrNull "word" item with
  | .null => some none
  | tokenRaw =>
    let token := P.text.lower (normalizeToken (P.str tokenRaw))
    let time := fun key => match getOrNull key item with
      | .null => some none
      | value => (P.float value).map some
    if token = "" then some none
    else
      match time "start", time "end" with
      | some start, some stop => some (some ⟨token,start,stop⟩)
      | _, _ => none

/-- `_segment_word_entries`. -/
def pySegmentWordEntries (segment : WbSegment) : Option (List TimedWord) :=
  (segment.words.mapM (pySegmentWordEntry P)).map (List.filterMap id)

/-- `_estimate_phrase_time_for_segment`. -/
def pyEstimatePhraseTimeForSegment (phraseTokens : List String) (directionEnd : Bool)
    (segment : WbSegment) : Option (Option ℚ) :=
  (pySegmentWordEntries P segment).map fun timedWords =>
    let exact := (findPhraseMatch (timedWords.map TimedWord.token) phraseTokens directionEnd 4).bind
      (fun found => exactPhraseBoundaryTime timedWords found directionEnd)
    match exact with
    | some t => some t
    | none =>
      let duration := max 0 (segment.endTime - segment.startTime)
      let words := splitWordsLower P.text segment.text
      if words = [] ∨ duration ≤ 0 then none
      else (findPhraseMatch words phraseTokens directionEnd 4).map (fun found =>
        let secondsPerWord := duration / words.length
        let estimated := if directionEnd then
            segment.startTime + (found.2 + 1 : ℕ) * secondsPerWord
          else segment.startTime + found.1 * secondsPerWord
        min estimated segment.endTime)

/-- The first estimate among the candidates, unless one before it raises. -/
def firstEstimate (estimate : WbSegment → Option (Option ℚ)) : List WbSegment → Option (Option ℚ)
  | [] => some none
  | s::candidates =>
    match estimate s with
    | none => none
    | some (some t) => some (some t)
    | some none => firstEstimate estimate candidates

/-- `_estimate_phrase_time`. -/
def pyEstimatePhraseTime (allSegments contextSegments : List WbSegment)
    (preferredSegmentSeq phrase : Value) (directionEnd : Bool) : Option (Option ℚ) :=
  let tokens := splitWordsLower P.text (if isTruthy phrase then P.str phrase else "")
  if tokens = [] then some none
  else firstEstimate (pyEstimatePhraseTimeForSegment P tokens directionEnd)
    (phraseCandidates allSegments contextSegments (P.int preferredSegmentSeq) directionEnd)

/-- `_estimate_word_time`. -/
def pyEstimateWordTime (allSegments : List WbSegment) (segmentSeq word occurrence wordIndex : Value) :
    Option ℚ :=
  match findSegment allSegments (P.int segmentSeq) with
  | none => some ((allSegments.head?.map WbSegment.startTime).getD 0)
  | some seg =>
    let resolved := fun words =>
      resolveWordIndex P.text words (optionalStr P word) (optionalStr P occurrence) (P.int wordIndex)
    (pySegmentWordEntries P seg).map fun timedWords =>
      let exact := timedWords[resolved (timedWords.map TimedWord.token)]?.bind TimedWord.start
      match exact with
      | some t => min t seg.endTime
      | none =>
        let duration := max 0 (seg.endTime - seg.startTime)
        let words := splitWords P.text seg.text
        if words = [] ∨ duration ≤ 0 then seg.startTime
        else min (seg.startTime + resolved words * (duration / words.length)) seg.endTime

/-- `_refine_start`. -/
def pyRefineStart (adStart : ℚ) (allSegments contextSegments : List WbSegment)
    (payload : PythonPayload) : Option RefinedSide :=
  if pyHasText P payload.startPhrase then
    (pyEstimatePhraseTime P allSegments contextSegments payload.startSegmentSeq payload.startPhrase
      false).map fun
      | none => ⟨adStart,false,payload.startReason⟩
      | some est => ⟨constrainStart est adStart,true,payload.startReason⟩
  else
    match estimateSegmentBoundaryTime allSegments (P.int payload.startSegmentSeq) false with
    | some segmentStart =>
      let constrained := constrainStart segmentStart adStart
      some ⟨constrained,constrained ≠ adStart,payload.startReason⟩
    | none =>
      if pyHasText P payload.startWord || !isNull payload.startWordIndex then
        (pyEstimateWordTime P allSegments payload.startSegmentSeq payload.startWord
          payload.startOccurrence payload.startWordIndex).map fun est =>
            ⟨constrainStart est adStart,true,payload.startReason⟩
      else some ⟨adStart,false,if payload.startReason = "" then "unchanged" else payload.startReason⟩

/-- `_refine_end`. -/
def pyRefineEnd (adEnd : ℚ) (allSegments contextSegments : List WbSegment)
    (payload : PythonPayload) : Option RefinedSide :=
  if pyHasText P payload.endPhrase then
    (pyEstimatePhraseTime P allSegments contextSegments payload.endSegmentSeq payload.endPhrase
      true).map fun
      | none => ⟨adEnd,false,payload.endReason⟩
      | some est => ⟨constrainEnd est adEnd,true,payload.endReason⟩
  else
    match estimateSegmentBoundaryTime allSegments (P.int payload.endSegmentSeq) true with
    | some segmentEnd =>
      let constrained := constrainEnd segmentEnd adEnd
      some ⟨constrained,constrained ≠ adEnd,
        if payload.endReason = "" then "refined" else payload.endReason⟩
    | none =>
      some ⟨adEnd,false,if payload.endReason = "" then "unchanged" else payload.endReason⟩

end

/-- `_fallback`. -/
def fallback (adStart adEnd : ℚ) : WordBoundaryRefinement :=
  ⟨adStart,adEnd,"heuristic_fallback","unchanged"⟩

/-- `_default_reason`. -/
def defaultReason (side : RefinedSide) : RefinedSide :=
  { side with
    reason := if side.reason ≠ "" then side.reason
      else if side.changed then "refined" else "unchanged" }

/-- The first guard of the start: a start behind the ad reverts. -/
def guardStart (adStart adEnd : ℚ) (start : RefinedSide) : RefinedSide :=
  if adEnd ≤ start.time then ⟨adStart,false,""⟩ else start

/-- The first guard of the end: an end before the ad reverts. -/
def guardEnd (adStart adEnd : ℚ) (stop : RefinedSide) : RefinedSide :=
  if stop.time ≤ adStart then ⟨adEnd,false,""⟩ else stop

/-- The second guard: of an invalid window, the only side that changed reverts. -/
def guardWindow (adStart adEnd : ℚ) (start stop : RefinedSide) : RefinedSide × RefinedSide :=
  if stop.time ≤ start.time then
    if start.changed && !stop.changed then (⟨adStart,false,""⟩,stop)
    else if stop.changed && !start.changed then (start,⟨adEnd,false,""⟩)
    else (start,stop)
  else (start,stop)

/-- The end of `refine`, from both sides on; a window that is still invalid falls back. -/
def settle (adStart adEnd : ℚ) (start stop : RefinedSide) : WordBoundaryRefinement :=
  let sides := guardWindow adStart adEnd (defaultReason (guardStart adStart adEnd start))
    (defaultReason (guardEnd adStart adEnd stop))
  if sides.2.time ≤ sides.1.time then fallback adStart adEnd
  else ⟨sides.1.time,sides.2.time,sides.1.reason,sides.2.reason⟩

/-- What a sidecar call reads: the rows and the stored words of the post. -/
structure SidecarPost where
  rows : List Row
  stored : Option Value

/-- The environment of a refinement: the text functions and parsers of both languages. -/
structure Environment where
  rust : Text
  rustNumerals : Numerals
  rustParse : String → Option Value × Bool
  python : Python
  pythonParse : String → Option Value

/-- `refine`. The context comes from the sidecar if it answers; `content` is the reply of the
model, `none` if the call raises; `sidecar` is what the sidecar reads, `none` if it is off or
fails. The log of the model call is left out. -/
def refine (E : Environment) (adStart adEnd : ℚ) (allSegments : List WbSegment)
    (firstSeq lastSeq : Option ℤ) (rustContext : Option (List WbSegment))
    (sidecar : Option SidecarPost) (content : Option String) : WordBoundaryRefinement :=
  let context := match rustContext with
    | some selected => selected
    | none => selectContext allSegments adStart adEnd firstSeq lastSeq
  match content with
  | none => fallback adStart adEnd
  | some content =>
    match sidecar with
    | some post =>
      let answer := runTranscriptWbRefineFromLlm E.rust E.rustNumerals E.rustParse post.rows
        post.stored adStart adEnd firstSeq lastSeq content
      if answer.parseStatus = .failed then fallback adStart adEnd
      else settle adStart adEnd ⟨answer.start.time,answer.start.changed,answer.startReason⟩
        ⟨answer.stop.time,answer.stop.changed,answer.endReason⟩
    | none =>
      match E.pythonParse content with
      | none => fallback adStart adEnd
      | some parsed =>
        if isTruthy parsed then
          let payload := extractPayload E.python parsed
          match pyRefineStart E.python adStart allSegments context payload,
              pyRefineEnd E.python adEnd allSegments context payload with
          | some start, some stop => settle adStart adEnd start stop
          | _, _ => fallback adStart adEnd
        else fallback adStart adEnd

/-- A bounded window that is not empty. -/
structure InBounds (adStart adEnd : ℚ) (r : WordBoundaryRefinement) : Prop where
  start_ge : adStart - 30 ≤ r.refinedStart
  start_lt : r.refinedStart < adEnd
  end_gt : adStart < r.refinedEnd
  end_le : r.refinedEnd ≤ adEnd + 15
  nonempty : r.refinedStart < r.refinedEnd

/-- A start within its bounds. -/
def StartInBounds (adStart adEnd : ℚ) (start : RefinedSide) : Prop :=
  adStart - 30 ≤ start.time ∧ start.time < adEnd

/-- An end within its bounds. -/
def EndInBounds (adStart adEnd : ℚ) (stop : RefinedSide) : Prop :=
  adStart < stop.time ∧ stop.time ≤ adEnd + 15

theorem StartInBounds.withReason {adStart adEnd : ℚ} {start : RefinedSide}
    (h : StartInBounds adStart adEnd start) : StartInBounds adStart adEnd (defaultReason start) := h

theorem EndInBounds.withReason {adStart adEnd : ℚ} {stop : RefinedSide}
    (h : EndInBounds adStart adEnd stop) : EndInBounds adStart adEnd (defaultReason stop) := h

section
variable {adStart adEnd : ℚ} (h : adStart < adEnd)
include h

theorem fallback_inBounds : InBounds adStart adEnd (fallback adStart adEnd) where
  start_ge := by simp [fallback]
  start_lt := h
  end_gt := h
  end_le := by simp [fallback]
  nonempty := h

theorem adStart_inBounds (changed : Bool) (reason : String) :
    StartInBounds adStart adEnd ⟨adStart,changed,reason⟩ := by
  refine ⟨?_,h⟩
  simp

theorem adEnd_inBounds (changed : Bool) (reason : String) :
    EndInBounds adStart adEnd ⟨adEnd,changed,reason⟩ := by
  refine ⟨h,?_⟩
  simp

theorem guardStart_inBounds {start : RefinedSide} (hstart : adStart - 30 ≤ start.time) :
    StartInBounds adStart adEnd (guardStart adStart adEnd start) := by
  unfold guardStart
  split
  · exact adStart_inBounds h false ""
  · rename_i hlt
    exact ⟨hstart,not_le.mp hlt⟩

theorem guardEnd_inBounds {stop : RefinedSide} (hstop : stop.time ≤ adEnd + 15) :
    EndInBounds adStart adEnd (guardEnd adStart adEnd stop) := by
  unfold guardEnd
  split
  · exact adEnd_inBounds h false ""
  · rename_i hlt
    exact ⟨not_le.mp hlt,hstop⟩

/-- Whichever side the second guard reverts, both stay within their bounds. -/
theorem guardWindow_inBounds {start stop : RefinedSide}
    (hstart : StartInBounds adStart adEnd start) (hstop : EndInBounds adStart adEnd stop) :
    StartInBounds adStart adEnd (guardWindow adStart adEnd start stop).1 ∧
      EndInBounds adStart adEnd (guardWindow adStart adEnd start stop).2 := by
  unfold guardWindow
  split
  · split
    · exact ⟨adStart_inBounds h false "",hstop⟩
    · split
      · exact ⟨hstart,adEnd_inBounds h false ""⟩
      · exact ⟨hstart,hstop⟩
  · exact ⟨hstart,hstop⟩

/-- The guards make every pair of sides within the extensions a bounded window. -/
theorem settle_inBounds {start stop : RefinedSide} (hstart : adStart - 30 ≤ start.time)
    (hstop : stop.time ≤ adEnd + 15) : InBounds adStart adEnd (settle adStart adEnd start stop) := by
  have hsides := guardWindow_inBounds h (guardStart_inBounds h hstart).withReason
    (guardEnd_inBounds h hstop).withReason
  unfold settle
  dsimp only
  split
  · exact fallback_inBounds h
  · rename_i hvalid
    exact ⟨hsides.1.1,hsides.1.2,hsides.2.1,hsides.2.2,not_le.mp hvalid⟩

end

/-- A start behind the ad reverts, and the end stays. -/
example : settle 10 20 ⟨25,true,""⟩ ⟨15,true,""⟩ = ⟨10,15,"unchanged","refined"⟩ := by
  decide

theorem le_constrainStart (est adStart : ℚ) : adStart - 30 ≤ constrainStart est adStart :=
  le_max_right _ _

theorem constrainEnd_le (est adEnd : ℚ) : constrainEnd est adEnd ≤ adEnd + 15 := min_le_right _ _

section
variable {P : Python} {allSegments contextSegments : List WbSegment} {payload : PythonPayload}
  {side : RefinedSide}

/-- Each branch of `_refine_start` constrains its estimate or keeps the original. -/
theorem le_pyRefineStart {adStart : ℚ}
    (h : pyRefineStart P adStart allSegments contextSegments payload = some side) :
    adStart - 30 ≤ side.time := by
  have horig : adStart - 30 ≤ adStart := by simp
  unfold pyRefineStart at h
  split at h
  · obtain ⟨est,-,rfl⟩ := Option.map_eq_some_iff.mp h
    cases est with
    | none => exact horig
    | some est => exact le_constrainStart est adStart
  · split at h
    · cases h
      exact le_constrainStart _ adStart
    · split at h
      · obtain ⟨est,-,rfl⟩ := Option.map_eq_some_iff.mp h
        exact le_constrainStart est adStart
      · cases h
        exact horig

theorem pyRefineEnd_le {adEnd : ℚ}
    (h : pyRefineEnd P adEnd allSegments contextSegments payload = some side) :
    side.time ≤ adEnd + 15 := by
  have horig : adEnd ≤ adEnd + 15 := by simp
  unfold pyRefineEnd at h
  split at h
  · obtain ⟨est,-,rfl⟩ := Option.map_eq_some_iff.mp h
    cases est with
    | none => exact horig
    | some est => exact constrainEnd_le est adEnd
  · split at h
    · cases h
      exact constrainEnd_le _ adEnd
    · cases h
      exact horig

end

/-- A reply with one phrase, as text and parsed. -/
def phraseReply : String := "\x7b\"refined_start_phrase\": \"hello\"\x7d"

def parsePhraseReply (content : String) : Option Value :=
  if content = phraseReply then some (.object [("refined_start_phrase",.str "hello")]) else none

/-- Numerals in strings are not needed on this reply. -/
def noNumerals : Numerals := ⟨fun _ => none,fun _ => none⟩

def phraseEnvironment : Environment :=
  ⟨asciiText,noNumerals,fun content => (parsePhraseReply content,false),
    ⟨asciiText,noNumerals,fun _ => ""⟩,parsePhraseReply⟩

end Podly.WordBoundary
