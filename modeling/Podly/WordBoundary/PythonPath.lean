import Podly.Strings.Trimmed
import Podly.WordBoundary.Refiner

/-! The refinement of a reply without the sidecar, on the transcript as it is stored, and when each
of its steps gives what the sidecar's does. -/
namespace Podly.WordBoundary
open Serde Strings

/-! The stored transcript -/

/-- A word as `serialize_segment_word_timestamps` stores it. -/
structure StoredWord where
  word : String
  start : ℚ
  stop : ℚ
  score : Option ℚ
deriving DecidableEq

def StoredWord.toValue (w : StoredWord) : Value :=
  .object [("word",.str w.word),("start",.float w.start),("end",.float w.stop),
    ("score",(w.score.map Value.float).getD .null)]

/-- The column of a post, with an entry for each segment that has words. -/
def serializeWords (words : List (ℤ × List StoredWord)) : Option Value :=
  match words.filter (fun entry => entry.2 ≠ []) with
  | [] => none
  | entries => some (.array (entries.map (fun entry =>
      .object [("sequence_num",.int entry.1),("words",.array (entry.2.map StoredWord.toValue))])))

/-- A transcript with the words of its segments, whose sequence numbers are those of a column of the
database. -/
structure TimedTranscript extends Transcript where
  words : List (ℤ × List StoredWord)
  inI64 : ∀ entry ∈ words, InI64 entry.1

def TimedTranscript.stored (t : TimedTranscript) : Option Value := serializeWords t.words

variable (P : Python)

/-- `_finite_or_none`; outside is `none` what raises. -/
def finiteOrNone : Value → Option Value
  | .null => some .null
  | value => (P.float value).map Value.float

/-- `_parse_word`, with a word that raises left out. -/
def parseWord (word : Value) : Option Value :=
  match getOrNull "word" word with
  | .null => none
  | text =>
    match finiteOrNone P (getOrNull "start" word), finiteOrNone P (getOrNull "end" word),
        finiteOrNone P (getOrNull "score" word) with
    | some start, some stop, some score =>
      some (.object [("word",.str (P.str text)),("start",start),("end",stop),("score",score)])
    | _, _, _ => none

/-- What `load_word_timestamps_by_sequence` takes of one entry. -/
def loadEntry (entry : Value) : Option (ℤ × List Value) :=
  match P.int (getOrNull "sequence_num" entry), entry.get "words" with
  | some seq, some (.array words) =>
    match words.filterMap (parseWord P) with
    | [] => none
    | word::words => some (seq,word::words)
  | _, _ => none

def loadWordTimestampsBySequence (stored : Option Value) : WordsBySeq :=
  match stored with
  | some (.array entries) => entries.filterMap (loadEntry P)
  | _ => []

/-- `all_segments`. -/
def allSegments (rows : List Row) (stored : Option Value) : List WbSegment :=
  rows.map (withWords (loadWordTimestampsBySequence P stored))

/-! The answer -/

/-- The error of `_refine_start`. -/
def pyStartError (allSegments contextSegments : List WbSegment) (payload : PythonPayload) :
    Option String :=
  if pyHasText P payload.startPhrase && (pyEstimatePhraseTime P allSegments contextSegments
      payload.startSegmentSeq payload.startPhrase false).any Option.isNone then
    some "start_phrase_not_found"
  else none

/-- The error of `_refine_end`. -/
def pyEndError (allSegments contextSegments : List WbSegment) (payload : PythonPayload) :
    Option String :=
  if pyHasText P payload.endPhrase && (pyEstimatePhraseTime P allSegments contextSegments
      payload.endSegmentSeq payload.endPhrase true).any Option.isNone then
    some "end_phrase_not_found"
  else none

/-- What `_parse_json`, `_extract_payload`, `_refine_start` and `_refine_end` make of a reply, in
the form of the sidecar's answer; `none` if they raise. An empty object counts as not parsed. -/
def pythonRefineFromLlm (parse : String → Option Value × Bool) (rows : List Row)
    (stored : Option Value) (adStart adEnd : ℚ) (firstSeq lastSeq : Option ℤ) (content : String) :
    Option SidecarAnswer :=
  match parse content with
  | (none,_) => some ⟨.failed,⟨adStart,false,none⟩,⟨adEnd,false,none⟩,"",""⟩
  | (some parsed,salvaged) =>
    if isTruthy parsed then
      let segments := allSegments P rows stored
      let context := selectContext segments adStart adEnd firstSeq lastSeq
      let payload := extractPayload P parsed
      match pyRefineStart P adStart segments context payload,
          pyRefineEnd P adEnd segments context payload with
      | some start, some stop => some ⟨if salvaged then .salvaged else .ok,
          ⟨start.time,start.changed,pyStartError P segments context payload⟩,
          ⟨stop.time,stop.changed,pyEndError P segments context payload⟩,start.reason,stop.reason⟩
      | _, _ => none
    else some ⟨.failed,⟨adStart,false,none⟩,⟨adEnd,false,none⟩,"",""⟩

/-! Both languages read the stored words alike -/

section
variable {P}

theorem parseWord_toValue (w : StoredWord) : parseWord P w.toValue = some w.toValue := by
  cases hscore : w.score <;> simp [parseWord,StoredWord.toValue,getOrNull,Value.get,Value.fieldsAt,
    finiteOrNone,Python.float,Python.str,hscore]

theorem filterMap_parseWord (words : List StoredWord) :
    words.filterMap (fun w => parseWord P w.toValue) = words.map StoredWord.toValue := by
  simp only [parseWord_toValue,List.filterMap_eq_map']

/-- An entry of the column. -/
def storedEntry (entry : ℤ × List StoredWord) : Value :=
  .object [("sequence_num",.int entry.1),("words",.array (entry.2.map StoredWord.toValue))]

theorem loadEntry_storedEntry {entry : ℤ × List StoredWord} (hseq : InI64 entry.1)
    (hwords : entry.2 ≠ []) : loadEntry P (storedEntry entry) = wordEntry (storedEntry entry) := by
  obtain ⟨w,words,hcons⟩ := List.exists_cons_of_ne_nil hwords
  simp [loadEntry,wordEntry,storedEntry,getOrNull,Value.get,Value.fieldsAt,Python.int,
    Value.asI64_int hseq,hcons,List.filterMap_cons_some (parseWord_toValue w),filterMap_parseWord]

/-- The stored words reach both refiners unchanged. -/
theorem loadWordTimestampsBySequence_stored (t : TimedTranscript) :
    loadWordTimestampsBySequence P t.stored = queryWbWordTimestampsBySeq t.stored := by
  unfold TimedTranscript.stored serializeWords
  split
  · rfl
  · rename_i entries hne
    simp only [loadWordTimestampsBySequence,queryWbWordTimestampsBySeq,List.filterMap_map]
    apply List.filterMap_congr
    intro entry hentry
    obtain ⟨hmem,hwords⟩ := List.mem_filter.mp hentry
    exact loadEntry_storedEntry (t.inI64 entry hmem) (of_decide_eq_true hwords)

/-- The column has only entries that both readers of the sidecar understand. -/
theorem allWordEntries_stored (t : TimedTranscript) : AllWordEntries t.stored := by
  unfold TimedTranscript.stored serializeWords
  split
  · trivial
  · intro value hvalue
    obtain ⟨entry,hentry,rfl⟩ := List.mem_map.mp hvalue
    exact ⟨_,entry.1,rfl,t.inI64 entry (List.mem_filter.mp hentry).1,rfl,by simp [Value.fieldsAt]⟩

theorem wordEntry_storedEntry {entry : ℤ × List StoredWord} {e : ℤ × List Value}
    (h : wordEntry (storedEntry entry) = some e) : e.2 = entry.2.map StoredWord.toValue := by
  unfold wordEntry at h
  split at h
  · rename_i word words _ hwords
    have hstored : (storedEntry entry).get "words" =
        some (.array (entry.2.map StoredWord.toValue)) := by
      simp [storedEntry,Value.get,Value.fieldsAt]
    rw [hstored] at hwords
    rw [← Option.some.inj h]
    exact (Value.array.inj (Option.some.inj hwords)).symm
  · cases h

/-- The words of a segment are as they were stored. -/
theorem words_withWords (t : TimedTranscript) (row : Row) :
    ∃ words : List StoredWord, (withWords (queryWbWordTimestampsBySeq t.stored) row).words =
      words.map StoredWord.toValue := by
  change ∃ words : List StoredWord, ((queryWbWordTimestampsBySeq t.stored).get
    row.sequenceNum).getD [] = words.map StoredWord.toValue
  cases hget : (queryWbWordTimestampsBySeq t.stored).get row.sequenceNum with
  | none => exact ⟨[],rfl⟩
  | some values =>
    obtain ⟨e,he,rfl⟩ := Option.map_eq_some_iff.mp hget
    have hmem : e ∈ queryWbWordTimestampsBySeq t.stored :=
      List.mem_of_mem_filter (List.mem_of_getLast? he)
    unfold TimedTranscript.stored serializeWords at hmem
    split at hmem
    · cases hmem
    · obtain ⟨value,hvalue,hentry⟩ := List.mem_filterMap.mp hmem
      obtain ⟨entry,-,rfl⟩ := List.mem_map.mp hvalue
      exact ⟨entry.2,wordEntry_storedEntry hentry⟩

end

end Podly.WordBoundary
