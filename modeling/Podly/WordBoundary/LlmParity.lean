import Podly.WordBoundary.PythonPath
import Podly.WordBoundary.ReplyParity

/-! The refinement of a reply by the sidecar next to the one in Python, and when both give the same
answer. -/
namespace Podly.WordBoundary
open Serde Intervals Strings

/-! The fields of a reply -/

/-- A field that both languages take for the same text or for none. -/
def AlikeString : Option Value → Prop
  | none | some .null | some (.str _) => True
  | _ => False

/-- A field that both languages read as the same integer or as none. -/
def AlikeInt (P : Python) (N : Numerals) : Option Value → Prop
  | some (.bool _) => False
  | some (.int n) => InI64 n
  | some (.float q) => InI64 (truncate q)
  | some (.str s) => P.numerals.toInt s = coerceInt P.text N (some (.str s))
  | _ => True

/-- A reason that is a string, or that Python drops. -/
def AlikeReason (value : Option Value) : Prop :=
  ∀ v ∈ value, isTruthy v → ∃ s, v = .str s

/-- Does the reply name a word or its index? -/
def wordAsked (T : Text) (payload : Payload) : Bool :=
  hasText T payload.startWord || payload.startWordIndex.isSome

/-- What of a parsed reply both refiners take alike. The words count only where the start has
neither a phrase nor a stored segment; there, and at the end, a missing reason makes a difference,
and the rows that the sidecar loads have to be those that the refinement looks at. -/
structure AlikeReply (P : Python) (N : Numerals) (rows : List Row) (adStart adEnd : ℚ)
    (firstSeq lastSeq : Option ℤ) (parsed : Value) : Prop where
  nonempty : isTruthy parsed
  startSeq : AlikeInt P N (parsed.get "refined_start_segment_seq")
  endSeq : AlikeInt P N (parsed.get "refined_end_segment_seq")
  startPhrase : AlikeString (parsed.get "refined_start_phrase")
  endPhrase : AlikeString (parsed.get "refined_end_phrase")
  startReason : AlikeReason (parsed.get "start_adjustment_reason")
  endReason : AlikeReason (parsed.get "end_adjustment_reason")
  word : ¬hasText P.text (wbExtractPayload P.text N parsed).startPhrase →
    (∀ r ∈ rows, (wbExtractPayload P.text N parsed).startSegmentSeq ≠ some r.sequenceNum) →
    (pyHasText P (getOrNull "refined_start_word" parsed) ||
      !isNull (getOrNull "refined_start_word_index" parsed)) =
        wordAsked P.text (wbExtractPayload P.text N parsed) ∧
    (wordAsked P.text (wbExtractPayload P.text N parsed) ∨
      (wbExtractPayload P.text N parsed).startReason ≠ "")
  endGiven : hasText P.text (wbExtractPayload P.text N parsed).endPhrase ∨
    (wbExtractPayload P.text N parsed).endReason ≠ ""
  context : hasText P.text (wbExtractPayload P.text N parsed).startPhrase ∨
      hasText P.text (wbExtractPayload P.text N parsed).endPhrase →
    ∀ first ∈ firstSeq, ∀ last ∈ lastSeq,
      ContextLoaded rows adStart adEnd first last (wbExtractPayload P.text N parsed)
  first : ¬hasText P.text (wbExtractPayload P.text N parsed).startPhrase →
    (∀ r ∈ rows, (wbExtractPayload P.text N parsed).startSegmentSeq ≠ some r.sequenceNum) →
    wordAsked P.text (wbExtractPayload P.text N parsed) →
    ∀ first ∈ firstSeq, ∀ last ∈ lastSeq,
      FirstLoaded rows first last (wbExtractPayload P.text N parsed)

section
variable {P : Python} {N : Numerals}

theorem hasText_trim (T : Text) (s : String) : hasText T (some (T.trim s)) = hasText T (some s) := by
  have hnil : ∀ s, T.trim s = "" ↔ trimmed T.isSpace s.toList = [] := by
    intro s
    change String.ofList (trimmed T.isSpace s.toList) = "" ↔ _
    simp
  have htwice : T.trim (T.trim s) = "" ↔ T.trim s = "" := by
    rw [hnil,hnil]
    have hlist : (T.trim s).toList = trimmed T.isSpace s.toList := String.toList_ofList
    rw [hlist]
    exact trimmed_trimmed_eq_nil
  simp only [hasText,ne_eq,htwice]

theorem splitWords_trim (T : Text) (s : String) : splitWords T (T.trim s) = splitWords T s := by
  have hlist : (T.trim s).toList = trimmed T.isSpace s.toList := String.toList_ofList
  unfold splitWords
  dsimp only
  rw [hlist]
  have hpieces := pieces_trimmed (p := T.isSpace) s.toList
  unfold pieces at hpieces
  rw [hpieces]

theorem hasText_eq {value : Option Value} (h : AlikeString value) :
    pyHasText P (value.getD .null) = hasText P.text (coerceOptionalStr P.text value) := by
  cases value with
  | none => rfl
  | some value =>
    cases value with
    | null => rfl
    | str s =>
      have hpy : pyHasText P (.str s) = hasText P.text (some s) := rfl
      rw [Option.getD_some,hpy]
      by_cases hs : P.text.trim s = ""
      · simp [coerceOptionalStr,Value.asStr,hasText,hs]
      · simp only [coerceOptionalStr,Value.asStr,Option.bind_some,if_neg hs]
        exact (hasText_trim P.text s).symm
    | bool b => exact h.elim
    | int n => exact h.elim
    | float q => exact h.elim
    | array items => exact h.elim
    | object fields => exact h.elim

theorem int_eq {value : Option Value} (h : AlikeInt P N value) :
    P.int (value.getD .null) = coerceInt P.text N value := by
  cases value with
  | none => rfl
  | some value =>
    cases value with
    | null => rfl
    | bool b => exact h.elim
    | int n =>
      have hn : InI64 n := h
      simp [Python.int,coerceInt,Value.asI64_int hn]
    | float q =>
      have hq : floatAsI64 q = truncate q := by
        obtain ⟨hlow,hhigh⟩ : InI64 (truncate q) := h
        simp only [floatAsI64]
        omega
      simp [Python.int,coerceInt,Value.asI64,Value.asF64,hq]
    | str s => exact h
    | array items => rfl
    | object fields => rfl

theorem reason_eq {value : Option Value} (h : AlikeReason value) :
    (if isTruthy (value.getD .null) then P.str (value.getD .null) else "") =
      coerceReasonStr value := by
  cases value with
  | none => rfl
  | some value =>
    by_cases htruthy : isTruthy value
    · obtain ⟨s,rfl⟩ := h value rfl htruthy
      simp only [Option.getD_some,htruthy,if_true]
      rfl
    · simp only [Option.getD_some,htruthy]
      cases value with
      | str s =>
        have hs : s = "" := by simpa [isTruthy] using htruthy
        rw [hs]
        rfl
      | null => rfl
      | bool b => rfl
      | int n => rfl
      | float q => rfl
      | array items => rfl
      | object fields => rfl

end

/-! The resolution on stored words -/

/-- The words of a segment are as they were stored. -/
def HasStoredWords (s : WbSegment) : Prop :=
  ∃ words : List StoredWord, s.words = words.map StoredWord.toValue

section
variable {P : Python} {segment : WbSegment} {segments context : List WbSegment}

theorem pySegmentWordEntry_toValue (w : StoredWord) :
    pySegmentWordEntry P w.toValue = some (segmentWordEntry P.text w.toValue) := by
  have hword : getOrNull "word" w.toValue = .str w.word := rfl
  have hstart : getOrNull "start" w.toValue = .float w.start := rfl
  have hstop : getOrNull "end" w.toValue = .float w.stop := rfl
  have hasWord : (w.toValue.get "word").bind Value.asStr = some w.word := rfl
  have hasStart : (w.toValue.get "start").bind Value.asF64 = some w.start := rfl
  have hasStop : (w.toValue.get "end").bind Value.asF64 = some w.stop := rfl
  unfold pySegmentWordEntry segmentWordEntry
  simp only [hword,hstart,hstop,hasWord,hasStart,hasStop,Python.str,Python.float,Option.getD_some,
    Option.map_some]
  split <;> rfl

theorem mapM_pySegmentWordEntry (words : List StoredWord) :
    (words.map StoredWord.toValue).mapM (pySegmentWordEntry P) =
      some ((words.map StoredWord.toValue).map (segmentWordEntry P.text)) := by
  induction words with
  | nil => rfl
  | cons w words ih =>
    rw [List.map_cons,List.mapM_cons,pySegmentWordEntry_toValue,ih]
    rfl

theorem pySegmentWordEntries_eq (h : HasStoredWords segment) :
    pySegmentWordEntries P segment = some (segmentWordEntries P.text segment.words) := by
  obtain ⟨words,hwords⟩ := h
  rw [pySegmentWordEntries,segmentWordEntries,hwords,mapM_pySegmentWordEntry,Option.map_some,
    List.filterMap_map]
  rfl

/-- Where the segment lasts, both take its end as it is. -/
theorem pyEstimatePhraseTimeForSegment_eq (h : HasStoredWords segment) (tokens : List String)
    (directionEnd : Bool) : pyEstimatePhraseTimeForSegment P tokens directionEnd segment =
      some (estimatePhraseTimeForSegment P.text segment tokens directionEnd) := by
  have hduration : max (max segment.endTime segment.startTime - segment.startTime) 0 =
      max 0 (segment.endTime - segment.startTime) := by
    rcases le_total segment.endTime segment.startTime with hle | hle
    · rw [max_eq_right hle,sub_self,max_self,max_eq_left (sub_nonpos.mpr hle)]
    · rw [max_eq_left hle,max_comm]
  unfold pyEstimatePhraseTimeForSegment estimatePhraseTimeForSegment
  rw [pySegmentWordEntries_eq h,Option.map_some]
  simp only [hduration,phraseMaxWords]
  generalize Option.bind (findPhraseMatch _ tokens directionEnd 4) _ = exact
  cases exact with
  | some t => rfl
  | none =>
    dsimp only
    split
    · rfl
    · rename_i hlasts
      have hle : segment.startTime ≤ segment.endTime := by
        by_contra hlt
        exact hlasts (Or.inr (max_le le_rfl (sub_nonpos.mpr (not_le.mp hlt).le)))
      rw [max_eq_left hle]

theorem firstEstimate_eq {estimate : WbSegment → Option (Option ℚ)}
    {estimate' : WbSegment → Option ℚ} {candidates : List WbSegment}
    (h : ∀ s ∈ candidates, estimate s = some (estimate' s)) :
    firstEstimate estimate candidates = some (candidates.findSome? estimate') := by
  induction candidates with
  | nil => rfl
  | cons s candidates ih =>
    have hrest := ih (fun t ht => h t (List.mem_cons_of_mem s ht))
    rw [firstEstimate,h s List.mem_cons_self,List.findSome?_cons]
    cases estimate' s with
    | none => exact hrest
    | some t => rfl

theorem pyEstimatePhraseTime_eq (hall : ∀ s ∈ segments, HasStoredWords s)
    (hcontext : ∀ s ∈ context, HasStoredWords s) (seq : Value) (phrase : String)
    (directionEnd : Bool) :
    pyEstimatePhraseTime P segments context seq (.str phrase) directionEnd =
      some (estimatePhraseTime P.text segments context (P.int seq) (some (P.text.trim phrase))
        directionEnd) := by
  have hphrase : (if isTruthy (.str phrase) then P.str (.str phrase) else "") = phrase := by
    by_cases hempty : phrase = ""
    · simp [hempty,isTruthy]
    · simp [isTruthy,hempty,Python.str]
  have htokens : splitWordsLower P.text (P.text.trim phrase) = splitWordsLower P.text phrase := by
    rw [splitWordsLower,splitWords_trim]
    rfl
  unfold pyEstimatePhraseTime estimatePhraseTime
  rw [hphrase,Option.bind_some]
  dsimp only
  rw [htokens]
  split
  · rfl
  · apply firstEstimate_eq
    intro s hs
    apply pyEstimatePhraseTimeForSegment_eq
    rcases mem_phraseCandidates hs with hfound | hmem
    · obtain ⟨n,-,hfind⟩ := Option.bind_eq_some_iff.mp hfound
      exact hall s (List.mem_of_find?_eq_some hfind)
    · exact hcontext s hmem

/-- A phrase that both take for the same text has the same time. -/
theorem pyEstimatePhraseTime_alike (hall : ∀ s ∈ segments, HasStoredWords s)
    (hcontext : ∀ s ∈ context, HasStoredWords s) {value : Option Value} (h : AlikeString value)
    (htext : hasText P.text (coerceOptionalStr P.text value)) (seq : Value) (directionEnd : Bool) :
    pyEstimatePhraseTime P segments context seq (value.getD .null) directionEnd =
      some (estimatePhraseTime P.text segments context (P.int seq)
        (coerceOptionalStr P.text value) directionEnd) := by
  cases value with
  | none => cases htext
  | some value =>
    cases value with
    | str s =>
      by_cases hs : P.text.trim s = ""
      · simp [coerceOptionalStr,Value.asStr,hs,hasText] at htext
      · have hcoerced : coerceOptionalStr P.text (some (.str s)) = some (P.text.trim s) := by
          simp [coerceOptionalStr,Value.asStr,hs]
        rw [hcoerced]
        exact pyEstimatePhraseTime_eq hall hcontext seq s directionEnd
    | null => cases htext
    | bool b => exact h.elim
    | int n => exact h.elim
    | float q => exact h.elim
    | array items => exact h.elim
    | object fields => exact h.elim

end

section
variable {P : Python} {N : Numerals} {rows : List Row} {adStart adEnd : ℚ}
  {firstSeq lastSeq : Option ℤ} {parsed : Value} {segments context : List WbSegment}

/-- Without a segment, both take the beginning of the transcript for the time of the word. -/
theorem pyEstimateWordTime_of_not_found {seq word occurrence index : Value} {n : Option ℤ}
    (hseq : P.int seq = n) (hnone : findSegment segments n = none) (word' : Option String)
    (occurrence' : Option String) (index' : Option ℤ) :
    pyEstimateWordTime P segments seq word occurrence index =
      some (estimateWordTime P.text segments n word' occurrence' index') := by
  rw [pyEstimateWordTime,estimateWordTime,hseq,hnone]

/-- Both take the start of a reply alike. -/
theorem pyRefineStart_eq (h : AlikeReply P N rows adStart adEnd firstSeq lastSeq parsed)
    (hall : ∀ s ∈ segments, HasStoredWords s) (hcontext : ∀ s ∈ context, HasStoredWords s)
    (hrows : findSegment segments (wbExtractPayload P.text N parsed).startSegmentSeq = none →
      ∀ r ∈ rows, (wbExtractPayload P.text N parsed).startSegmentSeq ≠ some r.sequenceNum) :
    let side := refineStart P.text segments context adStart (wbExtractPayload P.text N parsed)
    pyRefineStart P adStart segments context (extractPayload P parsed) =
        some ⟨side.time,side.changed,(wbExtractPayload P.text N parsed).startReason⟩ ∧
      pyStartError P segments context (extractPayload P parsed) = side.error := by
  have hseq : P.int (extractPayload P parsed).startSegmentSeq =
      (wbExtractPayload P.text N parsed).startSegmentSeq := int_eq h.startSeq
  have hhas : pyHasText P (extractPayload P parsed).startPhrase =
      hasText P.text (wbExtractPayload P.text N parsed).startPhrase := hasText_eq h.startPhrase
  have hreason : (extractPayload P parsed).startReason =
      (wbExtractPayload P.text N parsed).startReason := reason_eq h.startReason
  dsimp only
  unfold pyRefineStart pyStartError refineStart
  rw [hhas,hreason]
  by_cases htext : hasText P.text (wbExtractPayload P.text N parsed).startPhrase
  · have hphrase : pyEstimatePhraseTime P segments context
        (extractPayload P parsed).startSegmentSeq (extractPayload P parsed).startPhrase false =
        some (estimatePhraseTime P.text segments context
          (wbExtractPayload P.text N parsed).startSegmentSeq
          (wbExtractPayload P.text N parsed).startPhrase false) :=
      hseq ▸ pyEstimatePhraseTime_alike hall hcontext h.startPhrase htext _ false
    rw [hphrase,if_pos htext,if_pos htext,htext]
    generalize estimatePhraseTime P.text segments context _ _ false = estimated
    cases estimated with
    | none => exact ⟨rfl,rfl⟩
    | some t => exact ⟨rfl,rfl⟩
  · rw [if_neg htext,if_neg htext,eq_false_of_ne_true htext,Bool.false_and,hseq]
    simp only [Bool.false_eq_true,if_false]
    cases hboundary : estimateSegmentBoundaryTime segments
        (wbExtractPayload P.text N parsed).startSegmentSeq false with
    | some t => exact ⟨rfl,rfl⟩
    | none =>
      have hnone : findSegment segments (wbExtractPayload P.text N parsed).startSegmentSeq = none :=
        Option.map_eq_none_iff.mp hboundary
      obtain ⟨hasked,hgiven⟩ := h.word htext (hrows hnone)
      have hasked' : (pyHasText P (extractPayload P parsed).startWord ||
          !isNull (extractPayload P parsed).startWordIndex) =
          wordAsked P.text (wbExtractPayload P.text N parsed) := hasked
      dsimp only
      rw [hasked',pyEstimateWordTime_of_not_found hseq hnone
        (wbExtractPayload P.text N parsed).startWord
        (wbExtractPayload P.text N parsed).startOccurrence
        (wbExtractPayload P.text N parsed).startWordIndex]
      by_cases hwanted : wordAsked P.text (wbExtractPayload P.text N parsed)
      · have hrust : (hasText P.text (wbExtractPayload P.text N parsed).startWord ||
            (wbExtractPayload P.text N parsed).startWordIndex.isSome) = true := hwanted
        rw [if_pos hwanted,if_pos hrust]
        exact ⟨rfl,rfl⟩
      · have hrust : (hasText P.text (wbExtractPayload P.text N parsed).startWord ||
            (wbExtractPayload P.text N parsed).startWordIndex.isSome) = false :=
          eq_false_of_ne_true hwanted
        have hne := hgiven.resolve_left hwanted
        rw [if_neg hwanted,if_neg (ne_true_of_eq_false hrust),if_neg hne]
        exact ⟨rfl,rfl⟩

/-- Both take the end of a reply alike. -/
theorem pyRefineEnd_eq (h : AlikeReply P N rows adStart adEnd firstSeq lastSeq parsed)
    (hall : ∀ s ∈ segments, HasStoredWords s) (hcontext : ∀ s ∈ context, HasStoredWords s) :
    let side := refineEnd P.text segments context adEnd (wbExtractPayload P.text N parsed)
    pyRefineEnd P adEnd segments context (extractPayload P parsed) =
        some ⟨side.time,side.changed,(wbExtractPayload P.text N parsed).endReason⟩ ∧
      pyEndError P segments context (extractPayload P parsed) = side.error := by
  have hseq : P.int (extractPayload P parsed).endSegmentSeq =
      (wbExtractPayload P.text N parsed).endSegmentSeq := int_eq h.endSeq
  have hhas : pyHasText P (extractPayload P parsed).endPhrase =
      hasText P.text (wbExtractPayload P.text N parsed).endPhrase := hasText_eq h.endPhrase
  have hreason : (extractPayload P parsed).endReason =
      (wbExtractPayload P.text N parsed).endReason := reason_eq h.endReason
  dsimp only
  unfold pyRefineEnd pyEndError refineEnd
  rw [hhas,hreason]
  by_cases htext : hasText P.text (wbExtractPayload P.text N parsed).endPhrase
  · have hphrase : pyEstimatePhraseTime P segments context
        (extractPayload P parsed).endSegmentSeq (extractPayload P parsed).endPhrase true =
        some (estimatePhraseTime P.text segments context
          (wbExtractPayload P.text N parsed).endSegmentSeq
          (wbExtractPayload P.text N parsed).endPhrase true) :=
      hseq ▸ pyEstimatePhraseTime_alike hall hcontext h.endPhrase htext _ true
    rw [hphrase,if_pos htext,if_pos htext,htext]
    generalize estimatePhraseTime P.text segments context _ _ true = estimated
    cases estimated with
    | none => exact ⟨rfl,rfl⟩
    | some t => exact ⟨rfl,rfl⟩
  · have hne : (wbExtractPayload P.text N parsed).endReason ≠ "" :=
      h.endGiven.resolve_left htext
    rw [if_neg htext,if_neg htext,eq_false_of_ne_true htext,Bool.false_and,hseq]
    simp only [Bool.false_eq_true,if_false,if_neg hne]
    cases estimateSegmentBoundaryTime segments (wbExtractPayload P.text N parsed).endSegmentSeq
      true with
    | none => exact ⟨rfl,rfl⟩
    | some t => exact ⟨rfl,rfl⟩

theorem mem_selectContext {s : WbSegment}
    (h : s ∈ selectContext segments adStart adEnd firstSeq lastSeq) : s ∈ segments := by
  have hoverlap : s ∈ contextByTimeOverlap segments adStart adEnd → s ∈ segments := by
    unfold contextByTimeOverlap Lists.around
    split
    · intro hmem
      exact List.mem_of_mem_take (List.mem_of_mem_drop hmem)
    · intro hmem
      cases hmem
  have hwindow : ∀ first last, s ∈ contextBySeqWindow segments first last → s ∈ segments := by
    intro first last hmem
    unfold contextBySeqWindow at hmem
    split at hmem
    · exact List.mem_of_mem_filter hmem
    · cases hmem
  unfold selectContext at h
  split at h
  · split at h
    · exact hwindow _ _ h
    · exact hoverlap h
  · exact hoverlap h

theorem findSegment_withWords_eq_none {words : WordsBySeq} {seq : Option ℤ}
    (h : findSegment (rows.map (withWords words)) seq = none) :
    ∀ r ∈ rows, seq ≠ some r.sequenceNum := by
  rintro r hr rfl
  have hne := List.find?_eq_none.mp h (withWords words r) (List.mem_map_of_mem hr)
  exact hne (by simp [withWords])

end

/-- Four replies, as any JSON parser reads them. -/
def readReply (content : String) : Option Value :=
  if content = "\x7b\x7d" then some (.object [])
  else if content = "\x7b\"refined_start_word_index\":\"x\"\x7d" then
    some (.object [("refined_start_word_index",.str "x")])
  else if content = "\x7b\"refined_start_segment_seq\":0\x7d" then
    some (.object [("refined_start_segment_seq",.int 0)])
  else if content = "\x7b\"refined_start_segment_seq\":0,\"refined_end_phrase\":\"ad\"\x7d" then
    some (.object [("refined_start_segment_seq",.int 0),("refined_end_phrase",.str "ad")])
  else none

def asciiPython : Python := ⟨asciiText,noNumerals,fun _ => ""⟩

def oneSegment : TimedTranscript where
  rows := [⟨0,0,10,"Oh, the ad"⟩]
  sorted := by decide
  words := [(0,[⟨"ad",6,7,none⟩])]
  inI64 := by decide

/-- The answers of both refiners to a reply about the first ten seconds. -/
def pythonAnswer (content : String) : Option SidecarAnswer :=
  pythonRefineFromLlm asciiPython (parseJson asciiText (python readReply)) oneSegment.rows
    oneSegment.stored 0 10 (some 0) (some 0) content

def sidecarAnswer (content : String) : SidecarAnswer :=
  runTranscriptWbRefineFromLlm asciiText noNumerals (parseJson asciiText (rust readReply))
    oneSegment.rows oneSegment.stored 0 10 (some 0) (some 0) content

/-- A reply that breaks off, with a number too large for 64 bits where a phrase should be. -/
def brokenReply : List Char :=
  ("\x7b\"refined_start_phrase\": 99999999999999999999, \"start_adjustment_reason\": \"s\", " ++
    "\"end_adjustment_reason\": \"e\" oops").toList

/-- No number is read where a phrase should be, and the reasons are salvaged alike. -/
example : SalvagedAlike asciiText readReply readReply brokenReply := by
  have hnone : ∀ key ∈ ["refined_start_segment_seq","refined_end_segment_seq"],
      searchField asciiText (rust readReply) key brokenReply (intLiteral (rust readReply)) =
        none := by decide +kernel
  refine ⟨by unfold PlainFirst; decide +kernel,?_,by unfold PlainFirst; decide +kernel,
    by unfold PlainFirst; decide +kernel⟩
  intro key hkey raw hraw
  exact absurd ((hnone key hkey).symm.trans hraw) nofun

end Podly.WordBoundary
