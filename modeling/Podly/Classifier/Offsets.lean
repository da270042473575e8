import Podly.Chapters.Retime
import Podly.Classifier.Marks

/-! The offsets of the segments: how they are stored and printed in the prompt, and which segments a
reply can name by them. -/
namespace Podly.Classifier
open Store Intervals

/-- `round(seg.start, 1)`, as `_persist_transcription_chunks` stores the start of a segment. -/
def storedTime (time : ℚ) : ℚ := Chapters.roundHalfEven (time * 10) / 10

/-- The text of a float with one decimal. -/
def printedOffset (time : ℚ) : String :=
  let tenths := ⌊time * 10⌋
  String.ofList ((if tenths < 0 then ['-'] else []) ++ Nat.toDigits 10 (tenths.natAbs / 10) ++
    '.'::Nat.toDigits 10 (tenths.natAbs % 10))

/-- `_format_segment_prefix`. -/
def formatSegmentPrefix (segment : TranscriptSegment) : String :=
  "[" ++ printedOffset segment.startTime ++ "]" ++
    match segment.speakerLabel with
    | some label => if label = "" then "" else "[speaker=" ++ label ++ "]"
    | none => ""

/-- The entries of the excerpt: where they belong, markers before segments, and their text. -/
def excerptEntries (highlightCues : String → String) (segments : List TranscriptSegment)
    (audioMarkers : List (ℚ × String)) : List ((ℚ ×ₗ ℕ) × String) :=
  audioMarkers.map (fun marker => (toLex (marker.1,0),marker.2)) ++
    segments.map (fun segment => (toLex (segment.startTime,1),
      formatSegmentPrefix segment ++ " " ++ highlightCues segment.text))

/-- The lines of `transcript_excerpt_for_prompt`, given the texts of the audio markers. -/
def excerptLines (highlightCues : String → String) (segments : List TranscriptSegment)
    (includesStart includesEnd : Bool) (audioMarkers : List (ℚ × String)) : List String :=
  (if includesStart then ["[TRANSCRIPT START]"] else []) ++
    (sortByKey Prod.fst (excerptEntries highlightCues segments audioMarkers)).map Prod.snd ++
    (if includesEnd then ["[TRANSCRIPT END]"] else [])

/-- The number that decimal digits with a point write. -/
def readDecimal (digits : List Char) : Option ℚ :=
  match digits.span Char.isDigit with
  | (whole,'.'::fraction) =>
    if whole = [] ∨ fraction = [] ∨ fraction.any (fun c => !c.isDigit) then none
    else some (((Nat.ofDigitChars 10 (whole ++ fraction) 0 : ℕ) : ℚ) / 10 ^ fraction.length)
  | _ => none

/-- What a reply says with the text of an offset. -/
def readOffset (text : String) : Option ℚ :=
  match text.toList with
  | '-'::digits => (readDecimal digits).map (- ·)
  | digits => readDecimal digits

/-- A chunk of stored segments. -/
structure StoredChunk where
  segments : List TranscriptSegment
  ids : (segments.map TranscriptSegment.id).Nodup
  stored : ∀ s ∈ segments, ∃ time, s.startTime = storedTime time

/-- Every reply that lists the printed offset of the segment, with a confidence that suffices, leaves
the segment marked. -/
def Markable (chunk : List TranscriptSegment) (segment : TranscriptSegment) : Prop :=
  ∀ (identifications : IdentificationTable) (modelCallId : ℕ) (minConfidence : ℚ)
    (predictions : AdSegmentPredictionList), ∀ prediction ∈ predictions.adSegments,
      readOffset (printedOffset segment.startTime) = some prediction.segmentOffset →
        minConfidence ≤ adjustConfidence prediction.confidence predictions.contentType →
          Marked (identificationsAfter identifications modelCallId minConfidence chunk predictions)
            segment.id

section Printed

theorem mem_excerptLines {highlightCues : String → String} {segments : List TranscriptSegment}
    {includesStart includesEnd : Bool} {audioMarkers : List (ℚ × String)}
    {segment : TranscriptSegment} (h : segment ∈ segments) :
    formatSegmentPrefix segment ++ " " ++ highlightCues segment.text ∈
      excerptLines highlightCues segments includesStart includesEnd audioMarkers := by
  have hentry : (toLex (segment.startTime,1),
      formatSegmentPrefix segment ++ " " ++ highlightCues segment.text) ∈
        excerptEntries highlightCues segments audioMarkers :=
    List.mem_append_right _ (List.mem_map_of_mem h)
  have hline := List.mem_map_of_mem (f := Prod.snd) ((mem_sortByKey Prod.fst _ _).mpr hentry)
  exact List.mem_append_left _ (List.mem_append_right _ hline)

theorem span_isDigit {whole fraction : List Char} (h : ∀ c ∈ whole, c.isDigit) :
    (whole ++ '.'::fraction).span Char.isDigit = (whole,'.'::fraction) := by
  rw [List.span_eq_takeWhile_dropWhile,List.takeWhile_append_of_pos h,
    List.dropWhile_append_of_pos h]
  simp

/-- Digits around a point are read as the number they write. -/
theorem readDecimal_digits (m n : ℕ) : readDecimal (Nat.toDigits 10 m ++ '.'::Nat.toDigits 10 n) =
    some (((Nat.ofDigitChars 10 (Nat.toDigits 10 m ++ Nat.toDigits 10 n) 0 : ℕ) : ℚ) /
      10 ^ (Nat.toDigits 10 n).length) := by
  have hdigits : ∀ k, ∀ c ∈ Nat.toDigits 10 k, c.isDigit := fun k c hc =>
    Nat.isDigit_of_mem_toDigits (by decide) (by decide) hc
  rw [readDecimal,span_isDigit (hdigits m)]
  simp only
  rw [if_neg]
  rw [not_or,not_or]
  refine ⟨Nat.toDigits_ne_nil,Nat.toDigits_ne_nil,?_⟩
  simpa using hdigits n

/-- A number of tenths is read as it was printed. -/
theorem readDecimal_tenths (n : ℕ) :
    readDecimal (Nat.toDigits 10 (n / 10) ++ '.'::Nat.toDigits 10 (n % 10)) =
      some ((n : ℚ) / 10) := by
  have hlt : n % 10 < 10 := Nat.mod_lt n (by decide)
  rw [readDecimal_digits,Nat.toDigits_of_lt_base hlt,Nat.ofDigitChars_append,
    Nat.ofDigitChars_ten_toDigits,Nat.ofDigitChars_cons_digitChar_of_lt_ten hlt,
    Nat.ofDigitChars_nil,Nat.div_add_mod,List.length_singleton,pow_one]

theorem floor_tenths (n : ℤ) : ⌊(n / 10 : ℚ) * 10⌋ = n := by
  rw [div_mul_cancel₀ _ (by norm_num : (10 : ℚ) ≠ 0)]
  exact Int.floor_intCast n

theorem readOffset_of_digits {digits rest : List Char} (hne : digits ≠ [])
    (hdigits : ∀ c ∈ digits, c.isDigit) :
    readOffset (String.ofList (digits ++ rest)) = readDecimal (digits ++ rest) := by
  obtain ⟨c,digits,rfl⟩ := List.exists_cons_of_ne_nil hne
  have hc : c ≠ '-' := by
    rintro rfl
    exact absurd (hdigits '-' List.mem_cons_self) (by decide)
  rw [readOffset,String.toList_ofList,List.cons_append]
  split
  · rename_i heq
    exact absurd (List.cons.inj heq).1 hc
  · rfl

/-- The offset of a stored segment is read as it was printed. -/
theorem readOffset_printedOffset (time : ℚ) :
    readOffset (printedOffset (storedTime time)) = some (storedTime time) := by
  rw [storedTime,printedOffset,floor_tenths]
  generalize Chapters.roundHalfEven (time * 10) = n
  by_cases hneg : n < 0
  · have habs : ((n.natAbs : ℕ) : ℚ) = -(n : ℚ) := by
      rw [← Int.cast_natCast,Int.ofNat_natAbs_of_nonpos hneg.le,Int.cast_neg]
    rw [readOffset,String.toList_ofList]
    simp only [if_pos hneg,List.cons_append,List.nil_append]
    rw [readDecimal_tenths,Option.map_some,habs,neg_div,neg_neg]
  · have habs : ((n.natAbs : ℕ) : ℚ) = n := by
      rw [← Int.cast_natCast,Int.natAbs_of_nonneg (not_lt.mp hneg)]
    simp only [if_neg hneg,List.nil_append]
    rw [readOffset_of_digits Nat.toDigits_ne_nil,readDecimal_tenths,habs]
    exact fun c hc => Nat.isDigit_of_mem_toDigits (by decide) (by decide) hc

end Printed

section Named
variable {chunk : List TranscriptSegment} {segment : TranscriptSegment}

/-- The start of a segment finds it when no earlier segment starts with it. -/
theorem findMatchingSegment_startTime {before after : List TranscriptSegment}
    (hfirst : ∀ earlier ∈ before, earlier.startTime ≠ segment.startTime) :
    findMatchingSegment segment.startTime (before ++ segment::after) = some segment := by
  apply FirstBest.firstBest_of_first_max
  · rw [sub_self,abs_zero]
    norm_num
  · intro earlier hearlier
    have := abs_pos.mpr (sub_ne_zero.mpr (hfirst earlier hearlier))
    rw [sub_self,abs_zero]
    linarith
  · intro later _
    have := abs_nonneg (later.startTime - segment.startTime)
    rw [sub_self,abs_zero]
    linarith

/-- The rows for a pre-roll are for its segments. -/
theorem mem_foldl_addPreroll {identifications : IdentificationTable} {modelCallId : ℕ}
    {minConfidence baseConfidence : ℚ} {segments : List TranscriptSegment} {m : Matching}
    {row : NewIdentification} (h : row ∈ (segments.foldl
      (addPreroll identifications modelCallId minConfidence baseConfidence) m).toInsert) :
    row ∈ m.toInsert ∨ ∃ s ∈ segments, row.transcriptSegmentId = s.id := by
  induction segments generalizing m with
  | nil => exact .inl h
  | cons s segments ih =>
    rcases ih h with h | ⟨other,hother,heq⟩
    · rw [addPreroll] at h
      split at h
      · exact .inl h
      · rcases List.mem_append.mp h with h | h
        · exact .inl h
        · rw [List.mem_singleton.mp h]
          exact .inr ⟨s,List.mem_cons_self,rfl⟩
    · exact .inr ⟨other,List.mem_cons_of_mem s hother,heq⟩

theorem mem_prerollSegments {before after : List TranscriptSegment} {s : TranscriptSegment}
    (h : s ∈ prerollSegments (before ++ segment::after) segment) : s ∈ before := by
  rw [prerollSegments] at h
  split at h
  · cases h
  · have hindex : (before ++ segment::after).findIdx (fun s => s.id = segment.id) ≤
        before.length := by
      rw [List.findIdx_append]
      split
      · omega
      · simp [List.findIdx_cons]
    have hmem := (List.take_sublist_take_left hindex).mem (List.mem_of_mem_drop h)
    rwa [List.take_left] at hmem

/-- The rows for a single prediction are for the segment that it finds and those of its pre-roll. -/
theorem mem_createIdentifications_singleton {identifications : IdentificationTable}
    {modelCallId : ℕ} {minConfidence : ℚ} (prediction : AdSegmentPrediction)
    {contentType : Option ContentType} {row : NewIdentification}
    (hfound : findMatchingSegment prediction.segmentOffset chunk = some segment)
    (h : row ∈ (createIdentifications identifications modelCallId minConfidence chunk
      ⟨[prediction],contentType⟩).toInsert) :
    row.transcriptSegmentId = segment.id ∨
      ∃ s ∈ prerollSegments chunk segment, row.transcriptSegmentId = s.id := by
  rw [createIdentifications,List.foldl_cons,List.foldl_nil,createIdentification] at h
  simp only [hfound] at h
  split at h
  · cases h
  · split at h
    · cases h
    · split at h
      · cases h
      · refine (mem_foldl_addPreroll h).imp_left ?_
        intro hrow
        rw [List.mem_singleton.mp hrow]

/-- A segment behind one with its start is not named by its start alone. -/
theorem not_markable_of_earlier (before : List TranscriptSegment) {after : List TranscriptSegment}
    {earlier : TranscriptSegment}
    (hids : ((before ++ segment::after).map TranscriptSegment.id).Nodup)
    (hread : readOffset (printedOffset segment.startTime) = some segment.startTime)
    (hearlier : earlier ∈ before) (hsame : earlier.startTime = segment.startTime) :
    ¬Markable (before ++ segment::after) segment := by
  intro hmarkable
  -- the first of the segments with this start is the one that is found
  have hsome : (before.find? (fun s => s.startTime = segment.startTime)).isSome :=
    List.find?_isSome.mpr ⟨earlier,hearlier,by simpa using hsame⟩
  obtain ⟨first,hfirst⟩ := Option.isSome_iff_exists.mp hsome
  obtain ⟨hstart,front,middle,rfl,hfront⟩ := List.find?_eq_some_iff_append.mp hfirst
  have hstart : first.startTime = segment.startTime := by simpa using hstart
  rw [List.append_assoc,List.cons_append] at hmarkable hids
  have hfound : findMatchingSegment segment.startTime
      (front ++ first::(middle ++ segment::after)) = some first := by
    rw [← hstart]
    apply findMatchingSegment_startTime
    intro s hs
    simpa [hstart] using hfront s hs
  have hmarked := hmarkable Table.empty 0 0 ⟨[⟨segment.startTime,1⟩],none⟩
    ⟨segment.startTime,1⟩ List.mem_cons_self hread (by norm_num [adjustConfidence])
  rw [identificationsAfter,marked_insertIdentifications,or_iff_right not_marked_empty] at hmarked
  obtain ⟨row,hrow,hid⟩ := hmarked
  rw [List.map_append,List.map_cons,List.nodup_append] at hids
  obtain ⟨-,hfirstNodup,hacross⟩ := hids
  have hlater : segment.id ∈ (middle ++ segment::after).map TranscriptSegment.id :=
    List.mem_map_of_mem (List.mem_append_right _ List.mem_cons_self)
  rcases mem_createIdentifications_singleton ⟨segment.startTime,1⟩ hfound hrow with
    heq | ⟨s,hs,heq⟩
  · have hnot := (List.nodup_cons.mp hfirstNodup).1
    rw [← heq,hid] at hnot
    exact hnot hlater
  · exact hacross _ (List.mem_map_of_mem (mem_prerollSegments hs)) _
      (List.mem_cons_of_mem _ hlater) (heq.symm.trans hid)

end Named

/-- A segment can be marked by its printed offset exactly when no earlier segment of the chunk is
stored with the same start. -/
theorem markable_iff (C : StoredChunk) {segment : TranscriptSegment}
    (hmem : segment ∈ C.segments) : Markable C.segments segment ↔
      ∀ before after, C.segments = before ++ segment::after →
        ∀ earlier ∈ before, earlier.startTime ≠ segment.startTime := by
  obtain ⟨time,htime⟩ := C.stored segment hmem
  have hread : readOffset (printedOffset segment.startTime) = some segment.startTime := by
    rw [htime]
    exact readOffset_printedOffset time
  constructor
  · intro hmarkable before after hsplit earlier hearlier hsame
    have hids := C.ids
    rw [hsplit] at hmarkable hids
    exact not_markable_of_earlier _ hids hread hearlier hsame hmarkable
  · intro hfirst identifications modelCallId minConfidence predictions prediction hprediction
      hoffset hconfidence
    obtain ⟨before,after,hsplit⟩ := List.append_of_mem hmem
    have hstart : segment.startTime = prediction.segmentOffset :=
      Option.some.inj (hread.symm.trans hoffset)
    have hfound : findMatchingSegment prediction.segmentOffset C.segments = some segment := by
      rw [← hstart,hsplit]
      exact findMatchingSegment_startTime (hfirst before after hsplit)
    exact marked_identificationsAfter hprediction hconfidence hfound

/-- Two short segments, stored with one start. -/
def twins : StoredChunk where
  segments := [⟨1,0,storedTime (1201/100),some (storedTime (1203/100)),"And",none⟩,
    ⟨2,1,storedTime (1204/100),some (storedTime (1310/100)),"now a word",none⟩]
  ids := by decide
  stored := by
    intro s hs
    rcases List.mem_cons.mp hs with rfl | hs
    · exact ⟨_,rfl⟩
    · rw [List.mem_singleton.mp hs]
      exact ⟨_,rfl⟩

theorem markable_iff_first : Markable twins.segments
      ⟨1,0,storedTime (1201/100),some (storedTime (1203/100)),"And",none⟩ ↔
    ∀ before after, twins.segments =
        before ++ ⟨1,0,storedTime (1201/100),some (storedTime (1203/100)),"And",none⟩::after →
      ∀ earlier ∈ before, earlier.startTime ≠ storedTime (1201/100) :=
  markable_iff twins List.mem_cons_self

/-- The second of the two cannot be marked by the offset printed for it. -/
theorem not_markable_twin : ¬Markable twins.segments
    ⟨2,1,storedTime (1204/100),some (storedTime (1310/100)),"now a word",none⟩ :=
  not_markable_of_earlier [⟨1,0,storedTime (1201/100),some (storedTime (1203/100)),"And",none⟩]
    twins.ids (readOffset_printedOffset _) List.mem_cons_self (by decide +kernel)

end Podly.Classifier
