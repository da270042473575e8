import Podly.Classifier.Offsets
import Podly.Transcription.Reuse
import Podly.Transcription.TopLevelWords

/-! The word timestamps of an episode: under which segments they are stored, and which segments they
are attached to when they are read. -/
namespace Podly.Transcription
open Store Classifier

/-- A segment as a transcriber returns it, with its words. -/
structure RichSegment where
  start : ℚ
  end_ : ℚ
  text : String
  speakerLabel : Option String
  words : List WordTimestamp

/-- What is stored of a word: nothing unless it has both times. -/
def timedWord (word : WordTimestamp) : Option Word :=
  match word.start, word.stop with
  | some start, some stop => some ⟨word.word,start,stop,word.score⟩
  | _, _ => none

namespace RichSegment

def timedWords (segment : RichSegment) : List Word := segment.words.filterMap timedWord

/-- The segment with its times as they are stored. -/
def rounded (segment : RichSegment) : Segment :=
  ⟨storedTime segment.start,storedTime segment.end_,segment.text,segment.speakerLabel⟩

end RichSegment

/-- The words of numbered segments that are kept, for each segment that has some. -/
def numberedWords (keep : Word → Bool) (segments : List RichSegment) : List SegmentWords :=
  (segments.zipIdx.map (fun s => ⟨s.2,s.1.timedWords.filter keep⟩)).filter
    (fun entry => entry.words ≠ [])

/-- A column is null instead of an empty list. -/
def orNull (entries : List SegmentWords) : Option (List SegmentWords) :=
  if entries = [] then none else some entries

/-- `serialize_segment_word_timestamps`. -/
def serializeSegmentWordTimestamps (segments : List RichSegment) : Option (List SegmentWords) :=
  orNull ((segments.zipIdx.map (fun s => ⟨s.2,s.1.timedWords⟩)).filter
    (fun entry => entry.words ≠ []))

/-- `load_word_timestamps_by_sequence`: of several entries under one number the last one counts. -/
def loadWordTimestampsBySequence (column : Option (List SegmentWords)) (sequenceNum : ℕ) :
    List Word :=
  ((((column.getD []).filter (fun entry => entry.words ≠ [])).filter
    (fun entry => entry.sequenceNum = sequenceNum)).getLast?.map SegmentWords.words).getD []

/-- `merge_segments_with_saved_word_timestamps`: nothing if no words are saved. -/
def mergeSegmentsWithSavedWordTimestamps (baseSegments : List TranscriptSegment)
    (column : Option (List SegmentWords)) : Option (List RichSegment) :=
  if (column.getD []).all (fun entry => entry.words = []) then none
  else some (baseSegments.map (fun segment =>
    { start := segment.payload.startTime, end_ := segment.payload.endTime,
      text := segment.payload.text, speakerLabel := segment.payload.speakerLabel,
      words := (loadWordTimestampsBySequence column segment.payload.sequenceNum).map
        (fun word => ⟨word.word,some word.start,some word.end_,word.score⟩) }))

/-- The column of a post. -/
def Database.words (db : Database) (postId : ℕ) : Option (List SegmentWords) :=
  (db.posts.get postId).bind Post.transcriptWordTimestamps

/-- One call of `transcribe_for_processing` that asks for word timestamps, with what the transcriber
returns if it is called, in the batches it is stored in. -/
structure Transcribing where
  postId : ℕ
  modelName : String
  now : ℤ
  attempt : ℕ
  wordsOptional : Bool
  supportsWordTimestamps : Bool
  batches : List (List RichSegment)

/-- What the transcriber returns. -/
def Transcribing.fresh (call : Transcribing) : List RichSegment := call.batches.flatten

/-- `transcribe_for_processing`: the stored segments, the segments with words, and the rows. -/
def transcribeForProcessing (call : Transcribing) (db : Database) :
    Except String ((List TranscriptSegment × Option (List RichSegment)) × Database) :=
  match getReusableTranscription call.postId call.modelName db with
  | some existing =>
    match mergeSegmentsWithSavedWordTimestamps existing (db.words call.postId) with
    | some rich => .ok ((existing,some rich),db)
    | none =>
      if call.wordsOptional then .ok ((existing,none),db)
      else if call.supportsWordTimestamps then
        withPost call.postId db <| .ok ((existing,some call.fresh),
          db.setWords call.postId (serializeSegmentWordTimestamps call.fresh))
      else .ok ((existing,none),db)
  | none =>
    match (retranscribe call.postId call.modelName call.now call.attempt
      (call.batches.map (fun batch => batch.map RichSegment.rounded))
      (serializeSegmentWordTimestamps call.fresh) db).2 with
    | .error e => .error e
    | .ok db => .ok ((db.segmentsOf call.postId,some call.fresh),db)

/-- A word is within a segment, in time and in its text. -/
def Word.Within (word : Word) (payload : Payload) : Prop :=
  payload.startTime ≤ word.start ∧ word.end_ ≤ payload.endTime ∧
    word.word.toList <:+: payload.text.toList

instance (word : Word) (payload : Payload) : Decidable (word.Within payload) :=
  inferInstanceAs (Decidable (_ ∧ _))

/-- The words stored under a number. -/
def wordsUnder (column : Option (List SegmentWords)) (sequenceNum : ℕ) : List Word :=
  ((column.getD []).filter (fun entry => entry.sequenceNum = sequenceNum)).flatMap
    SegmentWords.words

/-- Stored words are within the segment of their number, and are the ones attached to it. -/
structure WordsBelong (db : Database) (postId : ℕ) : Prop where
  within : ∀ sequenceNum, ∀ word ∈ wordsUnder (db.words postId) sequenceNum,
    ∃ segment ∈ db.segmentsOf postId, segment.payload.sequenceNum = sequenceNum ∧
      word.Within segment.payload
  attached : ∀ sequenceNum, loadWordTimestampsBySequence (db.words postId) sequenceNum =
    wordsUnder (db.words postId) sequenceNum

/-- What has to fit for the words to belong: in a transcript that is new, the words of each segment
and its rounded times; in one that is reused, the new words and the segments that are stored. -/
def Transcribing.LinesUp (call : Transcribing) (db : Database) : Prop :=
  match getReusableTranscription call.postId call.modelName db with
  | none => ∀ (i : ℕ) segment, call.fresh[i]? = some segment → ∀ word ∈ segment.timedWords,
      word.start ≤ word.end_ →
        word.Within ⟨i,segment.rounded.start,segment.rounded.end_,segment.text,segment.speakerLabel⟩
  | some existing =>
    if (mergeSegmentsWithSavedWordTimestamps existing (db.words call.postId)).isSome ∨
        call.wordsOptional ∨ ¬call.supportsWordTimestamps then WordsBelong db call.postId
    else ∀ (i : ℕ) segment, call.fresh[i]? = some segment → ∀ word ∈ segment.timedWords,
      ∃ stored ∈ existing, stored.payload.sequenceNum = i ∧ word.Within stored.payload

section Stored
variable {segments : List RichSegment} {keep : Word → Bool} {entries : List SegmentWords}

@[simp] theorem getD_orNull (entries : List SegmentWords) : (orNull entries).getD [] = entries := by
  unfold orNull
  split
  · rename_i h
    rw [h]
    rfl
  · rfl

theorem serialize_eq (segments : List RichSegment) :
    serializeSegmentWordTimestamps segments = orNull (numberedWords (fun _ => true) segments) := by
  simp only [serializeSegmentWordTimestamps,numberedWords,List.filter_true]

/-- What is left once the writer has dropped the words that end before they start. -/
theorem normalize_serialize (segments : List RichSegment) :
    normalizeTranscriptWordTimestampsPayload (serializeSegmentWordTimestamps segments) =
      orNull (numberedWords (fun word => word.start ≤ word.end_) segments) := by
  have hwords : ∀ rows : List (RichSegment × ℕ),
      ((((rows.map (fun s => (⟨s.2,s.1.timedWords⟩ : SegmentWords))).filter
        (fun entry => entry.words ≠ [])).map (fun entry => { entry with
          words := entry.words.filter (fun word => decide (word.start ≤ word.end_)) })).filter
        (fun entry => entry.words ≠ [])) =
      (rows.map (fun s => (⟨s.2,s.1.timedWords.filter
        (fun word => decide (word.start ≤ word.end_))⟩ : SegmentWords))).filter
          (fun entry => entry.words ≠ []) := by
    intro rows
    induction rows with
    | nil => rfl
    | cons row rows ih =>
      by_cases hnone : row.1.timedWords = []
      · simpa [hnone] using ih
      · by_cases hleft : row.1.timedWords.filter (fun word => decide (word.start ≤ word.end_)) = []
        · simpa [hnone,hleft] using ih
        · simpa [hnone,hleft] using ih
  unfold serializeSegmentWordTimestamps
  rw [orNull]
  split
  · rename_i hnil
    have h := hwords segments.zipIdx
    rw [hnil] at h
    rw [numberedWords,← h]
    rfl
  · rw [normalizeTranscriptWordTimestampsPayload,hwords segments.zipIdx]
    rfl

theorem mem_wordsUnder {column : Option (List SegmentWords)} {sequenceNum : ℕ} {word : Word} :
    word ∈ wordsUnder column sequenceNum ↔
      ∃ entry ∈ column.getD [], entry.sequenceNum = sequenceNum ∧ word ∈ entry.words := by
  simp only [wordsUnder,List.mem_flatMap,List.mem_filter,decide_eq_true_eq,and_assoc]

theorem mem_numberedWords {entry : SegmentWords} : entry ∈ numberedWords keep segments ↔
    ∃ (i : ℕ) (segment : RichSegment), segments[i]? = some segment ∧
      entry = ⟨i,segment.timedWords.filter keep⟩ ∧ entry.words ≠ [] := by
  rw [numberedWords,List.mem_filter,decide_eq_true_eq,List.mem_map]
  constructor
  · rintro ⟨⟨⟨segment,i⟩,hmem,rfl⟩,hne⟩
    exact ⟨i,segment,List.mem_zipIdx_iff_getElem?.mp hmem,rfl,hne⟩
  · rintro ⟨i,segment,hget,rfl,hne⟩
    exact ⟨⟨(segment,i),List.mem_zipIdx_iff_getElem?.mpr hget,rfl⟩,hne⟩

/-- The words under a number are those of the segment at that place. -/
theorem mem_wordsUnder_numberedWords {sequenceNum : ℕ} {word : Word} :
    word ∈ wordsUnder (orNull (numberedWords keep segments)) sequenceNum ↔
      ∃ segment, segments[sequenceNum]? = some segment ∧ word ∈ segment.timedWords ∧ keep word := by
  rw [mem_wordsUnder,getD_orNull]
  constructor
  · rintro ⟨entry,hentry,rfl,hword⟩
    obtain ⟨i,segment,hget,rfl,-⟩ := mem_numberedWords.mp hentry
    exact ⟨segment,hget,List.mem_filter.mp hword⟩
  · rintro ⟨segment,hget,hword⟩
    have hmem : word ∈ segment.timedWords.filter keep := List.mem_filter.mpr hword
    exact ⟨_,mem_numberedWords.mpr ⟨sequenceNum,segment,hget,rfl,List.ne_nil_of_mem hmem⟩,rfl,hmem⟩

/-- Entries with words, each under a number of its own, are read as they are stored. -/
theorem load_eq_wordsUnder (hnodup : (entries.map SegmentWords.sequenceNum).Nodup)
    (hne : ∀ entry ∈ entries, entry.words ≠ []) (sequenceNum : ℕ) :
    loadWordTimestampsBySequence (orNull entries) sequenceNum =
      wordsUnder (orNull entries) sequenceNum := by
  have hall : entries.filter (fun entry => entry.words ≠ []) = entries :=
    List.filter_eq_self.mpr (by simpa using hne)
  rw [loadWordTimestampsBySequence,wordsUnder,getD_orNull,hall]
  have hsingle := (List.filter_sublist (p := fun entry : SegmentWords =>
    decide (entry.sequenceNum = sequenceNum)) (l := entries)).map SegmentWords.sequenceNum
  have hsame : ∀ entry ∈ entries.filter (fun entry => entry.sequenceNum = sequenceNum),
      entry.sequenceNum = sequenceNum := fun entry h => by simpa using (List.mem_filter.mp h).2
  generalize entries.filter (fun entry => entry.sequenceNum = sequenceNum) = found at hsingle hsame ⊢
  have hfound := hsingle.nodup hnodup
  cases found with
  | nil => rfl
  | cons first found =>
    cases found with
    | nil => simp
    | cons second found =>
      have hnumbers : first.sequenceNum = second.sequenceNum := by
        rw [hsame first (by simp),hsame second (by simp)]
      simp [hnumbers] at hfound

theorem load_numberedWords (sequenceNum : ℕ) :
    loadWordTimestampsBySequence (orNull (numberedWords keep segments)) sequenceNum =
      wordsUnder (orNull (numberedWords keep segments)) sequenceNum := by
  apply load_eq_wordsUnder
  · have hsublist : ((numberedWords keep segments).map SegmentWords.sequenceNum).Sublist
        (List.range' 0 segments.length) := by
      have h := (List.filter_sublist (p := fun entry : SegmentWords => decide (entry.words ≠ []))
        (l := segments.zipIdx.map (fun s => (⟨s.2,s.1.timedWords.filter keep⟩ : SegmentWords)))).map
        SegmentWords.sequenceNum
      rw [List.map_map] at h
      rw [← List.zipIdx_map_snd 0 segments]
      exact h
    exact hsublist.nodup List.nodup_range'
  · intro entry hentry
    obtain ⟨-,-,-,-,hne⟩ := mem_numberedWords.mp hentry
    exact hne

end Stored

section Calls
variable {call : Transcribing} {db db' : Database} {postId : ℕ}

theorem words_setWords (hpost : db.HasPost postId) (column : Option (List SegmentWords)) :
    (db.setWords postId column).words postId = column := by
  obtain ⟨post,hget⟩ := Option.ne_none_iff_exists'.mp hpost
  simp [Database.words,Database.setWords,hget]

/-- Words stored by their places belong exactly if they are within the segments of these numbers. -/
theorem wordsBelong_iff_of_numbered {keep : Word → Bool} {segments : List RichSegment}
    (hwords : db.words postId = orNull (numberedWords keep segments)) :
    WordsBelong db postId ↔ ∀ (i : ℕ) segment, segments[i]? = some segment →
      ∀ word ∈ segment.timedWords, keep word →
        ∃ stored ∈ db.segmentsOf postId, stored.payload.sequenceNum = i ∧
          word.Within stored.payload := by
  constructor
  · intro h i segment hget word hword hkeep
    apply h.within i word
    rw [hwords,mem_wordsUnder_numberedWords]
    exact ⟨segment,hget,hword,hkeep⟩
  · intro h
    constructor
    · intro i word hword
      rw [hwords,mem_wordsUnder_numberedWords] at hword
      obtain ⟨segment,hget,hword,hkeep⟩ := hword
      exact h i segment hget word hword hkeep
    · intro i
      rw [hwords]
      exact load_numberedWords i

/-- What a transcription that is stored leaves. -/
theorem retranscribe_eq_ok {postId attempt modelCallId : ℕ} {modelName : String} {now : ℤ}
    {batches : List (List Segment)} {column : Option (List SegmentWords)}
    (h : retranscribe postId modelName now attempt batches column db = (modelCallId,.ok db')) :
    (db'.segmentsOf postId).map TranscriptSegment.payload = numberFrom 0 batches.flatten ∧
      db'.words postId = normalizeTranscriptWordTimestampsPayload column := by
  have hpost : db.HasPost postId := by
    by_contra hnone
    have hnone' : ¬(upsertWhisperModelCall postId modelName now db).2.HasPost postId := hnone
    simp only [retranscribe,persistTranscriptionChunks,startTranscriptionReplace,withPost,
      if_neg hnone',Prod.mk.injEq,reduceCtorEq,and_false] at h
  obtain ⟨own,started,hwaiting,hretranscribe⟩ :=
    exists_waiting modelName now attempt batches column hpost
  rw [h] at hretranscribe
  obtain ⟨-,hfinish⟩ := Prod.mk.inj hretranscribe
  cases hresult : finishTranscriptionReplace postId own.id batches.flatten.length column
      (started.addSegments postId attempt (numberFrom 0 batches.flatten)) with
  | error e =>
    rw [hresult] at hfinish
    cases hfinish
  | ok result =>
    rw [hresult] at hfinish
    obtain rfl : db' = result.2 := by simpa [Except.map] using hfinish
    refine ⟨(completes_of_finish hwaiting.mem hwaiting.key hwaiting.empty hresult).1,?_⟩
    obtain ⟨calls,-,hdb⟩ := finishTranscriptionReplace_eq_ok hresult
    rw [hdb]
    exact words_setWords hwaiting.hasPost _

theorem exists_rounded {segments : List RichSegment} {stored : List TranscriptSegment}
    (hstored : stored.map TranscriptSegment.payload =
      numberFrom 0 (segments.map RichSegment.rounded)) {i : ℕ} {segment : RichSegment}
    (hget : segments[i]? = some segment) {P : Payload → Prop} :
    (∃ row ∈ stored, row.payload.sequenceNum = i ∧ P row.payload) ↔
      P ⟨i,segment.rounded.start,segment.rounded.end_,segment.text,segment.speakerLabel⟩ := by
  have hmem : ∀ payload, payload ∈ numberFrom 0 (segments.map RichSegment.rounded) ↔
      ∃ (j : ℕ) (other : RichSegment), segments[j]? = some other ∧ payload =
        ⟨j,other.rounded.start,other.rounded.end_,other.text,other.speakerLabel⟩ := by
    intro payload
    rw [numberFrom,List.mem_map]
    constructor
    · rintro ⟨⟨other,j⟩,hother,rfl⟩
      have hj := List.mem_zipIdx_iff_getElem?.mp hother
      rw [List.getElem?_map,Option.map_eq_some_iff] at hj
      obtain ⟨rich,hrich,rfl⟩ := hj
      exact ⟨j,rich,hrich,rfl⟩
    · rintro ⟨j,rich,hrich,rfl⟩
      refine ⟨(rich.rounded,j),List.mem_zipIdx_iff_getElem?.mpr ?_,rfl⟩
      simp [hrich]
  constructor
  · rintro ⟨row,hrow,hnumber,hP⟩
    have hpayload := List.mem_map_of_mem (f := TranscriptSegment.payload) hrow
    rw [hstored,hmem] at hpayload
    obtain ⟨j,other,hother,heq⟩ := hpayload
    rw [heq] at hnumber hP
    obtain rfl : j = i := hnumber
    obtain rfl : other = segment := Option.some.inj (hother.symm.trans hget)
    exact hP
  · intro hP
    have hpayload := (hmem _).mpr ⟨i,segment,hget,rfl⟩
    rw [← hstored,List.mem_map] at hpayload
    obtain ⟨row,hrow,heq⟩ := hpayload
    exact ⟨row,hrow,by rw [heq],by rw [heq]; exact hP⟩

/-- A new transcription stores the words of every segment under its number. -/
theorem wordsBelong_retranscribe_iff {modelCallId : ℕ}
    (h : retranscribe call.postId call.modelName call.now call.attempt
      (call.batches.map (fun batch => batch.map RichSegment.rounded))
      (serializeSegmentWordTimestamps call.fresh) db = (modelCallId,.ok db')) :
    WordsBelong db' call.postId ↔ ∀ (i : ℕ) segment, call.fresh[i]? = some segment →
      ∀ word ∈ segment.timedWords, word.start ≤ word.end_ →
        word.Within
          ⟨i,segment.rounded.start,segment.rounded.end_,segment.text,segment.speakerLabel⟩ := by
  obtain ⟨hsegments,hwords⟩ := retranscribe_eq_ok h
  rw [normalize_serialize] at hwords
  have hflatten : (call.batches.map (fun batch => batch.map RichSegment.rounded)).flatten =
      call.fresh.map RichSegment.rounded := List.map_flatten.symm
  rw [hflatten] at hsegments
  rw [wordsBelong_iff_of_numbered hwords]
  refine forall₃_congr (fun i segment hget => forall₂_congr (fun word _ => ?_))
  rw [exists_rounded hsegments hget (P := word.Within),decide_eq_true_eq]

/-- After a call the stored words belong to their segments exactly if what it stored them by lines
up. -/
theorem wordsBelong_transcribeForProcessing_iff
    {result : (List TranscriptSegment × Option (List RichSegment)) × Database}
    (h : transcribeForProcessing call db = .ok result) :
    WordsBelong result.2 call.postId ↔ call.LinesUp db := by
  unfold transcribeForProcessing at h
  unfold Transcribing.LinesUp
  cases hreuse : getReusableTranscription call.postId call.modelName db with
  | none =>
    simp only [hreuse] at h ⊢
    cases hretranscribe : retranscribe call.postId call.modelName call.now call.attempt
      (call.batches.map (fun batch => batch.map RichSegment.rounded))
      (serializeSegmentWordTimestamps call.fresh) db with
    | mk modelCallId outcome =>
      cases outcome with
      | error e =>
        rw [hretranscribe] at h
        cases h
      | ok db' =>
        rw [hretranscribe] at h
        cases h
        exact wordsBelong_retranscribe_iff hretranscribe
  | some existing =>
    simp only [hreuse] at h ⊢
    cases hmerge : mergeSegmentsWithSavedWordTimestamps existing (db.words call.postId) with
    | some rich =>
      simp only [hmerge] at h
      cases h
      rw [if_pos (.inl rfl)]
    | none =>
      simp only [hmerge] at h
      by_cases hoptional : call.wordsOptional
      · rw [if_pos hoptional] at h
        cases h
        rw [if_pos (.inr (.inl hoptional))]
      · rw [if_neg hoptional] at h
        by_cases hsupports : call.supportsWordTimestamps
        · rw [if_pos hsupports] at h
          obtain ⟨hpost,h⟩ := withPost_eq_ok h
          cases h
          rw [if_neg (by simp [hoptional,hsupports])]
          have hwords := words_setWords hpost (serializeSegmentWordTimestamps call.fresh)
          rw [serialize_eq] at hwords
          obtain ⟨-,-,-,-,-,hexisting,-⟩ := getReusableTranscription_eq_some hreuse
          rw [serialize_eq,wordsBelong_iff_of_numbered hwords,hexisting]
          simp only [forall_const]
          rfl
        · rw [if_neg hsupports] at h
          cases h
          rw [if_pos (.inr (.inr hsupports))]

end Calls

section Resegmented

/-- An episode transcribed without word timestamps, in two segments. -/
def inHalves : Database :=
  (run step (State.initial onePost) [.download 1 0,.transcribe 1 "a" 0,
    .start [[⟨0,10,"well then",none⟩,⟨10,20,"so be it",none⟩]] none,.write,.write]).db

/-- The transcriber returns both halves again, with words. -/
def sameHalves : Transcribing :=
  ⟨1,"a",1,1,false,true,[[⟨0,10,"well then",none,[⟨"well",some 1,some 2,none⟩]⟩,
    ⟨10,20,"so be it",none,[⟨"it",some 15,some 16,none⟩]⟩]]⟩

/-- The transcriber returns the episode in one segment. -/
def asOne : Transcribing :=
  ⟨1,"a",1,1,false,true,[[⟨0,20,"well then so be it",none,
    [⟨"well",some 1,some 2,none⟩,⟨"it",some 15,some 16,none⟩]⟩]]⟩

theorem wordsBelong_sameHalves : ∃ result, transcribeForProcessing sameHalves inHalves = .ok result ∧
    WordsBelong result.2 1 := by
  refine ⟨_,rfl,(wordsBelong_transcribeForProcessing_iff
    (show transcribeForProcessing sameHalves inHalves = .ok _ from rfl)).mpr ?_⟩
  change ∀ (i : ℕ) segment, sameHalves.fresh[i]? = some segment → ∀ word ∈ segment.timedWords,
    ∃ stored ∈ inHalves.segmentsOf 1, stored.payload.sequenceNum = i ∧ word.Within stored.payload
  intro i segment hget
  have hi := (List.getElem?_eq_some_iff.mp hget).1
  have hall : ∀ i < 2, ∀ segment ∈ sameHalves.fresh[i]?, ∀ word ∈ segment.timedWords,
      ∃ stored ∈ inHalves.segmentsOf 1, stored.payload.sequenceNum = i ∧
        word.Within stored.payload := by decide +kernel
  exact hall i hi segment hget

/-- The last word is stored under the first segment, which ends before it. -/
theorem not_wordsBelong_asOne : ∃ result, transcribeForProcessing asOne inHalves = .ok result ∧
    ¬WordsBelong result.2 1 :=
  ⟨_,rfl,fun h => absurd (h.within 0 ⟨"it",15,16,none⟩ (by decide +kernel)) (by decide +kernel)⟩

end Resegmented

end Podly.Transcription
