import Podly.Classifier.Records
import Podly.Intervals.Coalesce
import Podly.Store.Indexed

/-! The rows of an episode that a transcription reads and writes. -/
namespace Podly.Transcription
open Store Intervals Classifier

/-- The bytes of a downloaded file. -/
abbrev Audio := ℕ

/-- A word with its times. -/
structure Word where
  word : String
  start : ℚ
  end_ : ℚ
  score : Option ℚ
deriving DecidableEq

/-- The words of one segment. -/
structure SegmentWords where
  sequenceNum : ℕ
  words : List Word
deriving DecidableEq

/-- `_normalize_transcript_word_timestamps_payload`: words that end before they start are left out,
and so are segments without words. -/
def normalizeTranscriptWordTimestampsPayload (payload : Option (List SegmentWords)) :
    Option (List SegmentWords) :=
  match payload with
  | none => none
  | some segments =>
    let normalized := (segments.map (fun segment =>
      { segment with words := segment.words.filter (fun word => word.start ≤ word.end_) })).filter
      (fun segment => segment.words ≠ [])
    if normalized = [] then none else some normalized

/-- A row of `post`: the file its `unprocessed_audio_path` names, while it is there. -/
structure Post where
  id : ℕ
  unprocessedAudio : Option Audio
  transcriptWordTimestamps : Option (List SegmentWords)
deriving DecidableEq

/-- A segment as the batches of a transcription carry it. -/
structure Payload where
  sequenceNum : ℕ
  startTime : ℚ
  endTime : ℚ
  text : String
  speakerLabel : Option String
deriving DecidableEq

/-- A row of `transcript_segment`. The last field is history: the attempt that stored the row. -/
structure TranscriptSegment where
  id : ℕ
  postId : ℕ
  payload : Payload
  attempt : ℕ
deriving DecidableEq

/-- A row of `identification`. -/
structure Identification where
  id : ℕ
  transcriptSegmentId : ℕ
  modelCallId : ℕ
  confidence : Option ℚ
  label : String
deriving DecidableEq

/-- A row of `model_call` of a transcription. -/
structure ModelCall where
  id : ℕ
  postId : ℕ
  firstSegmentSequenceNum : ℤ
  lastSegmentSequenceNum : ℤ
  modelName : String
  prompt : String
  response : Option String
  timestamp : ℤ
  status : CallStatus
  errorMessage : Option String
  retryAttempts : ℕ
deriving DecidableEq

/-- The unique index `ix_model_call_post_chunk_model`. -/
def ModelCall.key (call : ModelCall) : ℕ × CallKey :=
  (call.postId,⟨call.firstSegmentSequenceNum,call.lastSegmentSequenceNum,call.modelName⟩)

structure Database where
  posts : Table Post.id
  segments : Table TranscriptSegment.id
  identifications : Table Identification.id
  calls : Indexed ModelCall.id ModelCall.key

/-- The rows of `transcript_segment` of a post. -/
def Database.stored (db : Database) (postId : ℕ) : List TranscriptSegment :=
  db.segments.rows.filter (fun segment => segment.postId = postId)

/-- The rows without those of a post. -/
def Database.dropSegments (db : Database) (postId : ℕ) : Table TranscriptSegment.id :=
  db.segments.deleteWhere (fun segment => segment.postId = postId)

theorem Database.filter_dropSegments (db : Database) (postId postId' : ℕ) :
    (db.dropSegments postId).rows.filter (fun segment => segment.postId = postId') =
      if postId' = postId then [] else db.stored postId' := by
  simp only [stored,dropSegments,Table.deleteWhere,List.filter_filter]
  by_cases h : postId' = postId
  · rw [if_pos h,List.filter_eq_nil_iff]
    simp [h]
  · rw [if_neg h]
    apply List.filter_congr
    intro segment _
    by_cases hsegment : segment.postId = postId'
    · simp [hsegment,h]
    · simp [hsegment]

/-- The segments of a post in the order of their sequence numbers. -/
def Database.segmentsOf (db : Database) (postId : ℕ) : List TranscriptSegment :=
  sortByKey (fun segment => segment.payload.sequenceNum) (db.stored postId)

@[simp] theorem Database.mem_segmentsOf {db : Database} {postId : ℕ}
    {segment : TranscriptSegment} :
    segment ∈ db.segmentsOf postId ↔ segment ∈ db.stored postId := mem_sortByKey _ _ _

@[simp] theorem Database.length_segmentsOf (db : Database) (postId : ℕ) :
    (db.segmentsOf postId).length = (db.stored postId).length := (sortByKey_perm _ _).length_eq

/-- The row of one entry of a batch. -/
def newSegment (postId attempt : ℕ) (payload : Payload) (id : ℕ) : TranscriptSegment :=
  ⟨id,postId,payload,attempt⟩

theorem newSegment_id (postId attempt : ℕ) (payload : Payload) (id : ℕ) :
    (newSegment postId attempt payload id).id = id := rfl

/-- Store a list of segments of a post. -/
def Database.addSegments (db : Database) (postId attempt : ℕ) (batch : List Payload) : Database :=
  { db with
    segments := db.segments.appendAll (newSegment postId attempt) (newSegment_id postId attempt)
      batch }

/-- What a stored row says apart from its id and its post. -/
def TranscriptSegment.content (segment : TranscriptSegment) : Payload × ℕ :=
  (segment.payload,segment.attempt)

theorem Database.content_stored_addSegments (db : Database) (postId attempt : ℕ)
    (batch : List Payload) (postId' : ℕ) :
    ((db.addSegments postId attempt batch).stored postId').map TranscriptSegment.content =
      (db.stored postId').map TranscriptSegment.content ++
        if postId' = postId then batch.map (fun payload => (payload,attempt)) else [] := by
  have hrows : (db.addSegments postId attempt batch).segments.rows.map
      (fun segment => (segment.postId,segment.content)) =
        db.segments.rows.map (fun segment => (segment.postId,segment.content)) ++
          batch.map (fun payload => (postId,payload,attempt)) :=
    Table.map_appendAll (newSegment_id postId attempt) (fun _ _ => rfl) db.segments batch
  have hsplit : ∀ rows : List TranscriptSegment,
      (rows.filter (fun segment => segment.postId = postId')).map TranscriptSegment.content =
        ((rows.map (fun segment => (segment.postId,segment.content))).filter
          (fun row => row.1 = postId')).map Prod.snd := by
    intro rows
    rw [List.filter_map,List.map_map]
    rfl
  rw [Database.stored,hsplit,hrows,List.filter_append,List.map_append,
    ← hsplit,Database.stored]
  congr 1
  by_cases hpost : postId' = postId
  · subst hpost
    rw [if_pos rfl,List.filter_eq_self.mpr (by simp),List.map_map]
    rfl
  · rw [if_neg hpost,List.filter_eq_nil_iff.mpr (by simp [Ne.symm hpost])]
    rfl

/-- The segments of another post stay. -/
theorem Database.stored_addSegments_of_ne (db : Database) {postId postId' : ℕ} (attempt : ℕ)
    (batch : List Payload) (h : postId' ≠ postId) :
    (db.addSegments postId attempt batch).stored postId' = db.stored postId' := by
  obtain ⟨new,hrows,hnew⟩ := Table.exists_rows_appendAll (newSegment_id postId attempt) db.segments
    batch
  have hrows' : (db.addSegments postId attempt batch).segments.rows = db.segments.rows ++ new :=
    hrows
  rw [stored,hrows',List.filter_append,stored]
  have hnone : new.filter (fun segment => segment.postId = postId') = [] := by
    rw [List.filter_eq_nil_iff]
    intro segment hsegment
    obtain ⟨payload,-,id,rfl⟩ := hnew segment hsegment
    simp [newSegment,h.symm]
  rw [hnone,List.append_nil]

/-- The payloads of a post after a batch. -/
theorem Database.payload_stored_addSegments (db : Database) (postId attempt : ℕ)
    (batch : List Payload) :
    ((db.addSegments postId attempt batch).stored postId).map TranscriptSegment.payload =
      (db.stored postId).map TranscriptSegment.payload ++ batch := by
  have hcontent := db.content_stored_addSegments postId attempt batch postId
  have hpayload := congrArg (fun rows => rows.map Prod.fst) hcontent
  simpa [List.map_map,Function.comp_def,TranscriptSegment.content] using hpayload

/-- A row of a post after a batch was there or is of the attempt. -/
theorem Database.attempt_of_mem_addSegments {db : Database} {postId attempt : ℕ}
    {batch : List Payload} {segment : TranscriptSegment}
    (h : segment ∈ (db.addSegments postId attempt batch).stored postId)
    (hattempt : ∀ segment ∈ db.stored postId, segment.attempt = attempt) :
    segment.attempt = attempt := by
  have hcontent := List.mem_map_of_mem (f := TranscriptSegment.content) h
  rw [db.content_stored_addSegments,if_pos rfl,List.mem_append] at hcontent
  rcases hcontent with hold | hnew
  · obtain ⟨old,hold,hsame⟩ := List.mem_map.mp hold
    rw [← hattempt old hold]
    exact (congrArg Prod.snd hsame).symm
  · obtain ⟨payload,-,hsame⟩ := List.mem_map.mp hnew
    exact (congrArg Prod.snd hsame).symm

@[simp] theorem Database.length_stored_addSegments (db : Database) (postId attempt : ℕ)
    (batch : List Payload) : ((db.addSegments postId attempt batch).stored postId).length =
      (db.stored postId).length + batch.length := by
  have h := congrArg List.length (db.content_stored_addSegments postId attempt batch postId)
  simpa using h

/-- Whether an action finds the row of a post. -/
def Database.HasPost (db : Database) (postId : ℕ) : Prop := db.posts.get postId ≠ none

instance (db : Database) (postId : ℕ) : Decidable (db.HasPost postId) :=
  inferInstanceAs (Decidable (_ ≠ _))

/-- The file stored for a post. -/
def Database.audio (db : Database) (postId : ℕ) : Option Audio :=
  (db.posts.get postId).bind Post.unprocessedAudio

/-- Write `transcript_word_timestamps` of a post. -/
def Database.setWords (db : Database) (postId : ℕ) (words : Option (List SegmentWords)) :
    Database :=
  { db with
    posts := db.posts.modify postId (fun post => { post with transcriptWordTimestamps := words })
      (fun _ => rfl) }

/-- Write the file of a post. -/
def Database.setAudio (db : Database) (postId : ℕ) (audio : Option Audio) : Database :=
  { db with
    posts := db.posts.modify postId (fun post => { post with unprocessedAudio := audio })
      (fun _ => rfl) }

section
variable (db : Database) (postId : ℕ)

@[simp] theorem Database.hasPost_setWords {words : Option (List SegmentWords)} {postId' : ℕ} :
    (db.setWords postId words).HasPost postId' ↔ db.HasPost postId' := by
  simp only [HasPost,setWords,Table.get_modify]
  split
  · rename_i h
    rw [h,ne_eq,Option.map_eq_none_iff]
  · exact Iff.rfl

@[simp] theorem Database.hasPost_setAudio {audio : Option Audio} {postId' : ℕ} :
    (db.setAudio postId audio).HasPost postId' ↔ db.HasPost postId' := by
  simp only [HasPost,setAudio,Table.get_modify]
  split
  · rename_i h
    rw [h,ne_eq,Option.map_eq_none_iff]
  · exact Iff.rfl

@[simp] theorem Database.audio_setWords (words : Option (List SegmentWords)) (postId' : ℕ) :
    (db.setWords postId words).audio postId' = db.audio postId' := by
  simp only [audio,setWords,Table.get_modify]
  split
  · rename_i h
    subst h
    cases db.posts.get postId' <;> rfl
  · rfl

theorem Database.audio_setAudio_of_ne {audio : Option Audio} {postId' : ℕ} (h : postId' ≠ postId) :
    (db.setAudio postId audio).audio postId' = db.audio postId' := by
  simp [Database.audio,setAudio,h]

/-- The file of a post that is there is the one written. -/
theorem Database.audio_setAudio_self {audio : Option Audio} :
    (db.setAudio postId audio).audio postId = if db.HasPost postId then audio else none := by
  simp only [Database.audio,setAudio,HasPost,Table.get_modify,if_true]
  by_cases hnone : db.posts.get postId = none
  · simp [hnone]
  · obtain ⟨post,hpost⟩ := Option.ne_none_iff_exists'.mp hnone
    simp [hpost]

end

end Podly.Transcription
