import Podly.Transcription.Rows

/-! The actions of the writer that a transcription sends, each one a transaction. -/
namespace Podly.Transcription
open Store Intervals Classifier

/-- `WHISPER_TRANSCRIPTION_PROMPT`. -/
def whisperTranscriptionPrompt : String := "Whisper transcription job"

/-- The key under which a call waits for its transcription to finish. -/
def placeholderKey (postId : ℕ) (modelName : String) : ℕ × CallKey := (postId,⟨0,-1,modelName⟩)

/-- The row that `upsert_whisper_model_call` adds. -/
def newWhisperCall (postId : ℕ) (modelName : String) (now : ℤ) (id : ℕ) : ModelCall :=
  { id, postId, firstSegmentSequenceNum := 0, lastSegmentSequenceNum := -1, modelName,
    prompt := whisperTranscriptionPrompt, response := none, timestamp := now, status := .pending,
    errorMessage := none, retryAttempts := 0 }

/-- `reset_fields`. -/
def ModelCall.resetFields (call : ModelCall) : ModelCall :=
  { call with
    status := .pending, prompt := whisperTranscriptionPrompt, retryAttempts := 0,
    errorMessage := none, response := none }

theorem ModelCall.resetFields_id (call : ModelCall) : call.resetFields.id = call.id := rfl

theorem ModelCall.resetFields_key (call : ModelCall) : call.resetFields.key = call.key := rfl

/-- The row of a transcription that waits for its end, and the rows with it. -/
def placeholderCall (postId : ℕ) (modelName : String) (now : ℤ) (db : Database) :
    ModelCall × Indexed ModelCall.id ModelCall.key :=
  db.calls.findOrCreate (placeholderKey postId modelName) (newWhisperCall postId modelName now)
    (fun _ => rfl) (fun _ => rfl)

/-- `upsert_whisper_model_call`. -/
def upsertWhisperModelCall (postId : ℕ) (modelName : String) (now : ℤ) (db : Database) :
    ℕ × Database :=
  let found := placeholderCall postId modelName now db
  (found.1.id,{ db with
    calls := found.2.modify found.1.id ModelCall.resetFields ModelCall.resetFields_id
      ModelCall.resetFields_key })

section
variable (postId : ℕ) (modelName : String) (now : ℤ) (db : Database)

/-- The row that a transcription is given waits under the placeholder key. -/
theorem upsertWhisperModelCall_own :
    ∃ call ∈ (upsertWhisperModelCall postId modelName now db).2.calls.table.rows,
      call.id = (upsertWhisperModelCall postId modelName now db).1 ∧
      call.key = placeholderKey postId modelName ∧ call.status = .pending := by
  have hfound : (placeholderCall postId modelName now db).1 ∈
      (placeholderCall postId modelName now db).2.table.rows ∧
      (placeholderCall postId modelName now db).1.key = placeholderKey postId modelName :=
    Indexed.findOrCreate_mem
  refine ⟨(placeholderCall postId modelName now db).1.resetFields,?_,rfl,hfound.2,rfl⟩
  exact (Indexed.mem_modify ModelCall.resetFields_id ModelCall.resetFields_key).mpr
    ⟨_,hfound.1,if_pos rfl⟩

variable {postId modelName}

/-- The rows under other keys are as before. -/
theorem mem_upsertWhisperModelCall_of_ne {call : ModelCall}
    (hkey : call.key ≠ placeholderKey postId modelName) :
    call ∈ (upsertWhisperModelCall postId modelName now db).2.calls.table.rows ↔
      call ∈ db.calls.table.rows := by
  have hfound : (placeholderCall postId modelName now db).1 ∈
      (placeholderCall postId modelName now db).2.table.rows ∧
      (placeholderCall postId modelName now db).1.key = placeholderKey postId modelName :=
    Indexed.findOrCreate_mem
  have hsame : call ∈ (placeholderCall postId modelName now db).2.table.rows ↔
      call ∈ db.calls.table.rows := Indexed.mem_findOrCreate_of_ne hkey
  rw [← hsame]
  refine Iff.trans (Indexed.mem_modify ModelCall.resetFields_id ModelCall.resetFields_key) ⟨?_,?_⟩
  · rintro ⟨row,hrow,rfl⟩
    split at hkey
    · rename_i hid
      rw [Table.eq_of_key_eq hrow hfound.1 hid] at hkey
      exact absurd hfound.2 hkey
    · rename_i hid
      rw [if_neg hid]
      exact hrow
  · intro hcall
    refine ⟨call,hcall,if_neg (fun hid => hkey ?_)⟩
    rw [Table.eq_of_key_eq hcall hfound.1 hid]
    exact hfound.2

/-- No call becomes successful by being found again. -/
theorem mem_of_mem_upsertWhisperModelCall {call : ModelCall}
    (hcall : call ∈ (upsertWhisperModelCall postId modelName now db).2.calls.table.rows)
    (hstatus : call.status = .success) : call ∈ db.calls.table.rows := by
  by_cases hkey : call.key = placeholderKey postId modelName
  · obtain ⟨own,hown,-,hownkey,hpending⟩ := upsertWhisperModelCall_own postId modelName now db
    rw [Indexed.eq_of_index_eq hcall hown (hkey.trans hownkey.symm),hpending] at hstatus
    cases hstatus
  · exact (mem_upsertWhisperModelCall_of_ne now db hkey).mp hcall

end

def uniqueFailed : String := "UNIQUE constraint failed: model_call.post_id, " ++
  "model_call.first_segment_sequence_num, model_call.last_segment_sequence_num, " ++
  "model_call.model_name"

/-- `Post not found`, or what an action does to a post that is there. -/
def withPost {α : Type} (postId : ℕ) (db : Database) (k : Except String (α × Database)) :
    Except String (α × Database) :=
  if db.HasPost postId then k else .error s!"Post {postId} not found"

/-- What the start of a replacement does to its call. -/
def ModelCall.restart (call : ModelCall) : ModelCall :=
  { call with
    firstSegmentSequenceNum := 0, lastSegmentSequenceNum := -1, response := none,
    status := .pending, errorMessage := none }

theorem ModelCall.restart_id (call : ModelCall) : call.restart.id = call.id := rfl

/-- The rows after the start of a replacement. -/
def Database.started (db : Database) (postId : ℕ) (calls : Indexed ModelCall.id ModelCall.key) :
    Database :=
  { db.setWords postId none with
    segments := db.dropSegments postId,
    identifications := db.identifications.deleteWhere (fun identification =>
      (db.stored postId).any (fun segment => segment.id = identification.transcriptSegmentId)),
    calls }

/-- `start_transcription_replace`. -/
def startTranscriptionReplace (postId modelCallId : ℕ) (db : Database) :
    Except String (ℕ × Database) :=
  withPost postId db <|
    match db.calls.update modelCallId ModelCall.restart ModelCall.restart_id with
    | none => .error uniqueFailed
    | some calls => .ok ((db.stored postId).length,db.started postId calls)

/-- `insert_transcript_segments`. -/
def insertTranscriptSegments (postId attempt : ℕ) (batch : List Payload) (db : Database) :
    Except String (ℕ × Database) :=
  withPost postId db <| .ok (batch.length,db.addSegments postId attempt batch)

/-- What the end of a replacement does to its call. -/
def ModelCall.succeed (segmentCount : ℕ) (call : ModelCall) : ModelCall :=
  { call with
    firstSegmentSequenceNum := 0, lastSegmentSequenceNum := segmentCount - 1,
    response := some s!"{segmentCount} segments transcribed.", status := .success,
    errorMessage := none }

theorem ModelCall.succeed_id (segmentCount : ℕ) (call : ModelCall) :
    (call.succeed segmentCount).id = call.id := rfl

/-- The rows after the end of a replacement. -/
def Database.succeeded (db : Database) (postId : ℕ) (words : Option (List SegmentWords))
    (calls : Indexed ModelCall.id ModelCall.key) : Database :=
  { db.setWords postId (normalizeTranscriptWordTimestampsPayload words) with calls }

/-- `finish_transcription_replace`, and what is left of `finish_transcription_replace_from_artifact`
once the file is read. -/
def finishTranscriptionReplace (postId modelCallId segmentCount : ℕ)
    (words : Option (List SegmentWords)) (db : Database) : Except String (ℕ × Database) :=
  withPost postId db <|
    match db.calls.update modelCallId (ModelCall.succeed segmentCount)
      (ModelCall.succeed_id segmentCount) with
    | none => .error uniqueFailed
    | some calls => .ok (segmentCount,db.succeeded postId words calls)

section
variable {postId modelCallId : ℕ} {db : Database}

theorem withPost_eq_ok {α : Type} {k : Except String (α × Database)} {result : α × Database}
    (h : withPost postId db k = .ok result) : db.HasPost postId ∧ k = .ok result := by
  unfold withPost at h
  split at h
  · rename_i hpost
    exact ⟨hpost,h⟩
  · cases h

@[simp] theorem withPost_of_hasPost {α : Type} (hpost : db.HasPost postId)
    (k : Except String (α × Database)) : withPost postId db k = k := if_pos hpost

theorem startTranscriptionReplace_eq_ok {count : ℕ} {db' : Database}
    (h : startTranscriptionReplace postId modelCallId db = .ok (count,db')) :
    ∃ calls, db.calls.update modelCallId ModelCall.restart ModelCall.restart_id = some calls ∧
      db' = db.started postId calls := by
  have hk := (withPost_eq_ok h).2
  split at hk
  · cases hk
  · rename_i calls hcalls
    cases hk
    exact ⟨calls,hcalls,rfl⟩

theorem insertTranscriptSegments_eq_ok {attempt count : ℕ} {batch : List Payload} {db' : Database}
    (h : insertTranscriptSegments postId attempt batch db = .ok (count,db')) :
    count = batch.length ∧ db' = db.addSegments postId attempt batch := by
  cases (withPost_eq_ok h).2
  exact ⟨rfl,rfl⟩

theorem finishTranscriptionReplace_eq_ok {segmentCount count : ℕ}
    {words : Option (List SegmentWords)} {db' : Database}
    (h : finishTranscriptionReplace postId modelCallId segmentCount words db = .ok (count,db')) :
    ∃ calls, db.calls.update modelCallId (ModelCall.succeed segmentCount)
      (ModelCall.succeed_id segmentCount) =
      some calls ∧ db' = db.succeeded postId words calls := by
  have hk := (withPost_eq_ok h).2
  split at hk
  · cases hk
  · rename_i calls hcalls
    cases hk
    exact ⟨calls,hcalls,rfl⟩

section
variable (db postId) (calls : Indexed ModelCall.id ModelCall.key)

@[simp] theorem stored_started (postId' : ℕ) : (db.started postId calls).stored postId' =
    if postId' = postId then [] else db.stored postId' := db.filter_dropSegments postId postId'

@[simp] theorem audio_started (postId' : ℕ) :
    (db.started postId calls).audio postId' = db.audio postId' :=
  Database.audio_setWords _ _ _ _

@[simp] theorem hasPost_started {postId' : ℕ} :
    (db.started postId calls).HasPost postId' ↔ db.HasPost postId' := Database.hasPost_setWords _ _

@[simp] theorem hasPost_addSegments {attempt : ℕ} {batch : List Payload} {postId' : ℕ} :
    (db.addSegments postId attempt batch).HasPost postId' ↔ db.HasPost postId' := Iff.rfl

@[simp] theorem hasPost_succeeded {words : Option (List SegmentWords)} {postId' : ℕ} :
    (db.succeeded postId words calls).HasPost postId' ↔ db.HasPost postId' :=
  Database.hasPost_setWords _ _

@[simp] theorem audio_succeeded {words : Option (List SegmentWords)} (postId' : ℕ) :
    (db.succeeded postId words calls).audio postId' = db.audio postId' :=
  Database.audio_setWords _ _ _ _

@[simp] theorem stored_succeeded {words : Option (List SegmentWords)} (postId' : ℕ) :
    (db.succeeded postId words calls).stored postId' = db.stored postId' := rfl

end

end

/-- `mark_model_call_failed`, with the status its caller sends. -/
def markModelCallFailed (modelCallId : ℕ) (errorMessage : String) (db : Database) : Database :=
  { db with
    calls := db.calls.modify modelCallId
      (fun call => { call with status := .failedPermanent, errorMessage := some errorMessage })
      (fun _ => rfl) (fun _ => rfl) }

/-- No call becomes successful by failing. -/
theorem mem_of_mem_markModelCallFailed {modelCallId : ℕ} {error : String} {db : Database}
    {call : ModelCall} (hcall : call ∈ (markModelCallFailed modelCallId error db).calls.table.rows)
    (hstatus : call.status = .success) : call ∈ db.calls.table.rows := by
  obtain ⟨row,hrow,rfl⟩ := List.mem_map.mp hcall
  dsimp only at hstatus ⊢
  split at hstatus
  · cases hstatus
  · rename_i hid
    rwa [if_neg hid]

end Podly.Transcription
