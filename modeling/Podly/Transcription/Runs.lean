import Mathlib.Data.List.Infix
import Podly.Store.Run
import Podly.Transcription.Actions

/-! The transcription runs of jobs over the store of the writer. A run is its writer actions one at
a time, and it can be cut off between any two of them; files are stored and dropped around it, and
an episode is cleaned up or reprocessed. -/
namespace Podly.Transcription
open Store Intervals Classifier

/-- A segment as a transcriber returns it, its times rounded. -/
structure Segment where
  start : ℚ
  end_ : ℚ
  text : String
  speakerLabel : Option String
deriving DecidableEq

/-- The entries of the batches for segments that are numbered from `i` on. -/
def numberFrom (i : ℕ) (segments : List Segment) : List Payload :=
  (segments.zipIdx i).map (fun s => ⟨s.2,s.1.start,s.1.end_,s.1.text,s.1.speakerLabel⟩)

/-- The batches of `enumerate(segments)`, however the segments are cut into batches. -/
def batchesFrom : ℕ → List (List Segment) → List (List Payload)
  | _, [] => []
  | i, batch::batches => numberFrom i batch::batchesFrom (i + batch.length) batches

@[simp] theorem length_numberFrom (i : ℕ) (segments : List Segment) :
    (numberFrom i segments).length = segments.length := by simp [numberFrom]

theorem numberFrom_append (i : ℕ) (segments more : List Segment) :
    numberFrom i (segments ++ more) =
      numberFrom i segments ++ numberFrom (i + segments.length) more := by
  simp [numberFrom,List.zipIdx_append]

/-- The batches together are the numbered segments. -/
theorem flatten_batchesFrom (i : ℕ) (batches : List (List Segment)) :
    (batchesFrom i batches).flatten = numberFrom i batches.flatten := by
  induction batches generalizing i with
  | nil => rfl
  | cons batch batches ih =>
    rw [batchesFrom,List.flatten_cons,ih,List.flatten_cons,numberFrom_append]

theorem numberFrom_sorted (i : ℕ) (segments : List Segment) :
    (numberFrom i segments).Pairwise (fun a b => a.sequenceNum ≤ b.sequenceNum) := by
  rw [numberFrom,List.pairwise_map]
  induction segments generalizing i with
  | nil => exact List.Pairwise.nil
  | cons segment segments ih =>
    rw [List.zipIdx_cons,List.pairwise_cons]
    refine ⟨?_,ih (i + 1)⟩
    intro s hs
    have hle := (List.mem_zipIdx hs).1
    exact (Nat.le_succ i).trans hle

/-- Rows stored in the order of their numbers are read in the order of the store. -/
theorem segmentsOf_of_payload {db : Database} {postId : ℕ} {segments : List Segment}
    (h : (db.stored postId).map TranscriptSegment.payload = numberFrom 0 segments) :
    db.segmentsOf postId = db.stored postId := by
  apply sortByKey_of_sorted
  have hsorted := numberFrom_sorted 0 segments
  rw [← h,List.pairwise_map] at hsorted
  exact hsorted

/-- The query of `_check_existing_transcription`. -/
def existingWhisperCall (postId : ℕ) (modelName : String) (db : Database) : Option ModelCall :=
  (sortByKey (fun call => OrderDual.toDual call.timestamp) (db.calls.table.rows.filter (fun call =>
    call.postId = postId ∧ call.modelName = modelName ∧ call.status = .success))).head?

/-- `get_reusable_transcription`. -/
def getReusableTranscription (postId : ℕ) (modelName : String) (db : Database) :
    Option (List TranscriptSegment) :=
  match existingWhisperCall postId modelName db with
  | none => none
  | some call =>
    let dbSegments := db.segmentsOf postId
    if dbSegments = [] then none
    else if call.lastSegmentSequenceNum = dbSegments.length - 1 then some dbSegments
    else none

/-- What is left to do of a run. -/
inductive Stage
  | transcribing
  | storing (segments : List Segment) (words : Option (List SegmentWords))
      (rest : List (List Payload)) (insertedCount : ℕ)
deriving DecidableEq

/-- A run of `transcribe_for_processing` past its check, and its local variables. -/
structure Attempt where
  number : ℕ
  postId : ℕ
  modelName : String
  modelCallId : ℕ
  audio : Audio
  stage : Stage
deriving DecidableEq

/-- What a run that came to its end has transcribed. -/
structure Output where
  attempt : ℕ
  postId : ℕ
  modelName : String
  audio : Audio
  segments : List Segment
deriving DecidableEq

/-- The store, the run of the worker, and as history the number of runs begun and the outputs of
those that came to their end. -/
structure State where
  db : Database
  current : Option Attempt
  begun : ℕ
  outputs : List Output

/-- The except branch of `transcribe_for_processing`. -/
def State.failed (s : State) (attempt : Attempt) (error : String) : State :=
  { s with db := markModelCallFailed attempt.modelCallId error s.db, current := none }

/-- A job that has its file comes to its transcription. -/
def State.transcribe (s : State) (postId : ℕ) (modelName : String) (now : ℤ) : State :=
  match s.current, s.db.audio postId with
  | none, some audio =>
    match getReusableTranscription postId modelName s.db with
    | some _ => s
    | none =>
      let (modelCallId,db) := upsertWhisperModelCall postId modelName now s.db
      { s with
        db, begun := s.begun + 1,
        current := some ⟨s.begun,postId,modelName,modelCallId,audio,.transcribing⟩ }
  | _, _ => s

/-- The next writer action of a run that has its segments. -/
def State.write (s : State) (attempt : Attempt) (segments : List Segment)
    (words : Option (List SegmentWords)) (rest : List (List Payload)) (insertedCount : ℕ) :
    State :=
  match rest with
  | batch::rest =>
    match insertTranscriptSegments attempt.postId attempt.number batch s.db with
    | .error e => s.failed attempt e
    | .ok (inserted,db) =>
      { s with
        db, current := some { attempt with
          stage := .storing segments words rest (insertedCount + inserted) } }
  | [] =>
    match finishTranscriptionReplace attempt.postId attempt.modelCallId insertedCount words
        s.db with
    | .error e => s.failed attempt e
    | .ok (_,db) =>
      { s with
        db, current := none,
        outputs := ⟨attempt.number,attempt.postId,attempt.modelName,attempt.audio,segments⟩::
          s.outputs }

/-- The transcriber returns its segments, and their replacement starts. -/
def State.start (s : State) (attempt : Attempt) (batches : List (List Segment))
    (words : Option (List SegmentWords)) : State :=
  match startTranscriptionReplace attempt.postId attempt.modelCallId s.db with
  | .error e => s.failed attempt e
  | .ok (_,db) =>
    { s with
      db, current := some { attempt with
        stage := .storing batches.flatten words (batchesFrom 0 batches) 0 } }

/-- The download step of a job: a file that is there is kept. -/
def State.download (s : State) (postId : ℕ) (audio : Audio) : State :=
  match s.current, s.db.audio postId with
  | none, none => { s with db := s.db.setAudio postId (some audio) }
  | _, _ => s

/-- `whisper_model_call_filter`. `LIKE` ignores case, and its underscore matches any character. -/
def ModelCall.isWhisper (call : ModelCall) : Bool :=
  let name := call.modelName.toList.map Char.toLower
  call.prompt = whisperTranscriptionPrompt || decide ("whisper".toList <:+: name) ||
    (decide ("local".toList <+: name) && name.length > 5)

/-- The rows that hang on the segments of a post, and the calls of the post not in `keep`. -/
def Database.dropDerived (db : Database) (postId : ℕ) (keep : ModelCall → Bool) : Database :=
  { db with
    identifications := db.identifications.deleteWhere (fun identification =>
      (db.stored postId).any (fun segment => segment.id = identification.transcriptSegmentId)),
    calls := db.calls.deleteWhere (fun call => call.postId = postId && !keep call) }

/-- `clear_post_processing_data`. -/
def clearPostProcessingData (postId : ℕ) (db : Database) : Database :=
  if db.HasPost postId then
    let dropped := ((db.dropDerived postId (fun _ => false)).setWords postId none).setAudio
      postId none
    { dropped with segments := db.dropSegments postId }
  else db

/-- `prepare_post_for_auto_retry`: the file stays. -/
def preparePostForAutoRetry (postId : ℕ) (db : Database) : Database :=
  if db.HasPost postId then db.dropDerived postId ModelCall.isWhisper else db

/-- `clear_post_processing_data_keep_transcript`. -/
def clearPostProcessingDataKeepTranscript (postId : ℕ) (db : Database) : Database :=
  if db.HasPost postId then
    (db.dropDerived postId ModelCall.isWhisper).setAudio postId none
  else db

/-- What can happen to the transcripts of a store. -/
inductive Label
  | download (postId : ℕ) (audio : Audio)
  | transcribe (postId : ℕ) (modelName : String) (now : ℤ)
  | start (batches : List (List Segment)) (words : Option (List SegmentWords))
  | write
  | fail (error : String)
  | interrupt
  | removeAudio (postId : ℕ)
  | clear (postId : ℕ)
  | clearKeepTranscript (postId : ℕ)
  | prepareForAutoRetry (postId : ℕ)

/-- One step. A run is interrupted when its process ends; the file of a post goes with the end of
its job or with retention. -/
def step (s : State) : Label → State
  | .download postId audio => s.download postId audio
  | .transcribe postId modelName now => s.transcribe postId modelName now
  | .start batches words =>
    match s.current with
    | some attempt =>
      match attempt.stage with
      | .transcribing => s.start attempt batches words
      | .storing .. => s
    | none => s
  | .write =>
    match s.current with
    | some attempt =>
      match attempt.stage with
      | .transcribing => s
      | .storing segments words rest insertedCount =>
        s.write attempt segments words rest insertedCount
    | none => s
  | .fail error =>
    match s.current with
    | some attempt => s.failed attempt error
    | none => s
  | .interrupt => { s with current := none }
  | .removeAudio postId => { s with db := s.db.setAudio postId none }
  | .clear postId => { s with db := clearPostProcessingData postId s.db }
  | .clearKeepTranscript postId =>
    { s with db := clearPostProcessingDataKeepTranscript postId s.db }
  | .prepareForAutoRetry postId => { s with db := preparePostForAutoRetry postId s.db }

/-- A store with its posts, before any transcription. -/
def State.initial (posts : Table Post.id) : State :=
  ⟨⟨posts,Table.empty,Table.empty,Indexed.empty⟩,none,0,[]⟩

/-- All that a step can do. -/
inductive Moves (s : State) : Label → State → Prop
  | idle {label : Label} : Moves s label s
  | download {postId : ℕ} {audio : Audio} (hidle : s.current = none)
      (haudio : s.db.audio postId = none) :
      Moves s (.download postId audio) { s with db := s.db.setAudio postId (some audio) }
  | transcribe {postId : ℕ} {modelName : String} {now : ℤ} {audio : Audio}
      (hidle : s.current = none) (haudio : s.db.audio postId = some audio) :
      Moves s (.transcribe postId modelName now) { s with
        db := (upsertWhisperModelCall postId modelName now s.db).2,
        begun := s.begun + 1,
        current := some ⟨s.begun,postId,modelName,
          (upsertWhisperModelCall postId modelName now s.db).1,audio,.transcribing⟩ }
  | fail {label : Label} {attempt : Attempt} (error : String)
      (hcurrent : s.current = some attempt) : Moves s label (s.failed attempt error)
  | start {attempt : Attempt} {batches : List (List Segment)}
      {words : Option (List SegmentWords)} {calls : Indexed ModelCall.id ModelCall.key}
      (hcurrent : s.current = some attempt)
      (hcalls : s.db.calls.update attempt.modelCallId ModelCall.restart ModelCall.restart_id =
        some calls) :
      Moves s (.start batches words) { s with
        db := s.db.started attempt.postId calls,
        current := some { attempt with
          stage := .storing batches.flatten words (batchesFrom 0 batches) 0 } }
  | store {attempt : Attempt} {segments : List Segment} {words : Option (List SegmentWords)}
      {batch : List Payload} {rest : List (List Payload)} {insertedCount : ℕ}
      (hcurrent : s.current = some attempt)
      (hstage : attempt.stage = .storing segments words (batch::rest) insertedCount) :
      Moves s .write { s with
        db := s.db.addSegments attempt.postId attempt.number batch,
        current := some { attempt with
          stage := .storing segments words rest (insertedCount + batch.length) } }
  | finish {attempt : Attempt} {segments : List Segment} {words : Option (List SegmentWords)}
      {insertedCount : ℕ} {calls : Indexed ModelCall.id ModelCall.key}
      (hcurrent : s.current = some attempt)
      (hstage : attempt.stage = .storing segments words [] insertedCount)
      (hcalls : s.db.calls.update attempt.modelCallId (ModelCall.succeed insertedCount)
        (ModelCall.succeed_id insertedCount) = some calls) :
      Moves s .write { s with
        db := s.db.succeeded attempt.postId words calls, current := none,
        outputs := ⟨attempt.number,attempt.postId,attempt.modelName,attempt.audio,segments⟩::
          s.outputs }
  | interrupt : Moves s .interrupt { s with current := none }
  | removeAudio {postId : ℕ} :
      Moves s (.removeAudio postId) { s with db := s.db.setAudio postId none }
  | clear {postId : ℕ} :
      Moves s (.clear postId) { s with db := clearPostProcessingData postId s.db }
  | clearKeepTranscript {postId : ℕ} : Moves s (.clearKeepTranscript postId)
      { s with db := clearPostProcessingDataKeepTranscript postId s.db }
  | prepareForAutoRetry {postId : ℕ} : Moves s (.prepareForAutoRetry postId)
      { s with db := preparePostForAutoRetry postId s.db }

section
variable {s : State} {attempt : Attempt}

theorem moves_start (batches : List (List Segment)) (words : Option (List SegmentWords))
    (hcurrent : s.current = some attempt) :
    Moves s (.start batches words) (s.start attempt batches words) := by
  unfold State.start
  split
  · exact .fail _ hcurrent
  · rename_i h
    obtain ⟨calls,hcalls,rfl⟩ := startTranscriptionReplace_eq_ok h
    exact .start hcurrent hcalls

theorem moves_write {segments : List Segment} {words : Option (List SegmentWords)}
    {rest : List (List Payload)} {insertedCount : ℕ} (hcurrent : s.current = some attempt)
    (hstage : attempt.stage = .storing segments words rest insertedCount) :
    Moves s .write (s.write attempt segments words rest insertedCount) := by
  unfold State.write
  cases rest with
  | nil =>
    dsimp only
    split
    · exact .fail _ hcurrent
    · rename_i h
      obtain ⟨calls,hcalls,rfl⟩ := finishTranscriptionReplace_eq_ok h
      exact .finish hcurrent hstage hcalls
  | cons batch rest =>
    dsimp only
    split
    · exact .fail _ hcurrent
    · rename_i h
      obtain ⟨rfl,rfl⟩ := insertTranscriptSegments_eq_ok h
      exact .store hcurrent hstage

theorem moves_transcribe (postId : ℕ) (modelName : String) (now : ℤ) :
    Moves s (.transcribe postId modelName now) (s.transcribe postId modelName now) := by
  unfold State.transcribe
  split
  · rename_i hidle haudio
    split
    · exact .idle
    · exact .transcribe hidle haudio
  · exact .idle

theorem moves_download (postId : ℕ) (audio : Audio) :
    Moves s (.download postId audio) (s.download postId audio) := by
  unfold State.download
  split
  · rename_i hidle haudio
    exact .download hidle haudio
  · exact .idle

/-- A step does one of these things. -/
theorem step_moves (s : State) (label : Label) : Moves s label (step s label) := by
  unfold step
  cases label with
  | download postId audio => exact moves_download postId audio
  | transcribe postId modelName now => exact moves_transcribe postId modelName now
  | start batches words =>
    dsimp only
    split
    · rename_i hcurrent
      split
      · exact moves_start batches words hcurrent
      · exact .idle
    · exact .idle
  | write =>
    dsimp only
    split
    · rename_i hcurrent
      split
      · exact .idle
      · rename_i hstage
        exact moves_write hcurrent hstage
    · exact .idle
  | fail error =>
    dsimp only
    split
    · rename_i hcurrent
      exact .fail error hcurrent
    · exact .idle
  | interrupt => exact .interrupt
  | removeAudio postId => exact .removeAudio
  | clear postId => exact .clear
  | clearKeepTranscript postId => exact .clearKeepTranscript
  | prepareForAutoRetry postId => exact .prepareForAutoRetry

end

/-- The row of a post stays. -/
theorem hasPost_step {postId : ℕ} (s : State) (label : Label) (h : s.db.HasPost postId) :
    (step s label).db.HasPost postId := by
  have hmoves := step_moves s label
  generalize step s label = s' at hmoves
  cases hmoves with
  | idle | fail | store | transcribe | interrupt => exact h
  | download | removeAudio => exact (Database.hasPost_setAudio _ _).mpr h
  | start => exact (hasPost_started _ _ _).mpr h
  | finish => exact (hasPost_succeeded _ _ _).mpr h
  | clear =>
    dsimp only
    unfold clearPostProcessingData
    split
    · exact (Database.hasPost_setAudio _ _).mpr ((Database.hasPost_setWords _ _).mpr h)
    · exact h
  | clearKeepTranscript =>
    dsimp only
    unfold clearPostProcessingDataKeepTranscript
    split
    · exact (Database.hasPost_setAudio _ _).mpr h
    · exact h
  | prepareForAutoRetry =>
    dsimp only
    unfold preparePostForAutoRetry
    split
    · exact h
    · exact h

end Podly.Transcription
