import Podly.Episodes.References

/-! The actions of the writer on the calls, the segments and the identifications of an episode. -/
namespace Podly.Episodes
open Store Classifier

/-- The error of a statement that SQLite refuses. -/
def databaseError : String := "database operation failed"

/-- A column of `model_call`, with the value that an update writes. -/
inductive CallColumn
  | postId (value : ℕ)
  | firstSegmentSequenceNum (value : ℤ)
  | lastSegmentSequenceNum (value : ℤ)
  | modelName (value : String)
  | prompt (value : String)
  | status (value : Writer.ModelCallStatus)
  | errorMessage (value : Option String)
deriving DecidableEq

def CallColumn.apply (column : CallColumn) (call : ModelCall) : ModelCall :=
  match column with
  | .postId value => { call with postId := value }
  | .firstSegmentSequenceNum value => { call with firstSegmentSequenceNum := value }
  | .lastSegmentSequenceNum value => { call with lastSegmentSequenceNum := value }
  | .modelName value => { call with modelName := value }
  | .prompt value => { call with prompt := value }
  | .status value => { call with status := value }
  | .errorMessage value => { call with errorMessage := value }

theorem CallColumn.apply_id (column : CallColumn) (call : ModelCall) :
    (column.apply call).id = call.id := by
  cases column <;> rfl

/-- The post that a column moves a call to. -/
def CallColumn.newPostId : CallColumn → Option ℕ
  | .postId value => some value
  | _ => none

/-- Only one column moves a call to another post. -/
theorem CallColumn.apply_postId (column : CallColumn) (call : ModelCall) :
    (column.apply call).postId = call.postId ∨
      (column.apply call).postId ∈ column.newPostId := by
  cases column with
  | postId value => exact Or.inr rfl
  | _ => exact Or.inl rfl

/-- Write columns of a call one after the other; the unique index may refuse one. -/
def setCallColumns (callId : ℕ) : List CallColumn → Indexed ModelCall.id ModelCall.key →
    Option (Indexed ModelCall.id ModelCall.key)
  | [], calls => some calls
  | column::columns, calls =>
    match calls.update callId column.apply column.apply_id with
    | none => none
    | some calls' => setCallColumns callId columns calls'

/-- The row that the upserts add. -/
def newCall (postId : ℕ) (key : CallKey) (prompt : String) (id : ℕ) : ModelCall :=
  { id, postId, firstSegmentSequenceNum := key.firstSegmentSequenceNum,
    lastSegmentSequenceNum := key.lastSegmentSequenceNum, modelName := key.modelName, prompt,
    status := .unfinished "pending", errorMessage := none }

/-- The call under a key, created if there is none. -/
def upsertCall (postId : ℕ) (key : CallKey) (prompt : String) (db : Database) :
    ModelCall × Indexed ModelCall.id ModelCall.key :=
  db.calls.findOrCreate (postId,key) (newCall postId key prompt) (fun _ => rfl) (fun _ => rfl)

/-- The statuses that `upsert_model_call` resets. -/
def isReset : Writer.ModelCallStatus → Bool
  | .success => false
  | .failedPermanent | .cancelled => true
  | .unfinished name => name = "pending" || name = "retrying" || name = "failed_retries"

def ModelCall.restart (prompt : String) (call : ModelCall) : ModelCall :=
  if isReset call.status then
    { call with status := .unfinished "pending", prompt, errorMessage := none }
  else call

theorem ModelCall.restart_id (prompt : String) (call : ModelCall) :
    (call.restart prompt).id = call.id := by
  unfold restart
  split <;> rfl

theorem ModelCall.restart_key (prompt : String) (call : ModelCall) :
    (call.restart prompt).key = call.key := by
  unfold restart
  split <;> rfl

/-- `upsert_model_call`, which does not look for the post. -/
def upsertModelCallAction (postId : ℕ) (key : CallKey) (prompt : String) (db : Database) :
    Outcome :=
  if prompt = "" then .error "prompt is required"
  else
    let found := upsertCall postId key prompt db
    .ok { db with
      calls := found.2.modify found.1.id (ModelCall.restart prompt) (ModelCall.restart_id prompt)
        (ModelCall.restart_key prompt) }

/-- The prompt of a call that transcribes. -/
def whisperPrompt : String := "Whisper transcription job"

/-- `upsert_whisper_model_call`; without `reset_fields` the columns are the ones of a new call. -/
def upsertWhisperModelCallAction (postId : ℕ) (key : CallKey) (prompt : Option String)
    (resetFields : Option (List CallColumn)) (db : Database) : Outcome :=
  let prompt := (prompt.filter (fun prompt => prompt ≠ "")).getD whisperPrompt
  let columns := resetFields.getD
    [.status (.unfinished "pending"),.prompt whisperPrompt,.errorMessage none]
  let found := upsertCall postId key prompt db
  match setCallColumns found.1.id columns found.2 with
  | none => .error databaseError
  | some calls => .ok { db with calls }

/-- `delete_model_calls_for_post_by_model_name`. -/
def deleteModelCallsForPostByModelNameAction (postId : ℕ) (modelName : String) (db : Database) :
    Outcome :=
  if modelName = "" then .error "post_id and model_name are required"
  else .ok { db with
    calls := db.calls.deleteWhere
      (fun call => call.postId = postId && call.modelName = modelName) }

/-- A segment of a transcription. -/
structure SegmentData where
  sequenceNum : ℤ
  startTime : ℚ
  endTime : ℚ
  text : String

def newSegment (postId : ℕ) (data : SegmentData) (id : ℕ) : TranscriptSegment :=
  ⟨id,postId,data.sequenceNum,data.startTime,data.endTime,data.text⟩

/-- Insert segments of a post, until the unique index refuses one. -/
def insertSegments (postId : ℕ) : List SegmentData →
    Indexed TranscriptSegment.id TranscriptSegment.key →
    Option (Indexed TranscriptSegment.id TranscriptSegment.key)
  | [], segments => some segments
  | data::rest, segments =>
    match segments.insert (newSegment postId data segments.table.nextKey) with
    | none => none
    | some segments' => insertSegments postId rest segments'

/-- Write the word timestamps of a post. -/
def setWords (postId : ℕ) (words : Option String) (db : Database) : Database :=
  { db with
    posts := db.posts.modify postId
      (fun post => { post with
        outputs := fun column =>
          if column = .transcriptWordTimestamps then words else post.outputs column })
      (fun _ => rfl) (fun _ => rfl) }

/-- The row of a transcription that starts, or that has stored some segments. -/
def ModelCall.transcribing (lastSegmentSequenceNum : ℤ) (status : Writer.ModelCallStatus)
    (call : ModelCall) : ModelCall :=
  { call with
    firstSegmentSequenceNum := 0, lastSegmentSequenceNum, status, errorMessage := none }

theorem ModelCall.transcribing_id (last : ℤ) (status : Writer.ModelCallStatus)
    (call : ModelCall) : (call.transcribing last status).id = call.id := rfl

theorem ModelCall.transcribing_postId (last : ℤ) (status : Writer.ModelCallStatus)
    (call : ModelCall) : (call.transcribing last status).postId = call.postId := rfl

/-- Update the call of a transcription, when there is one. -/
def setTranscribing (modelCallId : Option ℕ) (last : ℤ) (status : Writer.ModelCallStatus)
    (db : Database) : Outcome :=
  match modelCallId with
  | none => .ok db
  | some callId =>
    match db.calls.update callId (ModelCall.transcribing last status)
        (ModelCall.transcribing_id last status) with
    | none => .error databaseError
    | some calls => .ok { db with calls }

/-- Delete the segments of a post and their identifications. -/
def dropSegments (postId : ℕ) (db : Database) : Database :=
  { db with
    identifications := db.deleteIdentifications (fun id => id = postId)
    segments := db.segments.deleteWhere (fun segment => segment.postId = postId) }

def startTranscriptionReplaceAction (postId : ℕ) (modelCallId : Option ℕ) (db : Database) :
    Outcome :=
  withPost postId db fun _ =>
    setTranscribing modelCallId (-1) (.unfinished "pending")
      (setWords postId none (dropSegments postId db))

def insertTranscriptSegmentsAction (postId : ℕ) (data : List SegmentData) (db : Database) :
    Outcome :=
  withPost postId db fun _ =>
    match insertSegments postId data db.segments with
    | none => .error databaseError
    | some segments => .ok { db with segments }

/-- `finish_transcription_replace`, with or without an artifact. -/
def finishTranscriptionReplaceAction (postId : ℕ) (modelCallId : Option ℕ) (segmentCount : ℤ)
    (words : Option String) (db : Database) : Outcome :=
  withPost postId db fun _ =>
    setTranscribing modelCallId (segmentCount - 1) .success (setWords postId words db)

def replaceTranscriptionAction (postId : ℕ) (modelCallId : Option ℕ) (data : List SegmentData)
    (words : Option String) (db : Database) : Outcome := do
  let started ← startTranscriptionReplaceAction postId modelCallId db
  let inserted ← insertTranscriptSegmentsAction postId data started
  finishTranscriptionReplaceAction postId modelCallId data.length words inserted

/-- `mark_model_call_failed`; a call that is not there is not an error. -/
def markModelCallFailedAction (callId : ℕ) (status : Writer.ModelCallStatus)
    (errorMessage : Option String) (db : Database) : Outcome :=
  .ok { db with
    calls := db.calls.modify callId (fun call => { call with status, errorMessage })
      (fun _ => rfl) (fun _ => rfl) }

/-- An identification as it is sent. -/
structure IdentificationData where
  transcriptSegmentId : ℕ
  modelCallId : ℕ
  label : String
  confidence : Option ℚ

def newIdentification (data : IdentificationData) (id : ℕ) : Identification :=
  ⟨id,data.transcriptSegmentId,data.modelCallId,data.confidence,
    if data.label = "" then "ad" else data.label⟩

/-- `INSERT OR IGNORE` of each identification; neither its segment nor its call is looked for. -/
def insertIdentifications : List IdentificationData →
    Indexed Identification.id Identification.key → Indexed Identification.id Identification.key
  | [], rows => rows
  | data::rest, rows =>
    insertIdentifications rest
      ((rows.insert (newIdentification data rows.table.nextKey)).getD rows)

def insertIdentificationsAction (data : List IdentificationData) (db : Database) : Outcome :=
  .ok { db with identifications := insertIdentifications data db.identifications }

def replaceIdentificationsAction (deleteIds : List ℕ) (data : List IdentificationData)
    (db : Database) : Outcome :=
  .ok { db with
    identifications := insertIdentifications data
      (db.identifications.deleteWhere (fun row => row.id ∈ deleteIds)) }

/-- An audio segment as it is sent. -/
structure AudioData where
  startTime : ℚ
  endTime : ℚ
  label : String

def newAudioSegment (postId : ℕ) (modelCallId : Option ℕ) (data : AudioData) (id : ℕ) :
    AudioSegment := ⟨id,postId,modelCallId,data.label,data.startTime,data.endTime⟩

theorem newAudioSegment_id (postId : ℕ) (modelCallId : Option ℕ) (data : AudioData) (id : ℕ) :
    (newAudioSegment postId modelCallId data id).id = id := rfl

def replaceAudioSegmentsAction (postId : ℕ) (modelCallId : Option ℕ) (data : List AudioData)
    (db : Database) : Outcome :=
  withPost postId db fun _ =>
    .ok { db with
      audioSegments := (db.audioSegments.deleteWhere (fun audio => audio.postId = postId)).appendAll
        (newAudioSegment postId modelCallId) (newAudioSegment_id postId modelCallId)
        (data.filter (fun audio => audio.startTime < audio.endTime)) }

theorem withPost_eq_ok {postId : ℕ} {db db' : Database} {k : Post → Outcome}
    (h : withPost postId db k = .ok db') :
    ∃ post, db.posts.get postId = some post ∧ k post = .ok db' := by
  unfold withPost at h
  split at h
  · cases h
  · rename_i post hpost
    exact ⟨post,hpost,h⟩

section
variable {db db' : Database}

/-- Calls written column by column keep their ids, and their posts are there if the new ones are. -/
theorem noDangling_setCallColumns {callId : ℕ} {columns : List CallColumn}
    (hposts : ∀ column ∈ columns, ∀ postId ∈ column.newPostId, db.HasPost postId)
    {calls calls' : Indexed ModelCall.id ModelCall.key} (h : NoDangling { db with calls })
    (hset : setCallColumns callId columns calls = some calls') :
    NoDangling { db with calls := calls' } := by
  induction columns generalizing calls with
  | nil =>
    obtain rfl := Option.some.inj hset
    exact h
  | cons column columns ih =>
    rw [setCallColumns] at hset
    split at hset
    · cases hset
    · rename_i updated hupdated
      refine ih (fun other hmem => hposts other (List.mem_cons_of_mem _ hmem)) ?_ hset
      have hids : updated.table.rows.map ModelCall.id = calls.table.rows.map ModelCall.id :=
        Indexed.map_update hupdated column.apply_id
      have hcalls : Refers ModelCall.postId Post.id updated.table.rows db.posts.table.rows := by
        rw [refers_iff]
        intro call hcall
        obtain ⟨row,hrow,rfl⟩ := (Indexed.mem_update hupdated).mp hcall
        have hold : db.HasPost row.postId := h.calls.exists_parent hrow
        split
        · rcases column.apply_postId row with hsame | hmoved
          · rw [hsame]
            exact hold
          · exact hposts column List.mem_cons_self _ hmoved
        · exact hold
      exact { h with calls := hcalls, answered := h.answered.of_parents_eq hids }

/-- A call is found or created for a post that is there. -/
theorem noDangling_upsertCall (h : NoDangling db) {postId : ℕ} (hpost : db.HasPost postId)
    (key : CallKey) (prompt : String) :
    NoDangling { db with calls := (upsertCall postId key prompt db).2 } := by
  have hrows : (upsertCall postId key prompt db).2.table.rows = db.calls.table.rows ∨
      (upsertCall postId key prompt db).2.table.rows =
        db.calls.table.rows ++ [newCall postId key prompt db.calls.table.nextKey] :=
    Indexed.rows_findOrCreate
  rcases hrows with hsame | hadded
  · exact h.of_calls_eq (congrArg _ hsame) (congrArg _ hsame)
  · refine { h with calls := ?_, answered := ?_ }
    · rw [hadded]
      refine h.calls.append (fun call hcall => ?_)
      obtain rfl := List.mem_singleton.mp hcall
      exact hpost
    · rw [hadded]
      exact h.answered.append_parents _

theorem noDangling_modifyCall (h : NoDangling db) {callId : ℕ} {f : ModelCall → ModelCall}
    {hid : ∀ call, (f call).id = call.id} {hkey : ∀ call, (f call).key = call.key} :
    NoDangling { db with calls := db.calls.modify callId f hid hkey } :=
  h.of_calls_eq (Table.map_modify hid hid)
    (Table.map_modify hid (fun call => congrArg Prod.fst (hkey call)))

theorem noDangling_upsertModelCall (h : NoDangling db) {postId : ℕ} {key : CallKey}
    {prompt : String} (hpost : prompt ≠ "" → db.HasPost postId)
    (hok : upsertModelCallAction postId key prompt db = .ok db') : NoDangling db' := by
  unfold upsertModelCallAction at hok
  split at hok
  · cases hok
  · rename_i hprompt
    obtain rfl := Except.ok.inj hok
    exact noDangling_modifyCall (noDangling_upsertCall h (hpost hprompt) key prompt)

theorem noDangling_upsertWhisperModelCall (h : NoDangling db) {postId : ℕ} {key : CallKey}
    {prompt : Option String} {resetFields : Option (List CallColumn)} (hpost : db.HasPost postId)
    (hmoved : ∀ columns ∈ resetFields, ∀ column ∈ columns, ∀ postId ∈ column.newPostId,
      db.HasPost postId)
    (hok : upsertWhisperModelCallAction postId key prompt resetFields db = .ok db') :
    NoDangling db' := by
  unfold upsertWhisperModelCallAction at hok
  dsimp only at hok
  split at hok
  · cases hok
  · rename_i calls hset
    obtain rfl := Except.ok.inj hok
    refine noDangling_setCallColumns ?_ (noDangling_upsertCall h hpost key _) hset
    cases resetFields with
    | none => simp [CallColumn.newPostId]
    | some columns => exact hmoved columns rfl

theorem noDangling_deleteModelCallsForPostByModelName (h : NoDangling db) {postId : ℕ}
    {modelName : String} (hcalls : modelName ≠ "" → CallsUnused db db.identifications
      (fun call => call.postId = postId && call.modelName = modelName))
    (hok : deleteModelCallsForPostByModelNameAction postId modelName db = .ok db') :
    NoDangling db' := by
  unfold deleteModelCallsForPostByModelNameAction at hok
  split at hok
  · cases hok
  · rename_i hname
    obtain rfl := Except.ok.inj hok
    exact h.drop_calls (hcalls hname)

theorem noDangling_setTranscribing (h : NoDangling db) {modelCallId : Option ℕ} {last : ℤ}
    {status : Writer.ModelCallStatus} (hok : setTranscribing modelCallId last status db = .ok db') :
    NoDangling db' := by
  unfold setTranscribing at hok
  split at hok
  · exact Except.ok.inj hok ▸ h
  · split at hok
    · cases hok
    · rename_i calls hupdated
      obtain rfl := Except.ok.inj hok
      exact h.of_calls_eq (Indexed.map_update hupdated (ModelCall.transcribing_id last status))
        (Indexed.map_update hupdated (ModelCall.transcribing_postId last status))

theorem noDangling_startTranscriptionReplace (h : NoDangling db) {postId : ℕ}
    {modelCallId : Option ℕ} (hok : startTranscriptionReplaceAction postId modelCallId db = .ok db') :
    NoDangling db' := by
  obtain ⟨post,-,hok⟩ := withPost_eq_ok hok
  have hdropped : NoDangling (dropSegments postId db) := h.drop_segments (fun id => id = postId)
  exact noDangling_setTranscribing hdropped.modify_post hok

theorem exists_rows_insertSegments {postId : ℕ} {data : List SegmentData}
    {segments segments' : Indexed TranscriptSegment.id TranscriptSegment.key}
    (hinsert : insertSegments postId data segments = some segments') :
    ∃ new, segments'.table.rows = segments.table.rows ++ new ∧
      ∀ segment ∈ new, segment.postId = postId := by
  induction data generalizing segments with
  | nil =>
    obtain rfl := Option.some.inj hinsert
    exact ⟨[],(List.append_nil _).symm,fun segment hsegment => absurd hsegment List.not_mem_nil⟩
  | cons first rest ih =>
    rw [insertSegments] at hinsert
    split at hinsert
    · cases hinsert
    · rename_i inserted hfirst
      obtain ⟨new,hrows,hnew⟩ := ih hinsert
      refine ⟨newSegment postId first segments.table.nextKey::new,?_,?_⟩
      · rw [hrows,Indexed.rows_insert hfirst,List.append_assoc,List.singleton_append]
      · intro segment hsegment
        rcases List.mem_cons.mp hsegment with rfl | hsegment
        · rfl
        · exact hnew segment hsegment

theorem noDangling_insertTranscriptSegments (h : NoDangling db) {postId : ℕ}
    {data : List SegmentData} (hok : insertTranscriptSegmentsAction postId data db = .ok db') :
    NoDangling db' := by
  obtain ⟨post,hpost,hok⟩ := withPost_eq_ok hok
  split at hok
  · cases hok
  · rename_i segments hinsert
    obtain rfl := Except.ok.inj hok
    obtain ⟨new,hrows,hnew⟩ := exists_rows_insertSegments hinsert
    refine { h with segments := ?_, identified := ?_ }
    · rw [hrows]
      refine h.segments.append (fun segment hsegment => ?_)
      rw [hnew segment hsegment]
      exact hasPost_of_get hpost
    · rw [hrows]
      exact h.identified.append_parents new

theorem noDangling_finishTranscriptionReplace (h : NoDangling db) {postId : ℕ}
    {modelCallId : Option ℕ} {segmentCount : ℤ} {words : Option String}
    (hok : finishTranscriptionReplaceAction postId modelCallId segmentCount words db = .ok db') :
    NoDangling db' := by
  obtain ⟨post,-,hok⟩ := withPost_eq_ok hok
  exact noDangling_setTranscribing h.modify_post hok

theorem noDangling_replaceTranscription (h : NoDangling db) {postId : ℕ} {modelCallId : Option ℕ}
    {data : List SegmentData} {words : Option String}
    (hok : replaceTranscriptionAction postId modelCallId data words db = .ok db') :
    NoDangling db' := by
  unfold replaceTranscriptionAction at hok
  cases hstart : startTranscriptionReplaceAction postId modelCallId db with
  | error e => simp [hstart,bind,Except.bind] at hok
  | ok started =>
    cases hinsert : insertTranscriptSegmentsAction postId data started with
    | error e => simp [hstart,hinsert,bind,Except.bind] at hok
    | ok inserted =>
      simp only [hstart,hinsert,bind,Except.bind] at hok
      have hstarted := noDangling_startTranscriptionReplace h hstart
      have hinserted := noDangling_insertTranscriptSegments hstarted hinsert
      exact noDangling_finishTranscriptionReplace hinserted hok

/-- An identification after an insertion was there or is one of those that are sent. -/
theorem mem_insertIdentifications {data : List IdentificationData}
    {rows : Indexed Identification.id Identification.key} {row : Identification}
    (hrow : row ∈ (insertIdentifications data rows).table.rows) : row ∈ rows.table.rows ∨
      ∃ new ∈ data, row.transcriptSegmentId = new.transcriptSegmentId ∧
        row.modelCallId = new.modelCallId := by
  induction data generalizing rows with
  | nil => exact Or.inl hrow
  | cons first rest ih =>
    rw [insertIdentifications] at hrow
    rcases ih hrow with hold | ⟨new,hnew,hrefs⟩
    · cases hinsert : rows.insert (newIdentification first rows.table.nextKey) with
      | none =>
        rw [hinsert,Option.getD_none] at hold
        exact Or.inl hold
      | some inserted =>
        rw [hinsert,Option.getD_some,Indexed.rows_insert hinsert,List.mem_append,
          List.mem_singleton] at hold
        rcases hold with hold | rfl
        · exact Or.inl hold
        · exact Or.inr ⟨first,List.mem_cons_self,rfl,rfl⟩
    · exact Or.inr ⟨new,List.mem_cons_of_mem _ hnew,hrefs⟩

/-- What an identification that is sent refers to is there. -/
def IdentificationData.RefersTo (db : Database) (data : IdentificationData) : Prop :=
  db.HasSegment data.transcriptSegmentId ∧ db.HasCall data.modelCallId

instance (db : Database) (data : IdentificationData) : Decidable (data.RefersTo db) :=
  inferInstanceAs (Decidable (_ ∧ _))

theorem noDangling_insertIdentifications (h : NoDangling db) {data : List IdentificationData}
    (hdata : ∀ new ∈ data, new.RefersTo db)
    {rows : Indexed Identification.id Identification.key}
    (hrows : ∀ row ∈ rows.table.rows, row ∈ db.identifications.table.rows) :
    NoDangling { db with identifications := insertIdentifications data rows } := by
  refine h.of_identifications (fun row hrow => ?_)
  rcases mem_insertIdentifications hrow with hold | ⟨new,hnew,hsegment,hcall⟩
  · exact Or.inl (hrows row hold)
  · right
    rw [hsegment,hcall]
    exact hdata new hnew

theorem noDangling_replaceAudioSegments (h : NoDangling db) {postId : ℕ} {modelCallId : Option ℕ}
    {data : List AudioData} (hok : replaceAudioSegmentsAction postId modelCallId data db = .ok db') :
    NoDangling db' := by
  obtain ⟨post,hpost,hok⟩ := withPost_eq_ok hok
  obtain rfl := Except.ok.inj hok
  obtain ⟨new,hrows,hnew⟩ := Table.exists_rows_appendAll (newAudioSegment_id postId modelCallId)
    (db.audioSegments.deleteWhere (fun audio => audio.postId = postId))
    (data.filter (fun audio => audio.startTime < audio.endTime))
  refine { h with audioSegments := ?_ }
  rw [hrows]
  refine (h.audioSegments.filter_children _).append (fun audio haudio => ?_)
  obtain ⟨sent,-,id,rfl⟩ := hnew audio haudio
  exact hasPost_of_get hpost

end

end Podly.Episodes
