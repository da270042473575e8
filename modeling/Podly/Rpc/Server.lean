import Podly.Base64.Codec
import Podly.Rpc.Replies
import Podly.Writer.Admission

/-! The Rust writer before and after its queue: who is let in, which commands are admitted, and the
execution of one of them in a transaction of the database. -/
namespace Podly.Rpc
open Protocol

variable {F DB : Type}

/-! The answers of the handler -/

/-- `rejected_error` -/
def rejectedError (status : ℕ) (id : Option String) (e : RpcError) : Reply F :=
  ⟨status,.rejected id false { e with outcome := "not_admitted" }⟩

/-- `rejected` -/
def rejected (status : ℕ) (id : Option String) (code message : String) (retryable : Bool) : Reply F :=
  rejectedError status id ⟨code,message,retryable,"not_admitted"⟩

/-- `unknown` -/
def unknown (id : String) : Reply F :=
  ⟨504,.unknown id true
    ⟨"deadline_exceeded","deadline exceeded after admission",false,"unknown"⟩⟩

inductive AuthFailure
  | unauthorized
  | forbidden
deriving DecidableEq

/-- `authenticate`, of a header that is there and a text, and of the key of the writer. -/
def authenticate (header : Option String) (expected : List UInt8) : Except AuthFailure Unit :=
  match header with
  | none => .error .unauthorized
  | some header =>
    if "PodlyWriter ".toList <+: header.toList then
      match Base64.decode (header.toList.drop "PodlyWriter ".toList.length) with
      | none => .error .unauthorized
      | some decoded => if decoded = expected then .ok () else .error .forbidden
    else .error .unauthorized

/-- The header that the client sends for its key. -/
def authorization (authKey : List UInt8) : String :=
  "PodlyWriter " ++ String.ofList ((Base64.encode authKey).rdropWhile (· = '='))

def AuthFailure.reply : AuthFailure → Reply F
  | .unauthorized => rejected 401 none "unauthorized" "authorization required" false
  | .forbidden => rejected 403 none "forbidden" "authorization rejected" false

/-- The client is let in with the key of the writer, and forbidden to go on with any other. -/
theorem authenticate_authorization (authKey expected : List UInt8) :
    authenticate (some (authorization authKey)) expected =
      if authKey = expected then .ok () else .error .forbidden := by
  have htext : (authorization authKey).toList = "PodlyWriter ".toList ++ Base64.letters authKey := by
    rw [authorization,String.toList_append,Base64.strip_encode]
    exact congrArg _ String.toList_ofList
  rw [authenticate,if_pos (htext ▸ List.prefix_append _ _),htext,List.drop_left,Base64.decode_letters]

/-! The registry -/

def registered : List String :=
  ["ensure_active_run","update_discord_settings","update_combined_config","create_user",
    "update_user_password","delete_user","set_user_role","set_manual_feed_allowance",
    "upsert_discord_user","set_user_billing_fields","set_user_billing_by_customer_id",
    "update_user_last_active","refresh_feed","add_feed","update_feed_settings",
    "increment_download_count","whitelist_post","ensure_user_feed_membership",
    "remove_user_feed_membership","whitelist_latest_post_for_feed","toggle_whitelist_all_for_feed",
    "create_dev_test_feed","delete_feed_cascade","create_feed_access_token",
    "touch_feed_access_token","dequeue_job","cleanup_stale_jobs","clear_all_jobs",
    "clear_active_jobs","create_job","create_job_if_missing","cancel_existing_jobs",
    "update_job_attribution","update_job_status","mark_cancelled","mark_classification_parse_error",
    "record_ad_windows_count","mark_auto_retry_attempted","reassign_pending_jobs",
    "upsert_model_call","delete_model_calls_for_post_by_model_name","upsert_whisper_model_call",
    "replace_transcription","start_transcription_replace","insert_transcript_segments",
    "finish_transcription_replace","finish_transcription_replace_from_artifact",
    "compress_post_word_timestamps","mark_model_call_failed","insert_identifications",
    "replace_identifications","replace_audio_segments","cleanup_missing_audio_paths",
    "clear_post_processing_data","clear_post_processing_data_keep_transcript",
    "prepare_post_for_auto_retry","cleanup_processed_post","cleanup_processed_post_files_only"]

def registeredModels : List String := ["Post","ModelCall","Feed"]

/-- The action that commits its own transactions. -/
def Operation.nonAtomic : Operation F → Bool
  | .action name _ => name = "update_combined_config"
  | _ => false

mutual

/-- `validate`, without the actions for tests. -/
def validate : Operation F → Except RpcError Unit
  | .action name _ => if name ∈ registered then .ok () else
      .error (error "unsupported_action" "writer action is not registered")
  | .transaction [] => .error (error "malformed" "transaction must not be empty")
  | .transaction (command::commands) => validateCommands (command::commands)
  | .update model _ _ => if model ∈ registeredModels then .ok () else
      .error (error "unsupported_model" "writer model operation is not registered")
  | .delete model _ => if model ∈ registeredModels then .ok () else
      .error (error "unsupported_model" "writer model operation is not registered")
  | .create _ _ => .error (error "unsupported_model" "writer model operation is not registered")
  | .unsupported _ => .error (error "unsupported_operation" "writer operation is not supported")

/-- The loop over the commands of a transaction. -/
def validateCommands : List (String × Operation F) → Except RpcError Unit
  | [] => .ok ()
  | (_,.transaction _)::_ => .error (error "malformed" "nested transactions are unsupported")
  | (_,operation)::commands =>
    if Operation.nonAtomic operation then
      .error (error "malformed" "update_combined_config cannot be nested in a transaction")
    else match validate operation with
      | .error e => .error e
      | .ok () => validateCommands commands

end

/-- What the actions and the updates and deletions of rows do to the database: each gives a value or
fails, and leaves a database behind either way. -/
structure Handlers (F DB : Type) where
  action : String → Fields F → DB → Except RpcError (Value F) × DB
  update : String → Value F → Fields F → DB → Except RpcError (Value F) × DB
  delete : String → Value F → DB → Except RpcError (Value F) × DB
  updateCombined : Fields F → DB → Except RpcError (Value F) × DB

section Execute
variable (h : Handlers F DB)

/-- The result of a command in a transaction. -/
def commandResult (id : String) (data : Value F) : Value F :=
  .object [("command_id",.text id),("success",bool true),("data",data),("error",null)]

def transactionFailed (id : String) (e : RpcError) : RpcError :=
  error "transaction_failed" ("transaction failed at " ++ id ++ ": " ++ e.message)

mutual

/-- `execute` of the registry. -/
def execute : Operation F → DB → Except RpcError (Value F) × DB
  | .transaction commands, db =>
    match executeCommands commands db with
    | (.ok results,db) => (.ok (.object [("results",.array results)]),db)
    | (.error e,db) => (.error e,db)
  | .update model id data, db => h.update model id data db
  | .delete model id, db => h.delete model id db
  | .action name params, db => h.action name params db
  | .create model data, db => ((validate (.create model data)).map (fun _ => null),db)
  | .unsupported name, db => ((validate (.unsupported name : Operation F)).map (fun _ => null),db)

/-- `execute_transaction_command` of each. -/
def executeCommands : List (String × Operation F) → DB → Except RpcError (List (Value F)) × DB
  | [], db => (.ok [],db)
  | (id,operation)::commands, db =>
    match execute operation db with
    | (.error e,db) => (.error (transactionFailed id e),db)
    | (.ok data,db) =>
      match executeCommands commands db with
      | (.error e,db) => (.error e,db)
      | (.ok results,db) => (.ok (commandResult id data::results),db)

end

/-- `execute_non_atomic` -/
def executeNonAtomic (operation : Operation F) (db : DB) : Option (Except RpcError (Value F) × DB) :=
  match operation with
  | .action name params => if name = "update_combined_config" then some (h.updateCombined params db)
      else none
  | _ => none

/-- Whether the transaction can begin and, later, commit. -/
structure Faults where
  begins : Bool
  commits : Bool

/-- `execute_one`: what is left of the database is what the transaction commits. -/
def executeOne (faults : Faults) (operation : Operation F) (db : DB) :
    Except RpcError (Value F) × DB :=
  match executeNonAtomic h operation db with
  | some result => result
  | none =>
    if faults.begins then
      match execute h operation db with
      | (.ok v,after) => if faults.commits then (.ok v,after) else
          (.error (error "commit_failed" "database commit failed"),db)
      | (.error e,_) => (.error e,db)
    else (.error (error "database_error" "could not begin transaction"),db)

/-- What an operation does when nothing but its own handler can fail. -/
def effect (operation : Operation F) (db : DB) : Except RpcError (Value F) × DB :=
  executeOne h ⟨true,true⟩ operation db

/-- A command is done as if there were no faults, or it fails and the database is as it was. -/
theorem executeOne_cases (faults : Faults) (operation : Operation F) (db : DB) :
    executeOne h faults operation db = effect h operation db ∨
      Operation.nonAtomic operation = false ∧ ∃ e, executeOne h faults operation db = (.error e,db) := by
  have hatomic : ∀ h : Handlers F DB, executeNonAtomic h operation db = none →
      Operation.nonAtomic operation = false := by
    intro h hnone
    cases operation with
    | action name params =>
      by_contra hname
      rw [executeNonAtomic,if_pos (by simpa [Operation.nonAtomic] using hname)] at hnone
      cases hnone
    | _ => rfl
  rw [effect,executeOne,executeOne]
  cases hresult : executeNonAtomic h operation db with
  | some result => exact Or.inl rfl
  | none =>
    rcases execute h operation db with ⟨e | v,after⟩
    · rcases faults with ⟨_ | _,commits⟩
      · exact Or.inr ⟨hatomic h hresult,_,rfl⟩
      · exact Or.inl rfl
    · rcases faults with ⟨_ | _,_ | _⟩
      · exact Or.inr ⟨hatomic h hresult,_,rfl⟩
      · exact Or.inr ⟨hatomic h hresult,_,rfl⟩
      · exact Or.inr ⟨hatomic h hresult,_,rfl⟩
      · exact Or.inl rfl

/-- An atomic command that fails leaves the database as it was. -/
theorem executeOne_error {faults : Faults} {operation : Operation F} {db after : DB} {e : RpcError}
    (hatomic : Operation.nonAtomic operation = false)
    (hresult : executeOne h faults operation db = (.error e,after)) : after = db := by
  have hnone : executeNonAtomic h operation db = none := by
    cases operation with
    | action name params => exact if_neg (by simpa [Operation.nonAtomic] using hatomic)
    | _ => rfl
  rw [executeOne,hnone] at hresult
  rcases hexecute : execute h operation db with ⟨e | v,db'⟩
  · rw [hexecute] at hresult
    rcases faults with ⟨_ | _,commits⟩ <;> exact (congrArg Prod.snd hresult).symm
  · rw [hexecute] at hresult
    rcases faults with ⟨_ | _,_ | _⟩
    · exact (congrArg Prod.snd hresult).symm
    · exact (congrArg Prod.snd hresult).symm
    · exact (congrArg Prod.snd hresult).symm
    · cases congrArg Prod.fst hresult

end Execute

/-! What is admitted -/

section Checked
variable (read : List UInt8 → Option (Value F × List UInt8))

/-- The checks of a body that was read, up to the submission. -/
def checked (body : List UInt8) : Except (Reply F) (Command F) :=
  match decodeCommand read body with
  | none => .error (rejected 400 none "malformed" "request body is not a valid command" false)
  | some command =>
    if command.version ≠ 1 then
      .error (rejected 400 (some command.commandId) "unsupported_version"
        "protocol version is unsupported" false)
    else if command.commandId = "" ∨ 128 < command.commandId.length then
      .error (rejected 400 none "malformed" "command_id is invalid" false)
    else match validate command.operation with
      | .error e => .error (rejectedError 422 (some command.commandId) e)
      | .ok () => .ok command

end Checked

/-- The answer to a command that was not admitted. -/
def refusal (id : String) : Writer.Admission.AdmissionError → Reply F
  | .capacityExhausted =>
    rejected 429 (some id) "capacity_exhausted" "writer capacity exhausted" true
  | .payloadTooLarge =>
    rejected 413 (some id) "payload_too_large" "request exceeds writer byte capacity" false
  | .notReady => rejected 503 (some id) "not_ready" "writer is not accepting commands" true

/-- The answer to a command that was executed. -/
def completion (id : String) : Except RpcError (Value F) → Reply F
  | .ok result => ⟨200,.completed id true (some result) none⟩
  | .error e => ⟨200,.completed id false none (some e)⟩

end Podly.Rpc
