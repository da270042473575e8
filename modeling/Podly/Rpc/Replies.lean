import Podly.Protocol.Decode

/-! What the Rust writer answers to a command, and what the Python client makes of an answer. -/
namespace Podly.Rpc
open Protocol

variable {F : Type}

structure RpcError where
  code : String
  message : String
  retryable : Bool
  outcome : String
deriving DecidableEq

/-- An error as the client tells it. -/
def RpcError.text (e : RpcError) : String := e.code ++ ": " ++ e.message

/-- `error` of the actions. -/
def error (code message : String) : RpcError := ⟨code,message,false,"rolled_back"⟩

/-- The answers, which all say the version of the protocol too. -/
inductive CommandResponse (F : Type)
  | accepted (commandId : String) (admitted : Bool)
  | completed (commandId : String) (success : Bool) (result : Option (Value F)) (error : Option RpcError)
  | rejected (commandId : Option String) (admitted : Bool) (error : RpcError)
  | unknown (commandId : String) (admitted : Bool) (error : RpcError)

/-- An answer with its status code. -/
structure Reply (F : Type) where
  status : ℕ
  response : CommandResponse F

section Json

def bool (b : Bool) : Value F := .scalar (.bool b)

/-- `skip_serializing_if` -/
def given (key : String) (v : Option (Value F)) : Fields F := (v.map (key,·)).toList

def RpcError.toJson (e : RpcError) : Value F :=
  .object [("code",.text e.code),("message",.text e.message),("retryable",bool e.retryable),
    ("outcome",.text e.outcome)]

theorem one_fits : -(2 : ℤ) ^ 63 ≤ 1 ∧ (1 : ℤ) < 2 ^ 64 := by decide

/-- The tag of an answer and the version. -/
def tagged (state : String) (fields : Fields F) : Value F :=
  .object (("state",.text state)::("version",.scalar (.int ⟨1,one_fits⟩))::fields)

def CommandResponse.toJson : CommandResponse F → Value F
  | .accepted id admitted => tagged "accepted" [("command_id",.text id),("admitted",bool admitted)]
  | .completed id success result error => tagged "completed" ([("command_id",.text id),
      ("success",bool success)] ++ given "result" result ++ given "error" (error.map RpcError.toJson))
  | .rejected id admitted error => tagged "rejected" (given "command_id" (id.map .text) ++
      [("admitted",bool admitted),("error",error.toJson)])
  | .unknown id admitted error => tagged "unknown" [("command_id",.text id),
      ("admitted",bool admitted),("error",error.toJson)]

end Json

/-- `WriteResult`; its data is null where Python has none. -/
structure WriteResult (F : Type) where
  commandId : String
  success : Bool
  data : Value F
  error : Option String

/-- How a call of the client ends: it returns, or raises one of its errors. -/
inductive Report (F : Type)
  | returned (result : Option (WriteResult F))
  | valueError
  | transportError (message : String)
  | outcomeUnknown (message : String)
  | attributeError

/-- What Python says of values that are not strings, and of floats. -/
structure Python (F : Type) where
  str : Value F → String
  isOne : F → Bool
  isZero : F → Bool

section Adapter
variable (py : Python F)

/-- `== 1` -/
def isOne : Option (Value F) → Bool
  | some (.scalar (.int n)) => n.val = 1
  | some (.scalar (.bool b)) => b
  | some (.scalar (.float x)) => py.isOne x
  | _ => false

def truthy : Value F → Bool
  | .scalar .null => false
  | .scalar (.bool b) => b
  | .scalar (.int n) => n.val ≠ 0
  | .scalar (.float x) => !py.isZero x
  | .text s => s ≠ ""
  | .array items => !items.isEmpty
  | .object fields => !fields.isEmpty

/-- A value in an f-string. -/
def formatted : Value F → String
  | .text s => s
  | v => py.str v

def isText (s : String) : Option (Value F) → Bool
  | some (.text t) => t = s
  | _ => false

/-- `is` with a truth value. -/
def isBool (b : Bool) : Option (Value F) → Bool
  | some (.scalar (.bool c)) => c = b
  | _ => false

/-- `payload.get("error") or {}`, or none where this is no dictionary. -/
def errorFields (payload : Fields F) : Option (Fields F) :=
  match field payload "error" with
  | some v => if truthy py v then readMap v else some []
  | none => some []

/-- The text of an error. -/
def errorText (error : Fields F) (code message : String) : String :=
  formatted py ((field error "code").getD (.text code)) ++ ": " ++
    formatted py ((field error "message").getD (.text message))

/-- `_adapt_rejection` -/
def adaptRejection (cmd : WriteCommand F) (wait : Bool) (payload : Fields F) : Report F :=
  if ¬ (((field payload "command_id").all isNull || isText cmd.id (field payload "command_id")) &&
      isBool false (field payload "admitted")) then
    .outcomeUnknown "invalid rejection response"
  else match errorFields py payload with
    | none => .attributeError
    | some error =>
      if wait then
        .returned (some ⟨cmd.id,false,null,some (errorText py error "writer_rejected" "writer rejected command")⟩)
      else .transportError ("Rust writer rejected command: " ++
        errorText py error "writer_rejected" "writer rejected command")

/-- `_adapt_admission` -/
def adaptAdmission (cmd : WriteCommand F) (wait : Bool) (status : ℕ) (payload : Fields F) : Report F :=
  if wait ∨ ¬ isText cmd.id (field payload "command_id") ∨ ¬ isBool true (field payload "admitted") ∨
      status ≠ 202 then
    .outcomeUnknown "invalid admission response"
  else .returned none

/-- `_adapt_failed_completion` -/
def adaptFailedCompletion (cmd : WriteCommand F) (payload : Fields F) : Report F :=
  match errorFields py payload with
  | none => .attributeError
  | some error =>
    if isText "unknown" (field error "outcome") then
      .outcomeUnknown (formatted py ((field error "message").getD (.text "unknown outcome")))
    else .returned (some ⟨cmd.id,false,null,
      some (errorText py error "writer_failed" "writer command failed")⟩)

/-- `_transaction_operation_type` -/
def transactionOperationType (cmd : WriteCommand F) (index : ℕ) : Option WriteCommandType :=
  match cmd.commands[index]? with
  | some (.command _ type _ _ _) => some type
  | some (.dict fields _) =>
    match field fields "type" with
    | some (.text name) => WriteCommandType.ofName name
    | _ => none
  | none => none

/-- `_legacy_result_data` -/
def legacyResultData (v : Value F) : Option WriteCommandType → Value F
  | some .create => if (readMap v).isSome then v else null
  | some .update | some .delete => null
  | _ => v

/-- What the client hands on of one result of a transaction. -/
def transactionResult (cmd : WriteCommand F) (index : ℕ) (item : Value F) : Option (Value F) :=
  (readMap item).bind (fun entry =>
    if isBool true (field entry "success") then
      some (.object [("command_id",(field entry "command_id").getD null),("success",bool true),
        ("data",legacyResultData ((field entry "data").getD null) (transactionOperationType cmd index)),
        ("error",null)])
    else none)

/-- The results of a transaction, from the one with an index on. -/
def transactionResults (cmd : WriteCommand F) : ℕ → List (Value F) → Option (List (Value F))
  | _, [] => some []
  | index, item::items => (transactionResult cmd index item).bind
      (fun v => (transactionResults cmd (index + 1) items).map (v::·))

/-- The data of a command that succeeded, as the Python writer would return it, or why there is none. -/
def legacyData (cmd : WriteCommand F) (result : Value F) : Except String (Value F) :=
  if cmd.type = .transaction then
    match (readMap result).bind (field · "results") with
    | some (.array items) =>
      match transactionResults cmd 0 items with
      | some results => .ok (.object [("results",.array results)])
      | none => .error "invalid transaction result"
    | _ => .error "invalid transaction response"
  else .ok (legacyResultData result (some cmd.type))

/-- `_adapt_completion` -/
def adaptCompletion (cmd : WriteCommand F) (wait : Bool) (status : ℕ) (payload : Fields F) : Report F :=
  if ¬ isText cmd.id (field payload "command_id") then
    .outcomeUnknown "writer response command ID mismatch"
  else if status ≠ 200 then .outcomeUnknown "unexpected completion HTTP status"
  else if wait = false then .outcomeUnknown "unexpected completion for asynchronous command"
  else if ¬ truthy py ((field payload "success").getD (bool false)) then
    adaptFailedCompletion py cmd payload
  else match legacyData cmd ((field payload "result").getD null) with
    | .ok data => .returned (some ⟨cmd.id,true,data,none⟩)
    | .error message => .outcomeUnknown message

/-- `_adapt_rust_response` -/
def adaptRustResponse (cmd : WriteCommand F) (wait : Bool) (status : ℕ) (payload : Value F) : Report F :=
  match payload with
  | .object payload =>
    if ¬ isOne py (field payload "version") then .outcomeUnknown "writer response protocol mismatch"
    else if isText "rejected" (field payload "state") then adaptRejection py cmd wait payload
    else if isText "unknown" (field payload "state") then
      .outcomeUnknown "writer reported an unknown outcome"
    else if isText "accepted" (field payload "state") then adaptAdmission cmd wait status payload
    else if ¬ isText "completed" (field payload "state") then
      .outcomeUnknown "writer response state is invalid"
    else adaptCompletion py cmd wait status payload
  | _ => .outcomeUnknown "writer response protocol mismatch"

end Adapter

namespace Report

/-- The data of a report that the command succeeded. -/
def succeeded : Report F → Option (Value F)
  | .returned (some result) => if result.success then some result.data else none
  | _ => none

/-- The reports that the command was not done. -/
def failed : Report F → Bool
  | .returned (some result) => !result.success
  | .valueError | .transportError _ => true
  | _ => false

/-- The reports that the command was not even admitted. -/
def refused : Report F → Bool
  | .valueError | .transportError _ => true
  | _ => false

/-- The report that the command will be done. -/
def admitted : Report F → Bool
  | .returned none => true
  | _ => false

end Report

section Adapted
variable {py : Python F} {cmd : WriteCommand F} {wait : Bool} {status : ℕ}

/-- A rejection is not understood, or it is reported as one: as a result to a client that waits, as an
error to another. -/
theorem adapt_rejected (id : Option String) (admitted : Bool) (e : RpcError) :
    (∃ message, adaptRustResponse py cmd wait status
      (CommandResponse.rejected id admitted e).toJson = .outcomeUnknown message) ∨
    adaptRustResponse py cmd wait status (CommandResponse.rejected id admitted e).toJson =
      (if wait then .returned (some ⟨cmd.id,false,null,some e.text⟩)
        else .transportError ("Rust writer rejected command: " ++ e.text)) := by
  change (∃ message, adaptRejection py cmd wait _ = _) ∨ adaptRejection py cmd wait _ = _
  rw [adaptRejection]
  split
  · exact Or.inl ⟨_,rfl⟩
  · right
    cases id <;> rfl

/-- An admission is reported to a client that does not wait. -/
theorem adapt_accepted (id : String) (admitted : Bool) :
    adaptRustResponse py cmd wait status (CommandResponse.accepted id admitted).toJson =
      .outcomeUnknown "invalid admission response" ∨
    adaptRustResponse py cmd wait status (CommandResponse.accepted id admitted).toJson =
      .returned none ∧ wait = false := by
  change adaptAdmission cmd wait status _ = _ ∨ adaptAdmission cmd wait status _ = _ ∧ _
  rw [adaptAdmission]
  split_ifs with h
  · exact Or.inl rfl
  · exact Or.inr ⟨rfl,by simpa using fun hwait => h (Or.inl hwait)⟩

/-- A completion is not understood, or it is reported as what it says. -/
theorem adaptCompletion_cases (payload : Fields F) :
    (∃ message, adaptCompletion py cmd wait status payload = .outcomeUnknown message) ∨
    (truthy py ((field payload "success").getD (bool false)) = false ∧
      adaptCompletion py cmd wait status payload = adaptFailedCompletion py cmd payload) ∨
    (truthy py ((field payload "success").getD (bool false)) ∧ wait ∧
      ∃ data, legacyData cmd ((field payload "result").getD null) = .ok data ∧
        adaptCompletion py cmd wait status payload = .returned (some ⟨cmd.id,true,data,none⟩)) := by
  rw [adaptCompletion]
  split
  · exact Or.inl ⟨_,rfl⟩
  · split
    · exact Or.inl ⟨_,rfl⟩
    · split
      · exact Or.inl ⟨_,rfl⟩
      · rename_i hwait
        split
        · rename_i hsuccess
          exact Or.inr (Or.inl ⟨by simpa using hsuccess,rfl⟩)
        · rename_i hsuccess
          cases hdata : legacyData cmd ((field payload "result").getD null) with
          | error message => exact Or.inl ⟨message,rfl⟩
          | ok data => exact Or.inr (Or.inr ⟨by simpa using hsuccess,by simpa using hwait,data,rfl,rfl⟩)

/-- A success is reported with its data, or not understood. -/
theorem adapt_succeeded (id : String) (v : Value F) :
    (∃ message, adaptRustResponse py cmd wait status
      (CommandResponse.completed id true (some v) none).toJson = .outcomeUnknown message) ∨
    (wait ∧ ∃ data, legacyData cmd v = .ok data ∧ adaptRustResponse py cmd wait status
      (CommandResponse.completed id true (some v) none).toJson =
        .returned (some ⟨cmd.id,true,data,none⟩)) := by
  rcases adaptCompletion_cases _ with h | ⟨hfalse,-⟩ | ⟨-,h⟩
  · exact Or.inl h
  · cases hfalse
  · exact Or.inr h

/-- A failure is not understood, or it is reported with its error. -/
theorem adapt_failed (id : String) (e : RpcError) :
    (∃ message, adaptRustResponse py cmd wait status
      (CommandResponse.completed id false none (some e)).toJson = .outcomeUnknown message) ∨
    adaptRustResponse py cmd wait status (CommandResponse.completed id false none (some e)).toJson =
      .returned (some ⟨cmd.id,false,null,some e.text⟩) := by
  change (∃ message, adaptCompletion py cmd wait status _ = _) ∨
    adaptCompletion py cmd wait status _ = _
  rcases adaptCompletion_cases _ with h | ⟨-,h⟩ | ⟨htrue,-⟩
  · exact Or.inl h
  · rw [h]
    change (∃ message, (if isText "unknown" (some (.text e.outcome)) then _ else _) = _) ∨
      (if isText "unknown" (some (.text e.outcome)) then _ else _) = _
    split
    · exact Or.inl ⟨_,rfl⟩
    · exact Or.inr rfl
  · cases htrue

end Adapted

end Podly.Rpc
