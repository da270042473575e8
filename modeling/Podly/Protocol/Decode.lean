import Podly.Protocol.Unique

/-! What the Rust writer makes of the bytes of a command: a value with unique keys, the fields of the
wire format, and an operation. -/
namespace Podly.Protocol

variable {F : Type}

/-- What the Rust writer is asked for. -/
inductive Operation (F : Type)
  | action (action : String) (params : Fields F)
  | create (model : String) (data : Fields F)
  | update (model : String) (id : Value F) (data : Fields F)
  | delete (model : String) (id : Value F)
  | transaction (commands : List (String × Operation F))
  | unsupported (operation : String)

structure Command (F : Type) where
  version : ℕ
  commandId : String
  wait : Bool
  operation : Operation F

/-- The fields that `WireCommand` and `WireTransactionCommand` have in common. -/
structure WireOperation (F : Type) where
  operation : String
  action : Option String
  params : Option (Fields F)
  model : Option String
  id : Option (Value F)
  data : Option (Fields F)

structure WireTransactionCommand (F : Type) where
  commandId : String
  wire : WireOperation F

structure WireCommand (F : Type) where
  version : ℕ
  commandId : String
  wait : Bool
  wire : WireOperation F
  commands : Option (List (WireTransactionCommand F))

def wireCommandFields : List String :=
  ["version","command_id","operation","wait","action","params","model","id","data","commands"]

def wireTransactionCommandFields : List String :=
  ["command_id","operation","action","params","model","id","data"]

section Read

def isNull : Value F → Bool
  | .scalar .null => true
  | _ => false

def readU8 : Value F → Option ℕ
  | .scalar (.int n) => if 0 ≤ n.val ∧ n.val < 256 then some n.val.toNat else none
  | _ => none

def readBool : Value F → Option Bool
  | .scalar (.bool b) => some b
  | _ => none

def readString : Value F → Option String
  | .text s => some s
  | _ => none

def readMap : Value F → Option (Fields F)
  | .object fields => some fields
  | _ => none

def readVec {α : Type} (read : Value F → Option α) : Value F → Option (List α)
  | .array items => items.mapM read
  | _ => none

/-- A field that can be missing, or null. -/
def optional {α : Type} (read : Value F → Option α) : Option (Value F) → Option (Option α)
  | none => some none
  | some v => if isNull v then some none else (read v).map some

/-- What `derive(Deserialize)` reads a struct with these fields from: an object without any other, or
an array of all of them in their order. -/
def structFields (names : List String) : Value F → Option (Fields F)
  | .object fields => if fields.all (fun f => f.1 ∈ names) then some fields else none
  | .array items => if items.length = names.length then some (names.zip items) else none
  | _ => none

def wireOperation (fields : Fields F) : Option (WireOperation F) := do
  let operation ← (field fields "operation").bind readString
  let action ← optional readString (field fields "action")
  let params ← optional readMap (field fields "params")
  let model ← optional readString (field fields "model")
  let id ← optional some (field fields "id")
  let data ← optional readMap (field fields "data")
  pure ⟨operation,action,params,model,id,data⟩

def wireTransactionCommand (v : Value F) : Option (WireTransactionCommand F) := do
  let fields ← structFields wireTransactionCommandFields v
  let commandId ← (field fields "command_id").bind readString
  let wire ← wireOperation fields
  pure ⟨commandId,wire⟩

/-- `from_value` keeps the values in a command, except an object whose first key is the one that
`serde_json` reserves for raw text. -/
def wireCommand (v : Value F) : Option (WireCommand F) := do
  let fields ← structFields wireCommandFields v
  let version ← (field fields "version").bind readU8
  let commandId ← (field fields "command_id").bind readString
  let wait ← (field fields "wait").bind readBool
  let wire ← wireOperation fields
  let commands ← optional (readVec wireTransactionCommand) (field fields "commands")
  pure ⟨version,commandId,wait,wire,commands⟩

end Read

section Inversion
variable {fields : Fields F} {v : Value F} {s : String}

theorem eq_null_of_isNull (h : isNull v) : v = null := by
  rw [isNull.eq_def] at h
  split at h
  · rfl
  · cases h

theorem readString_eq_some : readString v = some s ↔ v = .text s := by
  cases v <;> simp [readString]

theorem bind_readString_eq_some {v : Option (Value F)} :
    v.bind readString = some s ↔ v = some (.text s) := by
  rw [Option.bind_eq_some_iff]
  simp only [readString_eq_some,exists_eq_right]

theorem exists_of_optional {α : Type} {read : Value F → Option α} {v : Option (Value F)} {x : α}
    (h : optional read v = some (some x)) : ∃ w, v = some w ∧ read w = some x := by
  cases v with
  | none => cases h
  | some w =>
    change (if isNull w then some none else (read w).map some) = _ at h
    split_ifs at h
    · cases h
    · obtain ⟨y,hy,hsame⟩ := Option.map_eq_some_iff.mp h
      obtain rfl := Option.some.inj hsame
      exact ⟨w,rfl,hy⟩

theorem readVec_eq_some {α : Type} {read : Value F → Option α} {xs : List α}
    (h : readVec read v = some xs) : ∃ items, v = .array items ∧ items.mapM read = some xs := by
  cases v with
  | array items => exact ⟨items,rfl,h⟩
  | _ => cases h

/-- The fields that an operation is read from. -/
theorem wireOperation_eq_some {wire : WireOperation F} (h : wireOperation fields = some wire) :
    field fields "operation" = some (.text wire.operation) ∧
      optional readString (field fields "action") = some wire.action ∧
      optional readMap (field fields "params") = some wire.params ∧
      optional readString (field fields "model") = some wire.model ∧
      optional some (field fields "id") = some wire.id ∧
      optional readMap (field fields "data") = some wire.data := by
  obtain ⟨operation,hoperation,h⟩ := Option.bind_eq_some_iff.mp h
  obtain ⟨action,haction,h⟩ := Option.bind_eq_some_iff.mp h
  obtain ⟨params,hparams,h⟩ := Option.bind_eq_some_iff.mp h
  obtain ⟨model,hmodel,h⟩ := Option.bind_eq_some_iff.mp h
  obtain ⟨id,hid,h⟩ := Option.bind_eq_some_iff.mp h
  obtain ⟨data,hdata,h⟩ := Option.bind_eq_some_iff.mp h
  obtain rfl := Option.some.inj h
  exact ⟨bind_readString_eq_some.mp hoperation,haction,hparams,hmodel,hid,hdata⟩

theorem wireTransactionCommand_eq_some {wire : WireTransactionCommand F}
    (h : wireTransactionCommand v = some wire) : ∃ fields,
      structFields wireTransactionCommandFields v = some fields ∧
      field fields "command_id" = some (.text wire.commandId) ∧ wireOperation fields = some wire.wire := by
  obtain ⟨fields,hfields,h⟩ := Option.bind_eq_some_iff.mp h
  obtain ⟨commandId,hid,h⟩ := Option.bind_eq_some_iff.mp h
  obtain ⟨operation,hoperation,h⟩ := Option.bind_eq_some_iff.mp h
  obtain rfl := Option.some.inj h
  exact ⟨fields,hfields,bind_readString_eq_some.mp hid,hoperation⟩

theorem wireCommand_eq_some {wire : WireCommand F} (h : wireCommand v = some wire) : ∃ fields,
    structFields wireCommandFields v = some fields ∧
      (field fields "version").bind readU8 = some wire.version ∧
      field fields "command_id" = some (.text wire.commandId) ∧
      (field fields "wait").bind readBool = some wire.wait ∧ wireOperation fields = some wire.wire ∧
      optional (readVec wireTransactionCommand) (field fields "commands") = some wire.commands := by
  obtain ⟨fields,hfields,h⟩ := Option.bind_eq_some_iff.mp h
  obtain ⟨version,hversion,h⟩ := Option.bind_eq_some_iff.mp h
  obtain ⟨commandId,hid,h⟩ := Option.bind_eq_some_iff.mp h
  obtain ⟨wait,hwait,h⟩ := Option.bind_eq_some_iff.mp h
  obtain ⟨operation,hoperation,h⟩ := Option.bind_eq_some_iff.mp h
  obtain ⟨commands,hcommands,h⟩ := Option.bind_eq_some_iff.mp h
  obtain rfl := Option.some.inj h
  exact ⟨fields,hfields,hversion,bind_readString_eq_some.mp hid,hwait,hoperation,hcommands⟩

end Inversion

/-- `scalar_id` -/
def scalarId : Option (Value F) → Option (Value F)
  | some (.text s) => some (.text s)
  | some (.scalar (.bool b)) => some (.scalar (.bool b))
  | some (.scalar (.int n)) => some (.scalar (.int n))
  | some (.scalar (.float x)) => some (.scalar (.float x))
  | _ => none

/-- The operations on one row, and those that there are none of. -/
def WireOperation.single (wire : WireOperation F) : Option (Operation F) :=
  if wire.operation = "action" then
    if wire.model.isNone ∧ wire.id.isNone ∧ wire.data.isNone then do
      let action ← wire.action
      let params ← wire.params
      pure (.action action params)
    else none
  else if wire.operation = "create" then
    if wire.action.isNone ∧ wire.params.isNone ∧ wire.id.isNone then do
      let model ← wire.model
      let data ← wire.data
      pure (.create model data)
    else none
  else if wire.operation = "update" then
    if wire.action.isNone ∧ wire.params.isNone then do
      let model ← wire.model
      let id ← scalarId wire.id
      let data ← wire.data
      pure (.update model id data)
    else none
  else if wire.operation = "delete" then
    if wire.action.isNone ∧ wire.params.isNone ∧ wire.data.isNone then do
      let model ← wire.model
      let id ← scalarId wire.id
      pure (.delete model id)
    else none
  else some (.unsupported wire.operation)

/-- `TransactionCommand::try_from` -/
def WireTransactionCommand.tryInto (wire : WireTransactionCommand F) :
    Option (String × Operation F) :=
  if wire.wire.operation = "transaction" then none
  else wire.wire.single.map (wire.commandId,·)

/-- `Command::try_from` -/
def WireCommand.operation (wire : WireCommand F) : Option (Operation F) :=
  if wire.wire.operation = "transaction" then
    if wire.wire.action.isNone ∧ wire.wire.params.isNone ∧ wire.wire.model.isNone ∧
        wire.wire.id.isNone ∧ wire.wire.data.isNone then do
      let commands ← wire.commands
      if commands.isEmpty then none
      else (commands.mapM WireTransactionCommand.tryInto).map .transaction
    else none
  else if wire.wire.operation ∈ ["action","create","update","delete"] ∧ wire.commands.isSome then
    none
  else wire.wire.single

def WireCommand.tryInto (wire : WireCommand F) : Option (Command F) :=
  wire.operation.map (fun operation => ⟨wire.version,wire.commandId,wire.wait,operation⟩)

/-- The bytes that JSON allows behind a value. -/
def isBlank (b : UInt8) : Bool := b = 32 || b = 9 || b = 10 || b = 13

/-- `decode_command`, where `read` reads a value from the beginning of some bytes and leaves the rest
of them; an error is none. -/
def decodeCommand (read : List UInt8 → Option (Value F × List UInt8)) (bytes : List UInt8) :
    Option (Command F) := do
  let (tree,rest) ← read bytes
  let v ← uniqueValue tree
  if rest.all isBlank then
    let wire ← wireCommand v
    wire.tryInto
  else none

end Podly.Protocol
