import Mathlib.Algebra.Ring.Int.Defs
import Podly.Json.Dumps

/-! The commands of the writer, and the bytes that the Python client sends for them. -/
namespace Podly.Protocol

/-- An integer that the writer has a number for; all signed ones of 64 bits are among them. -/
abbrev Number := { n : ℤ // -2 ^ 63 ≤ n ∧ n < 2 ^ 64 }

/-- A number, a truth value or null; the floats are the finite ones. -/
inductive Scalar (F : Type)
  | null
  | bool (b : Bool)
  | int (n : Number)
  | float (x : F)
deriving DecidableEq

/-- JSON data, on either side. -/
abbrev Value (F : Type) := Json.Value (Scalar F)

abbrev Fields (F : Type) := List (String × Value F)

inductive WriteCommandType
  | create
  | update
  | delete
  | transaction
  | action
deriving DecidableEq

/-- What the list of a transaction holds: commands, and dictionaries that say the same. Their own
commands stand apart from the rest of their data. -/
inductive Item (F : Type)
  | command (id : String) (type : WriteCommandType) (model : Option String) (data : Fields F)
      (commands : List (Item F))
  | dict (fields : Fields F) (commands : List (Item F))

/-- `WriteCommand`, with the commands of a transaction apart from the rest of its data. -/
structure WriteCommand (F : Type) where
  id : String
  type : WriteCommandType
  model : Option String
  data : Fields F
  commands : List (Item F)

/-- A command in a transaction; the model of a dictionary can be any value. -/
structure SubCommand (F : Type) where
  id : String
  type : WriteCommandType
  model : Value F
  data : Fields F

variable {F : Type}

def null : Value F := .scalar .null

/-- `get` -/
def field (fields : Fields F) (key : String) : Option (Value F) :=
  (fields.find? (fun f => f.1 = key)).map Prod.snd

def WriteCommandType.name : WriteCommandType → String
  | .create => "create"
  | .update => "update"
  | .delete => "delete"
  | .transaction => "transaction"
  | .action => "action"

/-- `WriteCommandType(...)` of a string. -/
def WriteCommandType.ofName (name : String) : Option WriteCommandType :=
  [create,update,delete,transaction,action].find? (fun type => type.name = name)

/-- The fields of a payload from the operation on; `commands` is what the client sends of the commands
of a transaction, if it can. -/
def operationFields (type : WriteCommandType) (model : Value F) (data : Fields F)
    (commands : Option (List (Value F))) : Option (Fields F) :=
  match type with
  | .action => (field data "action").map (fun action =>
    [("operation",.text "action"),("action",action),
      ("params",(field data "params").getD (.object []))])
  | .create => some [("operation",.text "create"),("model",model),("data",.object data)]
  | .update => some [("operation",.text "update"),("model",model),
    ("id",(field data "id").getD null),("data",.object (data.filter (fun f => f.1 ≠ "id")))]
  | .delete => some [("operation",.text "delete"),("model",model),
    ("id",(field data "id").getD null)]
  | .transaction => commands.map (fun commands =>
    [("operation",.text "transaction"),("commands",.array commands)])

/-- The fields that every payload begins with. -/
def common (id : String) (wait : Bool) : Fields F :=
  [("version",.scalar (.int ⟨1,by decide⟩)),("command_id",.text id),("wait",.scalar (.bool wait))]

section Payload
variable (str : Value F → String)

/-- The command that a dictionary is; `str` is what Python writes of its id. -/
def nestedCommand (fields : Fields F) : Option (SubCommand F) :=
  match field fields "type", (field fields "data").getD (.object []) with
  | some (.text name), .object data =>
    (WriteCommandType.ofName name).map (fun type =>
      ⟨((field fields "id").map str).getD "sub",type,(field fields "model").getD null,data⟩)
  | _, _ => none

/-- What a transaction sends of a command, which is its payload without the version and the wait
flag. -/
def SubCommand.payload (c : SubCommand F) (commands : Option (List (Value F))) : Option (Value F) :=
  (operationFields c.type c.model c.data commands).map (fun fields =>
    .object ((common c.id false ++ fields).filter (fun f => f.1 ∉ ["version","wait"])))

mutual

/-- `_rust_transaction_command` -/
def rustTransactionCommand : Item F → Option (Value F)
  | .command id type model data commands =>
    SubCommand.payload ⟨id,type,model.elim null .text,data⟩ (rustTransactionCommands commands)
  | .dict fields commands =>
    (nestedCommand str fields).bind (fun c => c.payload (rustTransactionCommands commands))

def rustTransactionCommands : List (Item F) → Option (List (Value F))
  | [] => some []
  | item::items =>
    (rustTransactionCommand item).bind (fun v => (rustTransactionCommands items).map (v::·))

end

/-- `_rust_command_payload` -/
def rustCommandPayload (cmd : WriteCommand F) (wait : Bool) : Option (Value F) :=
  (operationFields cmd.type (cmd.model.elim null .text) cmd.data
    (rustTransactionCommands str cmd.commands)).map (fun fields =>
      .object (common cmd.id wait ++ fields))

end Payload

section Dumps
variable (repr : F → List Char)

/-- The character of a string where no other than the necessary ones are escaped. -/
def escape (c : Char) : List Char :=
  if c = '\n' then ['\\','n']
  else if c = '\r' then ['\\','r']
  else if c = '\t' then ['\\','t']
  else if c = Char.ofNat 8 then ['\\','b']
  else if c = Char.ofNat 12 then ['\\','f']
  else Json.Plain.escape c

def quote (s : String) : List Char := s.toList.flatMap escape

def printInt (n : ℤ) : List Char := (if n < 0 then ['-'] else []) ++ Nat.toDigits 10 n.natAbs

/-- `repr` is what Python writes of a float. -/
def printScalar : Scalar F → List Char
  | .null => ['n','u','l','l']
  | .bool true => ['t','r','u','e']
  | .bool false => ['f','a','l','s','e']
  | .int n => printInt n
  | .float x => repr x

/-- `json.dumps` with compact separators, in UTF-8. -/
def dumps (v : Value F) : List UInt8 :=
  (Json.written quote (printScalar repr) [] v).flatMap String.utf8EncodeChar

def maxRequestBytes : ℕ := 16 * 1024 * 1024

/-- `_encode_rust_command`, or none where it raises an error. -/
def encodeRustCommand (str : Value F → String) (cmd : WriteCommand F) (wait : Bool) :
    Option (List UInt8) :=
  ((rustCommandPayload str cmd wait).map (dumps repr)).filter
    (fun encoded => encoded.length ≤ maxRequestBytes)

end Dumps

end Podly.Protocol
