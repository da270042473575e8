import Podly.Lists.FilterMap
import Podly.Protocol.Decode

/-! What the Rust writer reads of the payloads of the Python client: each command as it was said, or
nothing where it lacks what its operation needs. -/
namespace Podly.Protocol

variable {F : Type}

/-- What a command on one row asks for: an action with a name, on an object of parameters that is empty
if none are given; or one on a model, where an update takes the id out of its data. -/
def said (type : WriteCommandType) (model : Value F) (data : Fields F) : Option (Operation F) :=
  match type with
  | .action => do
    let action ← (field data "action").bind readString
    (readMap ((field data "params").getD (.object []))).map (.action action)
  | .create => (readString model).map (.create · data)
  | .update => do
    let model ← readString model
    (scalarId (field data "id")).map (.update model · (data.filter (fun f => f.1 ≠ "id")))
  | .delete => do
    let model ← readString model
    (scalarId (field data "id")).map (.delete model)
  | .transaction => none

/-- What a command in a transaction asks for, with its id. -/
def Item.said (str : Value F → String) : Item F → Option (String × Operation F)
  | .command id type model data _ =>
    (Protocol.said type (model.elim null .text) data).map (id,·)
  | .dict fields _ => (nestedCommand str fields).bind
    (fun c => (Protocol.said c.type c.model c.data).map (c.id,·))

def WriteCommand.operation (str : Value F → String) (cmd : WriteCommand F) : Option (Operation F) :=
  if cmd.type = .transaction then
    if cmd.commands.isEmpty then none else (cmd.commands.mapM (Item.said str)).map .transaction
  else said cmd.type (cmd.model.elim null .text) cmd.data

/-- The command as the writer should have it. -/
def WriteCommand.said (str : Value F → String) (cmd : WriteCommand F) (wait : Bool) :
    Option (Command F) :=
  (cmd.operation str).map (fun operation => ⟨1,cmd.id,wait,operation⟩)

section Fields
variable {fields pre : Fields F} {key : String}

theorem field_append_of_ne (h : ∀ f ∈ pre, f.1 ≠ key) : field (pre ++ fields) key = field fields key := by
  have hnone : pre.find? (fun f => f.1 = key) = none :=
    List.find?_eq_none.mpr (fun f hf => by simpa using h f hf)
  rw [field,List.find?_append,hnone,Option.none_or,field]

/-- The fields of an envelope are none of an operation. -/
theorem wireOperation_append (h : ∀ f ∈ pre, f.1 ∈ ["version","command_id","wait"]) :
    wireOperation (pre ++ fields) = wireOperation fields := by
  have hfield : ∀ key ∉ ["version","command_id","wait"], field (pre ++ fields) key = field fields key :=
    fun key hkey => field_append_of_ne (fun f hf hsame => hkey (hsame ▸ h f hf))
  unfold wireOperation
  rw [hfield "operation" (by decide),hfield "action" (by decide),hfield "params" (by decide),
    hfield "model" (by decide),hfield "id" (by decide),hfield "data" (by decide)]

end Fields

section Optional
variable {α β : Type} {v : Value F}

@[simp] theorem optional_none (read : Value F → Option α) : optional read none = some none := rfl

@[simp] theorem optional_object (fields : Fields F) :
    optional readMap (some (.object fields)) = some (some fields) := rfl

/-- A field that an operation needs can be null as little as missing. -/
theorem optional_bind {read : Value F → Option α} {f : Option α → Option β} (hf : f none = none)
    (hnull : read null = none) : (optional read (some v)).bind f = (read v).bind (fun x => f (some x)) := by
  change (if isNull v then some none else (read v).map some).bind f = _
  split_ifs with h
  · rw [eq_null_of_isNull h,hnull,Option.bind_some,Option.bind_none,hf]
  · rw [Option.bind_map]
    rfl

/-- A null id is one that is missing. -/
theorem optional_id (v : Value F) : ∃ id, optional some (some v) = some id ∧ scalarId id = scalarId (some v) := by
  cases v with
  | scalar x => cases x with
    | null => exact ⟨none,rfl,rfl⟩
    | _ => exact ⟨_,rfl,rfl⟩
  | _ => exact ⟨_,rfl,rfl⟩

theorem scalarId_getD (id : Option (Value F)) : scalarId (some (id.getD null)) = scalarId id := by
  cases id <;> rfl

end Optional

section Single
variable {type : WriteCommandType} {model : Value F} {data fields : Fields F}
  {commands : Option (List (Value F))}

theorem single_action (action params : Value F) :
    (wireOperation [("operation",.text "action"),("action",action),("params",params)]).bind
      WireOperation.single = (readString action).bind (fun action =>
        (readMap params).map (Operation.action action)) := by
  have hwire : wireOperation [("operation",.text "action"),("action",action),("params",params)] =
      (optional readString (some action)).bind (fun action => (optional readMap (some params)).bind
        (fun params => some ⟨"action",action,params,none,none,none⟩)) := by
    simp [wireOperation,field,readString]
  have hsingle : ∀ (action : Option String) (params : Option (Fields F)),
      WireOperation.single ⟨"action",action,params,none,none,none⟩ =
        action.bind (fun action => params.map (Operation.action action)) := by
    intro action params
    cases action <;> cases params <;> rfl
  rw [hwire,Option.bind_assoc,optional_bind _ rfl]
  · refine Option.bind_congr fun action _ => ?_
    rw [Option.bind_assoc,optional_bind _ rfl]
    · simp only [Option.bind_some,hsingle,Option.map_eq_bind]
    · rw [Option.bind_some,hsingle]
      rfl
  · simp only [Option.bind_assoc,Option.bind_some,hsingle,Option.bind_none,Option.bind_fun_none]

theorem single_create (model : Value F) (data : Fields F) :
    (wireOperation [("operation",.text "create"),("model",model),("data",.object data)]).bind
      WireOperation.single = (readString model).map (fun model => Operation.create model data) := by
  have hwire : wireOperation [("operation",.text "create"),("model",model),("data",.object data)] =
      (optional readString (some model)).bind
        (fun model => some ⟨"create",none,none,model,none,some data⟩) := by
    simp [wireOperation,field,readString]
  rw [hwire,Option.bind_assoc,optional_bind rfl rfl,Option.map_eq_bind]
  rfl

theorem single_update (model id : Value F) (data : Fields F) :
    (wireOperation [("operation",.text "update"),("model",model),("id",id),("data",.object data)]).bind
      WireOperation.single = (readString model).bind (fun model =>
        (scalarId (some id)).map (fun id => Operation.update model id data)) := by
  obtain ⟨given,hgiven,hid⟩ := optional_id id
  have hwire : wireOperation [("operation",.text "update"),("model",model),("id",id),
      ("data",.object data)] = (optional readString (some model)).bind
        (fun model => some ⟨"update",none,none,model,given,some data⟩) := by
    simp [wireOperation,field,readString,hgiven]
  rw [hwire,Option.bind_assoc,optional_bind rfl rfl,← hid]
  refine Option.bind_congr fun model _ => ?_
  rw [Option.map_eq_bind]
  rfl

theorem single_delete (model id : Value F) :
    (wireOperation [("operation",.text "delete"),("model",model),("id",id)]).bind
      WireOperation.single = (readString model).bind (fun model =>
        (scalarId (some id)).map (fun id => Operation.delete model id)) := by
  obtain ⟨given,hgiven,hid⟩ := optional_id id
  have hwire : wireOperation [("operation",.text "delete"),("model",model),("id",id)] =
      (optional readString (some model)).bind
        (fun model => some ⟨"delete",none,none,model,given,none⟩) := by
    simp [wireOperation,field,readString,hgiven]
  rw [hwire,Option.bind_assoc,optional_bind rfl rfl,← hid]
  refine Option.bind_congr fun model _ => ?_
  rw [Option.map_eq_bind]
  rfl

/-- The writer reads of a payload what the command asks for, or nothing. -/
theorem single_payload (htype : type ≠ .transaction)
    (h : operationFields type model data commands = some fields) :
    (wireOperation fields).bind WireOperation.single = said type model data := by
  cases type with
  | action =>
    obtain ⟨action,haction,rfl⟩ := Option.map_eq_some_iff.mp h
    rw [single_action,said,haction]
    rfl
  | create =>
    obtain rfl := Option.some.inj h
    rw [single_create,said]
  | update =>
    obtain rfl := Option.some.inj h
    rw [single_update,said,scalarId_getD]
    rfl
  | delete =>
    obtain rfl := Option.some.inj h
    rw [single_delete,said,scalarId_getD]
    rfl
  | transaction => exact absurd rfl htype

theorem field_operation (h : operationFields type model data commands = some fields) :
    field fields "operation" = some (.text type.name) := by
  cases type with
  | action =>
    obtain ⟨action,-,rfl⟩ := Option.map_eq_some_iff.mp h
    rfl
  | transaction =>
    obtain ⟨commands,-,rfl⟩ := Option.map_eq_some_iff.mp h
    rfl
  | _ =>
    obtain rfl := Option.some.inj h
    rfl

theorem WriteCommandType.eq_transaction (h : type.name = "transaction") : type = .transaction := by
  cases type with
  | transaction => rfl
  | _ => exact absurd h (by decide)

theorem operation_ne_transaction {wire : WireOperation F} (htype : type ≠ .transaction)
    (h : operationFields type model data commands = some fields) (hread : wireOperation fields = some wire) :
    wire.operation ≠ "transaction" := by
  intro htransaction
  have hname := (wireOperation_eq_some hread).1
  rw [field_operation h,htransaction] at hname
  exact htype (WriteCommandType.eq_transaction (Json.Value.text.inj (Option.some.inj hname)))

theorem key_of_operationFields (htype : type ≠ .transaction)
    (h : operationFields type model data commands = some fields) {f : String × Value F} (hf : f ∈ fields) :
    f.1 ∈ ["operation","action","params","model","id","data"] := by
  cases type with
  | action =>
    obtain ⟨action,-,rfl⟩ := Option.map_eq_some_iff.mp h
    revert f
    simp
  | transaction => exact absurd rfl htype
  | _ =>
    obtain rfl := Option.some.inj h
    revert f
    simp

end Single

section Commands
variable {str : Value F → String} {type : WriteCommandType} {model v : Value F} {data fields : Fields F}
  {commands : Option (List (Value F))} {values : List (Value F)} {id : String} {wait : Bool}

theorem structFields_object {names : List String} (h : ∀ f ∈ fields, f.1 ∈ names) :
    structFields names (.object fields) = some fields :=
  if_pos (List.all_eq_true.mpr (fun f hf => decide_eq_true (h f hf)))

/-- What stands in a transaction of a command on one row. -/
theorem SubCommand.payload_eq (c : SubCommand F) (htype : c.type ≠ .transaction)
    (h : c.payload commands = some v) : ∃ fields,
      operationFields c.type c.model c.data commands = some fields ∧
        v = .object (("command_id",.text c.id)::fields) := by
  obtain ⟨fields,hfields,rfl⟩ := Option.map_eq_some_iff.mp h
  have hkeep : fields.filter (fun f => f.1 ∉ ["version","wait"]) = fields := by
    refine List.filter_eq_self.mpr (fun f hf => decide_eq_true (fun hmem => ?_))
    have hkey := key_of_operationFields htype hfields hf
    simp only [List.mem_cons,List.not_mem_nil,or_false] at hmem hkey
    rcases hmem with hmem | hmem <;> simp [hmem] at hkey
  refine ⟨fields,hfields,?_⟩
  rw [List.filter_append,hkeep]
  rfl

/-- The writer reads a command in a transaction as it was said. -/
theorem SubCommand.tryInto_payload (c : SubCommand F) (h : c.payload commands = some v) :
    (wireTransactionCommand v).bind WireTransactionCommand.tryInto =
      (said c.type c.model c.data).map (c.id,·) := by
  by_cases htype : c.type = .transaction
  · obtain ⟨fields,hfields,rfl⟩ := Option.map_eq_some_iff.mp h
    rw [htype] at hfields ⊢
    obtain ⟨commands,-,rfl⟩ := Option.map_eq_some_iff.mp hfields
    rfl
  · obtain ⟨fields,hfields,rfl⟩ := c.payload_eq htype h
    have hnames : ∀ f ∈ ("command_id",.text c.id)::fields, f.1 ∈ wireTransactionCommandFields :=
      List.forall_mem_cons.mpr ⟨List.mem_cons_self,
        fun f hf => List.mem_cons_of_mem _ (key_of_operationFields htype hfields hf)⟩
    have henvelope : ∀ f ∈ [("command_id",(.text c.id : Value F))],
        f.1 ∈ ["version","command_id","wait"] := by simp
    have hwire : wireTransactionCommand (.object (("command_id",.text c.id)::fields)) =
        (wireOperation fields).map (⟨c.id,·⟩) := by
      rw [wireTransactionCommand,structFields_object hnames,← wireOperation_append henvelope,
        Option.map_eq_bind]
      rfl
    rw [hwire,Option.bind_map,← single_payload htype hfields,Option.map_bind]
    exact Option.bind_congr fun wire hread => if_neg (operation_ne_transaction htype hfields hread)

theorem tryInto_rustTransactionCommand (item : Item F) (h : rustTransactionCommand str item = some v) :
    (wireTransactionCommand v).bind WireTransactionCommand.tryInto = item.said str := by
  cases item with
  | command id type model data commands => exact SubCommand.tryInto_payload _ h
  | dict fields commands =>
    obtain ⟨c,hc,hpayload⟩ := Option.bind_eq_some_iff.mp h
    rw [c.tryInto_payload hpayload,Item.said,hc]
    rfl

/-- The commands of a transaction are read in their order. -/
theorem tryInto_rustTransactionCommands {items : List (Item F)}
    (h : rustTransactionCommands str items = some values) :
    values.mapM (fun v => (wireTransactionCommand v).bind WireTransactionCommand.tryInto) =
      items.mapM (Item.said str) := by
  induction items generalizing values with
  | nil =>
    obtain rfl := Option.some.inj h
    rfl
  | cons item items ih =>
    obtain ⟨v,hv,hrest⟩ := Option.bind_eq_some_iff.mp h
    obtain ⟨rest,hvalues,rfl⟩ := Option.map_eq_some_iff.mp hrest
    rw [List.mapM_cons,List.mapM_cons,tryInto_rustTransactionCommand item hv,ih hvalues]

theorem isEmpty_of_rustTransactionCommands {items : List (Item F)}
    (h : rustTransactionCommands str items = some values) : values.isEmpty = items.isEmpty := by
  cases items with
  | nil =>
    obtain rfl := Option.some.inj h
    rfl
  | cons item items =>
    obtain ⟨v,-,hrest⟩ := Option.bind_eq_some_iff.mp h
    obtain ⟨rest,-,rfl⟩ := Option.map_eq_some_iff.mp hrest
    rfl

theorem isEmpty_of_mapM {α β : Type} {f : α → Option β} {xs : List α} {ys : List β}
    (h : xs.mapM f = some ys) : ys.isEmpty = xs.isEmpty := by
  cases Lists.mapM_eq_some_iff.mp h <;> rfl

/-- What is read of the envelope and the fields of an operation. -/
theorem wireCommand_common
    (hnames : ∀ f ∈ fields, f.1 ∈ ["operation","action","params","model","id","data","commands"]) :
    wireCommand (.object (common id wait ++ fields)) = (wireOperation fields).bind (fun wire =>
      (optional (readVec wireTransactionCommand) (field fields "commands")).map
        (fun commands => ⟨1,id,wait,wire,commands⟩)) := by
  have hcommon : ∀ f ∈ (common id wait : Fields F), f.1 ∈ ["version","command_id","wait"] := by
    simp [common]
  have hall : ∀ f ∈ common id wait ++ fields, f.1 ∈ wireCommandFields := by
    intro f hf
    rcases List.mem_append.mp hf with hf | hf
    · exact (by decide : ∀ key ∈ ["version","command_id","wait"], key ∈ wireCommandFields) _
        (hcommon f hf)
    · exact (by decide : ∀ key ∈ ["operation","action","params","model","id","data","commands"],
        key ∈ wireCommandFields) _ (hnames f hf)
  have hcommands : field (common id wait ++ fields) "commands" = field fields "commands" :=
    field_append_of_ne (by simp [common])
  simp only [Option.map_eq_bind]
  rw [wireCommand,structFields_object hall,← wireOperation_append hcommon,← hcommands]
  rfl

/-- The writer reads a payload as the command that it was made of, or not at all. -/
theorem tryInto_rustCommandPayload (cmd : WriteCommand F)
    (h : rustCommandPayload str cmd wait = some v) :
    (wireCommand v).bind WireCommand.tryInto = cmd.said str wait := by
  obtain ⟨fields,hfields,rfl⟩ := Option.map_eq_some_iff.mp h
  rw [WriteCommand.said,WriteCommand.operation]
  by_cases htype : cmd.type = .transaction
  · rw [if_pos htype]
    rw [htype] at hfields
    obtain ⟨values,hvalues,rfl⟩ := Option.map_eq_some_iff.mp hfields
    rw [wireCommand_common (by simp),← isEmpty_of_rustTransactionCommands hvalues,
      ← tryInto_rustTransactionCommands hvalues,← Lists.mapM_bind_mapM]
    change (((values.mapM wireTransactionCommand).map some).map _).bind WireCommand.tryInto = _
    cases hwires : values.mapM wireTransactionCommand with
    | none => cases values.isEmpty <;> rfl
    | some wires =>
      rw [← isEmpty_of_mapM hwires]
      rfl
  · have hkeys : ∀ f ∈ fields, f.1 ∈ ["operation","action","params","model","id","data"] :=
      fun f hf => key_of_operationFields htype hfields hf
    have hcommands : field fields "commands" = none := by
      rw [field,List.find?_eq_none.mpr,Option.map_none]
      intro f hf hname
      have hkey := hkeys f hf
      rw [of_decide_eq_true hname] at hkey
      exact absurd hkey (by decide)
    rw [if_neg htype,wireCommand_common fun f hf => List.mem_append_left ["commands"] (hkeys f hf),
      hcommands,← single_payload htype hfields,Option.bind_assoc,Option.map_bind]
    refine Option.bind_congr fun wire hread => ?_
    have hsingle : WireCommand.operation ⟨1,cmd.id,wait,wire,none⟩ = wire.single := by
      rw [WireCommand.operation,if_neg (operation_ne_transaction htype hfields hread),
        if_neg (by simp)]
    change (WireCommand.operation ⟨1,cmd.id,wait,wire,none⟩).map _ = wire.single.map _
    rw [hsingle]

end Commands

end Podly.Protocol
