import Podly.Protocol.Unique

/-! The payloads of the Python client have unique keys, since they are made of dictionaries. -/
namespace Podly.Protocol

variable {F : Type}

mutual

/-- The data of a command, and of those in it, are dictionaries. -/
def Item.Dicts : Item F → Prop
  | .command _ _ _ data commands => UniqueKeys (.object data) ∧ AllDicts commands
  | .dict fields commands => UniqueKeys (.object fields) ∧ AllDicts commands

def AllDicts : List (Item F) → Prop
  | [] => True
  | item::items => item.Dicts ∧ AllDicts items

end

def WriteCommand.Dicts (cmd : WriteCommand F) : Prop :=
  UniqueKeys (.object cmd.data) ∧ AllDicts cmd.commands

section
variable {fields data : Fields F} {model v : Value F} {type : WriteCommandType} {key : String}
  {commands : Option (List (Value F))} {values : List (Value F)} {id : String} {wait : Bool}

theorem uniqueFields_iff : UniqueFields fields ↔ ∀ f ∈ fields, UniqueKeys f.2 := by
  induction fields with
  | nil => simp [UniqueFields]
  | cons f fields ih => rw [UniqueFields,ih,List.forall_mem_cons]

theorem uniqueKeys_object : UniqueKeys (.object fields) ↔
    (fields.map Prod.fst).Nodup ∧ ∀ f ∈ fields, UniqueKeys f.2 := by
  rw [UniqueKeys,uniqueFields_iff]

theorem uniqueKeys_nil : UniqueKeys (.object [] : Value F) :=
  uniqueKeys_object.mpr ⟨List.nodup_nil,nofun⟩

/-- A part of a dictionary is one. -/
theorem UniqueKeys.filter {p : String × Value F → Bool} (h : UniqueKeys (.object fields)) :
    UniqueKeys (.object (fields.filter p)) := by
  obtain ⟨hkeys,hfields⟩ := uniqueKeys_object.mp h
  exact uniqueKeys_object.mpr ⟨hkeys.sublist (List.filter_sublist.map _),
    fun f hf => hfields f (List.mem_of_mem_filter hf)⟩

theorem UniqueKeys.field (h : UniqueKeys (.object fields)) (hv : field fields key = some v) :
    UniqueKeys v := by
  obtain ⟨f,hf,rfl⟩ := Option.map_eq_some_iff.mp hv
  exact (uniqueKeys_object.mp h).2 f (List.mem_of_find?_eq_some hf)

theorem UniqueKeys.field_getD {other : Value F} (h : UniqueKeys (.object fields))
    (hother : UniqueKeys other) : UniqueKeys ((Protocol.field fields key).getD other) := by
  cases hv : Protocol.field fields key with
  | none => exact hother
  | some v => exact h.field hv

/-- The keys of a payload from the operation on. -/
def WriteCommandType.keys : WriteCommandType → List String
  | .action => ["operation","action","params"]
  | .create => ["operation","model","data"]
  | .update => ["operation","model","id","data"]
  | .delete => ["operation","model","id"]
  | .transaction => ["operation","commands"]

theorem keys_operationFields (h : operationFields type model data commands = some fields) :
    fields.map Prod.fst = type.keys := by
  cases type with
  | action =>
    obtain ⟨action,-,rfl⟩ := Option.map_eq_some_iff.mp h
    rfl
  | transaction =>
    obtain ⟨commands,-,rfl⟩ := Option.map_eq_some_iff.mp h
    rfl
  | _ =>
    obtain rfl := Option.some.inj h
    rfl

theorem uniqueKeys_operationFields (hmodel : UniqueKeys model) (hdata : UniqueKeys (.object data))
    (hcommands : ∀ values, commands = some values → UniqueItems values)
    (h : operationFields type model data commands = some fields) : ∀ f ∈ fields, UniqueKeys f.2 := by
  have htext : ∀ s, UniqueKeys (.text s : Value F) := fun s => by rw [UniqueKeys]; trivial
  have hnull : UniqueKeys (null : Value F) := by rw [null,UniqueKeys]; trivial
  cases type with
  | action =>
    obtain ⟨action,haction,rfl⟩ := Option.map_eq_some_iff.mp h
    simp only [List.forall_mem_cons]
    exact ⟨htext _,hdata.field haction,hdata.field_getD uniqueKeys_nil,nofun⟩
  | create =>
    obtain rfl := Option.some.inj h
    simp only [List.forall_mem_cons]
    exact ⟨htext _,hmodel,hdata,nofun⟩
  | update =>
    obtain rfl := Option.some.inj h
    simp only [List.forall_mem_cons]
    exact ⟨htext _,hmodel,hdata.field_getD hnull,hdata.filter,nofun⟩
  | delete =>
    obtain rfl := Option.some.inj h
    simp only [List.forall_mem_cons]
    exact ⟨htext _,hmodel,hdata.field_getD hnull,nofun⟩
  | transaction =>
    obtain ⟨values,hvalues,rfl⟩ := Option.map_eq_some_iff.mp h
    simp only [List.forall_mem_cons]
    refine ⟨htext _,?_,nofun⟩
    rw [UniqueKeys]
    exact hcommands values hvalues

/-- A payload is a dictionary if what it is made of are. -/
theorem uniqueKeys_payload (hmodel : UniqueKeys model) (hdata : UniqueKeys (.object data))
    (hcommands : ∀ values, commands = some values → UniqueItems values)
    (h : operationFields type model data commands = some fields) :
    UniqueKeys (.object (common id wait ++ fields)) := by
  refine uniqueKeys_object.mpr ⟨?_,?_⟩
  · rw [List.map_append,keys_operationFields h]
    change (["version","command_id","wait"] ++ type.keys).Nodup
    cases type <;> decide
  · intro f hf
    rcases List.mem_append.mp hf with hf | hf
    · simp only [common,List.mem_cons,List.not_mem_nil,or_false] at hf
      rcases hf with rfl | rfl | rfl <;> rw [UniqueKeys] <;> trivial
    · exact uniqueKeys_operationFields hmodel hdata hcommands h f hf

end

section
variable {str : Value F → String}

theorem uniqueKeys_model (model : Option String) : UniqueKeys (model.elim null .text : Value F) := by
  cases model with
  | none => rw [Option.elim_none,null,UniqueKeys]; trivial
  | some name => rw [Option.elim_some,UniqueKeys]; trivial

theorem uniqueKeys_nestedCommand {fields : Fields F} {c : SubCommand F}
    (hfields : UniqueKeys (.object fields)) (h : nestedCommand str fields = some c) :
    UniqueKeys c.model ∧ UniqueKeys (.object c.data) := by
  rw [nestedCommand] at h
  split at h
  · rename_i name data htype hdata
    obtain ⟨type,-,rfl⟩ := Option.map_eq_some_iff.mp h
    refine ⟨hfields.field_getD (by rw [null,UniqueKeys]; trivial),?_⟩
    rw [← hdata]
    exact hfields.field_getD uniqueKeys_nil
  · cases h

theorem SubCommand.uniqueKeys_payload {c : SubCommand F} {commands : Option (List (Value F))} {v : Value F}
    (hc : UniqueKeys c.model ∧ UniqueKeys (.object c.data))
    (hcommands : ∀ values, commands = some values → UniqueItems values)
    (h : c.payload commands = some v) : UniqueKeys v := by
  obtain ⟨fields,hfields,rfl⟩ := Option.map_eq_some_iff.mp h
  exact (Protocol.uniqueKeys_payload hc.1 hc.2 hcommands hfields).filter

mutual

theorem uniqueKeys_rustTransactionCommand {item : Item F} {v : Value F} (hitem : item.Dicts)
    (h : rustTransactionCommand str item = some v) : UniqueKeys v := by
  cases item with
  | command id type model data commands =>
    rw [Item.Dicts] at hitem
    exact SubCommand.uniqueKeys_payload ⟨uniqueKeys_model model,hitem.1⟩
      (fun values hvalues => uniqueItems_rustTransactionCommands hitem.2 hvalues) h
  | dict fields commands =>
    rw [Item.Dicts] at hitem
    obtain ⟨c,hc,hpayload⟩ := Option.bind_eq_some_iff.mp h
    exact SubCommand.uniqueKeys_payload (uniqueKeys_nestedCommand hitem.1 hc)
      (fun values hvalues => uniqueItems_rustTransactionCommands hitem.2 hvalues) hpayload

theorem uniqueItems_rustTransactionCommands {items : List (Item F)} {values : List (Value F)}
    (hitems : AllDicts items) (h : rustTransactionCommands str items = some values) : UniqueItems values := by
  cases items with
  | nil =>
    obtain rfl := Option.some.inj h
    trivial
  | cons item items =>
    rw [AllDicts] at hitems
    obtain ⟨v,hv,hrest⟩ := Option.bind_eq_some_iff.mp h
    obtain ⟨rest,hvalues,rfl⟩ := Option.map_eq_some_iff.mp hrest
    exact ⟨uniqueKeys_rustTransactionCommand hitems.1 hv,
      uniqueItems_rustTransactionCommands hitems.2 hvalues⟩

end

/-- The payload of a command is a dictionary throughout. -/
theorem uniqueKeys_rustCommandPayload {cmd : WriteCommand F} {wait : Bool} {v : Value F} (hcmd : cmd.Dicts)
    (h : rustCommandPayload str cmd wait = some v) : UniqueKeys v := by
  obtain ⟨fields,hfields,rfl⟩ := Option.map_eq_some_iff.mp h
  exact uniqueKeys_payload (uniqueKeys_model cmd.model) hcmd.1
    (fun values hvalues => uniqueItems_rustTransactionCommands hcmd.2 hvalues) hfields

end

end Podly.Protocol
