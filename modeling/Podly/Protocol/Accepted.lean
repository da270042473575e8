import Podly.Lists.FilterMap
import Podly.Protocol.Decode
import Podly.Protocol.Dicts

/-! What the Rust writer accepts: the fields of an operation, the ones of the envelope, and no others that
are not null. -/
namespace Podly.Protocol

variable {F : Type}

/-- A field that is not null. -/
def Given (fields : Fields F) (key : String) : Prop :=
  ∃ v, field fields key = some v ∧ isNull v = false

/-- Behind the fields of an envelope are those of the operation, if it is one that there is. -/
def Exact (envelope : List String) (fields : Fields F) : Prop :=
  (∃ operation, field fields "operation" = some (.text operation)) ∧
    (∀ key ∈ envelope, Given fields key) ∧
    ∀ type : WriteCommandType, field fields "operation" = some (.text type.name) →
      ∀ key, Given fields key ↔ key ∈ envelope ++ type.keys

/-- A command in a transaction, which is no transaction itself. -/
def WellFormedItem (v : Value F) : Prop :=
  ∃ fields, structFields wireTransactionCommandFields v = some fields ∧ Exact ["command_id"] fields ∧
    field fields "operation" ≠ some (.text "transaction")

/-- A command in the wire format. -/
def WellFormed (v : Value F) : Prop :=
  ∃ fields, structFields wireCommandFields v = some fields ∧
    Exact ["version","command_id","wait"] fields ∧
    (field fields "operation" = some (.text "transaction") → ∃ items,
      field fields "commands" = some (.array items) ∧ items ≠ [] ∧ ∀ item ∈ items, WellFormedItem item)

section Given
variable {α : Type} {fields : Fields F} {key : String} {v : Value F} {names : List String}

theorem given_of_text {s : String} (h : field fields key = some (.text s)) : Given fields key :=
  ⟨.text s,h,rfl⟩

theorem given_of_bind {read : Value F → Option α} {x : α} (hnull : read null = none)
    (h : (field fields key).bind read = some x) : Given fields key := by
  obtain ⟨v,hv,hread⟩ := Option.bind_eq_some_iff.mp h
  refine ⟨v,hv,?_⟩
  by_contra hne
  have hv : v = null := eq_null_of_isNull (by simpa using hne)
  rw [hv,hnull] at hread
  cases hread

/-- A field that can be missing is one that is given, or else there is none. -/
theorem given_iff_isSome {read : Value F → Option α} {x : Option α}
    (h : optional read (field fields key) = some x) : Given fields key ↔ x.isSome := by
  cases hfield : field fields key with
  | none =>
    rw [hfield] at h
    obtain rfl := Option.some.inj h
    refine ⟨?_,nofun⟩
    rintro ⟨v,hv,-⟩
    cases hfield.symm.trans hv
  | some v =>
    rw [hfield] at h
    change (if isNull v then some none else (read v).map some) = some x at h
    split_ifs at h with hnull
    · obtain rfl := Option.some.inj h
      refine ⟨?_,nofun⟩
      rintro ⟨w,hw,hgiven⟩
      obtain rfl := Option.some.inj (hfield.symm.trans hw)
      rw [hnull] at hgiven
      cases hgiven
    · obtain ⟨y,-,rfl⟩ := Option.map_eq_some_iff.mp h
      exact ⟨fun _ => rfl,fun _ => ⟨v,hfield,by simpa using hnull⟩⟩

/-- A struct has no other fields than its own. -/
theorem mem_of_given (h : structFields names v = some fields) (hgiven : Given fields key) :
    key ∈ names := by
  obtain ⟨w,hw,-⟩ := hgiven
  obtain ⟨f,hf,rfl⟩ := Option.map_eq_some_iff.mp hw
  have hmem : f ∈ fields := List.mem_of_find?_eq_some hf
  have hkey : f.1 = key := by simpa using List.find?_some hf
  subst hkey
  cases v with
  | object given =>
    change (if _ then _ else _) = _ at h
    split_ifs at h with hall
    obtain rfl := Option.some.inj h
    exact of_decide_eq_true (List.all_eq_true.mp hall f hmem)
  | array items =>
    change (if _ then _ else _) = _ at h
    split_ifs at h
    obtain rfl := Option.some.inj h
    exact (List.of_mem_zip hmem).1
  | _ => cases h

/-- The fields that are given are the ones of an operation if those that can be are. -/
theorem given_iff_mem (slots : List (String × Bool)) {keys : List String}
    (hfields : structFields names v = some fields) (hnames : ∀ key ∈ names, key ∈ slots.map Prod.fst)
    (hkeys : ∀ key ∈ keys, key ∈ names) (hgiven : ∀ slot ∈ slots, Given fields slot.1 ↔ slot.2)
    (hslots : ∀ slot ∈ slots, slot.2 = decide (slot.1 ∈ keys)) : Given fields key ↔ key ∈ keys := by
  have hslot : key ∈ names → (Given fields key ↔ key ∈ keys) := by
    intro hkey
    obtain ⟨slot,hmem,rfl⟩ := List.mem_map.mp (hnames key hkey)
    rw [hgiven slot hmem,hslots slot hmem,decide_eq_true_eq]
  exact ⟨fun h => (hslot (mem_of_given hfields h)).mp h,fun h => (hslot (hkeys key h)).mpr h⟩

end Given

/-- The fields of an operation, and whether they are given. -/
def WireOperation.slots (wire : WireOperation F) : List (String × Bool) :=
  [("operation",true),("action",wire.action.isSome),("params",wire.params.isSome),
    ("model",wire.model.isSome),("id",wire.id.isSome),("data",wire.data.isSome)]

section Operation
variable {fields : Fields F} {wire : WireOperation F} {operation : Operation F} {type : WriteCommandType}

theorem given_slots (h : wireOperation fields = some wire) :
    ∀ slot ∈ wire.slots, Given fields slot.1 ↔ slot.2 := by
  obtain ⟨hoperation,haction,hparams,hmodel,hid,hdata⟩ := wireOperation_eq_some h
  simp only [WireOperation.slots,List.forall_mem_cons]
  exact ⟨iff_of_true (given_of_text hoperation) trivial,given_iff_isSome haction,
    given_iff_isSome hparams,given_iff_isSome hmodel,given_iff_isSome hid,given_iff_isSome hdata,nofun⟩

theorem isSome_of_scalarId {id : Option (Value F)} {v : Value F} (h : scalarId id = some v) :
    id.isSome := by
  cases id with
  | none => cases h
  | some id => rfl

/-- An operation on one row has the fields of its type. -/
theorem slots_of_single (h : wire.single = some operation) (hname : wire.operation = type.name)
    (htype : type ≠ .transaction) : ∀ slot ∈ wire.slots, slot.2 = decide (slot.1 ∈ type.keys) := by
  obtain ⟨name,action,params,model,id,data⟩ := wire
  obtain rfl : name = type.name := hname
  cases type with
  | action =>
    change (if model.isNone ∧ id.isNone ∧ data.isNone then _ else none) = _ at h
    split_ifs at h with hnone
    obtain ⟨action,rfl,h⟩ := Option.bind_eq_some_iff.mp h
    obtain ⟨params,rfl,-⟩ := Option.bind_eq_some_iff.mp h
    simp [WireOperation.slots,WriteCommandType.keys,hnone]
  | create =>
    change (if action.isNone ∧ params.isNone ∧ id.isNone then _ else none) = _ at h
    split_ifs at h with hnone
    obtain ⟨model,rfl,h⟩ := Option.bind_eq_some_iff.mp h
    obtain ⟨data,rfl,-⟩ := Option.bind_eq_some_iff.mp h
    simp [WireOperation.slots,WriteCommandType.keys,hnone]
  | update =>
    change (if action.isNone ∧ params.isNone then _ else none) = _ at h
    split_ifs at h with hnone
    obtain ⟨model,rfl,h⟩ := Option.bind_eq_some_iff.mp h
    obtain ⟨v,hid,h⟩ := Option.bind_eq_some_iff.mp h
    obtain ⟨data,rfl,-⟩ := Option.bind_eq_some_iff.mp h
    simp [WireOperation.slots,WriteCommandType.keys,hnone,isSome_of_scalarId hid]
  | delete =>
    change (if action.isNone ∧ params.isNone ∧ data.isNone then _ else none) = _ at h
    split_ifs at h with hnone
    obtain ⟨model,rfl,h⟩ := Option.bind_eq_some_iff.mp h
    obtain ⟨v,hid,-⟩ := Option.bind_eq_some_iff.mp h
    simp [WireOperation.slots,WriteCommandType.keys,hnone,isSome_of_scalarId hid]
  | transaction => exact absurd rfl htype

theorem slots_of_single_append {envelope : List String}
    (hne : ∀ key ∈ ["operation","action","params","model","id","data"], key ∉ envelope)
    (h : wire.single = some operation) (hname : wire.operation = type.name)
    (htype : type ≠ .transaction) :
    ∀ slot ∈ wire.slots, slot.2 = decide (slot.1 ∈ envelope ++ type.keys) := by
  intro slot hslot
  have hkey : slot.1 ∉ envelope := hne _ (List.mem_map_of_mem hslot)
  rw [slots_of_single h hname htype slot hslot]
  simp [hkey]

end Operation

section Accept
variable {v : Value F} {fields : Fields F} {type : WriteCommandType}

theorem name_of_field {wire : WireOperation F} (h : wireOperation fields = some wire)
    (htype : field fields "operation" = some (.text type.name)) : wire.operation = type.name :=
  Json.Value.text.inj (Option.some.inj ((wireOperation_eq_some h).1.symm.trans htype))

theorem wellFormedItem_of_tryInto {wire : WireTransactionCommand F} {command : String × Operation F}
    (hwire : wireTransactionCommand v = some wire) (h : wire.tryInto = some command) :
    WellFormedItem v := by
  obtain ⟨fields,hfields,hid,hoperation⟩ := wireTransactionCommand_eq_some hwire
  rw [WireTransactionCommand.tryInto] at h
  split_ifs at h with hne
  obtain ⟨operation,hsingle,-⟩ := Option.map_eq_some_iff.mp h
  have hname := (wireOperation_eq_some hoperation).1
  refine ⟨fields,hfields,⟨⟨_,hname⟩,?_,?_⟩,?_⟩
  · simpa using given_of_text hid
  · intro type htype key
    have hsame := name_of_field hoperation htype
    have htransaction : type ≠ .transaction := by
      rintro rfl
      exact hne hsame
    refine given_iff_mem (("command_id",true)::wire.wire.slots) hfields ?_ ?_ ?_ ?_
    · change ∀ key ∈ wireTransactionCommandFields, key ∈ wireTransactionCommandFields
      exact fun key hkey => hkey
    · cases type <;> first | decide | exact absurd rfl htransaction
    · exact List.forall_mem_cons.mpr
        ⟨iff_of_true (given_of_text hid) rfl,given_slots hoperation⟩
    · exact List.forall_mem_cons.mpr
        ⟨rfl,slots_of_single_append (by decide) hsingle hsame htransaction⟩
  · rw [hname]
    exact fun hsame => hne (Json.Value.text.inj (Option.some.inj hsame))

/-- A transaction has its list, which is not empty, and no other field. -/
theorem slots_of_transaction {wire : WireCommand F} {operation : Operation F}
    (h : wire.operation = some operation) (hname : wire.wire.operation = "transaction") :
    (∀ slot ∈ ("commands",wire.commands.isSome)::wire.wire.slots,
      slot.2 = decide (slot.1 ∈ ["operation","commands"])) ∧
      ∃ wires commands, wire.commands = some wires ∧ wires ≠ [] ∧
        wires.mapM WireTransactionCommand.tryInto = some commands := by
  rw [WireCommand.operation,if_pos hname] at h
  split_ifs at h with hnone
  obtain ⟨wires,hwires,h⟩ := Option.bind_eq_some_iff.mp h
  change (if wires.isEmpty then none else _) = _ at h
  split_ifs at h with hempty
  obtain ⟨commands,hcommands,-⟩ := Option.map_eq_some_iff.mp h
  refine ⟨?_,wires,commands,hwires,by simpa using hempty,hcommands⟩
  simp [WireOperation.slots,hnone,hwires]

/-- Any other operation that there is has no list of commands. -/
theorem single_of_operation {wire : WireCommand F} {operation : Operation F}
    (h : wire.operation = some operation) (hname : wire.wire.operation = type.name)
    (htype : type ≠ .transaction) : wire.commands.isSome = false ∧ wire.wire.single = some operation := by
  have hne : type.name ≠ "transaction" ∧ type.name ∈ ["action","create","update","delete"] := by
    cases type <;> first | decide | exact absurd rfl htype
  rw [WireCommand.operation,hname,if_neg hne.1] at h
  split_ifs at h with hcommands
  exact ⟨by simpa [hne.2] using hcommands,h⟩

theorem wellFormed_of_tryInto {wire : WireCommand F} {command : Command F}
    (hwire : wireCommand v = some wire) (h : wire.tryInto = some command) : WellFormed v := by
  obtain ⟨fields,hfields,hversion,hid,hwait,hoperation,hcommands⟩ := wireCommand_eq_some hwire
  obtain ⟨operation,h,-⟩ := Option.map_eq_some_iff.mp h
  have hname := (wireOperation_eq_some hoperation).1
  have hgiven : Given fields "version" ∧ Given fields "command_id" ∧ Given fields "wait" :=
    ⟨given_of_bind rfl hversion,given_of_text hid,given_of_bind rfl hwait⟩
  refine ⟨fields,hfields,⟨⟨_,hname⟩,by simpa using hgiven,?_⟩,?_⟩
  · intro type htype key
    have hsame := name_of_field hoperation htype
    have hslots : ∀ slot ∈ ("commands",wire.commands.isSome)::wire.wire.slots,
        slot.2 = decide (slot.1 ∈ ["version","command_id","wait"] ++ type.keys) := by
      by_cases htransaction : type = .transaction
      · subst htransaction
        intro slot hslot
        have hkey : slot.1 ∉ ["version","command_id","wait"] :=
          (by decide : ∀ key ∈ ["commands","operation","action","params","model","id","data"],
            key ∉ ["version","command_id","wait"]) _ (List.mem_map_of_mem hslot)
        rw [(slots_of_transaction h hsame).1 slot hslot]
        exact decide_eq_decide.mpr (List.mem_append.trans (or_iff_right hkey)).symm
      · obtain ⟨hnone,hsingle⟩ := single_of_operation h hsame htransaction
        refine List.forall_mem_cons.mpr
          ⟨?_,slots_of_single_append (by decide) hsingle hsame htransaction⟩
        rw [hnone]
        cases type <;> first | decide | exact absurd rfl htransaction
    refine given_iff_mem (("version",true)::("command_id",true)::("wait",true)::
      ("commands",wire.commands.isSome)::wire.wire.slots) hfields ?_ ?_ ?_ ?_
    · change ∀ key ∈ wireCommandFields, key ∈ ["version","command_id","wait","commands","operation",
        "action","params","model","id","data"]
      decide
    · cases type <;> decide
    · simp only [List.forall_mem_cons]
      exact ⟨iff_of_true hgiven.1 trivial,iff_of_true hgiven.2.1 trivial,iff_of_true hgiven.2.2 trivial,
        given_iff_isSome hcommands,given_slots hoperation⟩
    · simp only [List.forall_mem_cons] at hslots ⊢
      exact ⟨rfl,rfl,rfl,hslots⟩
  · intro htransaction
    have htype : field fields "operation" = some (.text WriteCommandType.transaction.name) :=
      htransaction
    have hsame := name_of_field hoperation htype
    obtain ⟨-,wires,commands,hwires,hne,hall⟩ := slots_of_transaction h hsame
    rw [hwires] at hcommands
    obtain ⟨w,hw,hread⟩ := exists_of_optional hcommands
    obtain ⟨items,rfl,hitems⟩ := readVec_eq_some hread
    refine ⟨items,hw,?_,fun item hitem => ?_⟩
    · rintro rfl
      exact hne (Option.some.inj hitems).symm
    · obtain ⟨wire,hmem,hwire⟩ := Lists.exists_of_mapM hitems item hitem
      obtain ⟨command,-,hcommand⟩ := Lists.exists_of_mapM hall wire hmem
      exact wellFormedItem_of_tryInto hwire hcommand

end Accept

end Podly.Protocol
