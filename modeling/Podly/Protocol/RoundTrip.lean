import Podly.Protocol.Payload
import Podly.Protocol.Accepted
import Podly.Protocol.Text

/-! The wire format between the two: what the Python client encodes is decoded as it was said, and what
is decoded is well formed. -/
namespace Podly.Protocol
open Json (depth)

variable {F : Type}

section
variable {repr : F → List Char} {str : Value F → String}
  {read : List UInt8 → Option (Value F × List UInt8)} {bytes : List UInt8} {v : Value F}

theorem decodeCommand_of_read (hread : read bytes = some (v,[])) (hv : UniqueKeys v) :
    decodeCommand read bytes = (wireCommand v).bind WireCommand.tryInto := by
  rw [decodeCommand,hread]
  change (uniqueValue v).bind _ = _
  rw [uniqueValue_eq_some.mpr ⟨hv,rfl⟩]
  rfl

/-- What is decoded is one value with unique keys, in the wire format. -/
theorem wellFormed_of_decodeCommand {command : Command F} (h : decodeCommand read bytes = some command) :
    ∃ v rest, read bytes = some (v,rest) ∧ (∀ b ∈ rest, isBlank b) ∧ UniqueKeys v ∧ WellFormed v := by
  obtain ⟨⟨tree,rest⟩,hread,htree⟩ := Option.bind_eq_some_iff.mp h
  change (uniqueValue tree).bind _ = _ at htree
  obtain ⟨v,hv,hvalue⟩ := Option.bind_eq_some_iff.mp htree
  obtain ⟨hkeys,rfl⟩ := uniqueValue_eq_some.mp hv
  split_ifs at hvalue with hblank
  obtain ⟨wire,hwire,hcommand⟩ := Option.bind_eq_some_iff.mp hvalue
  exact ⟨v,rest,hread,List.all_eq_true.mp hblank,hkeys,wellFormed_of_tryInto hwire hcommand⟩

/-- What is encoded is decoded as it was said, or rejected where it lacks what its operation needs. -/
theorem decodeCommand_encodeRustCommand (hread : ReadsDumps repr read) {cmd : WriteCommand F}
    {wait : Bool} {payload : Value F} (hcmd : cmd.Dicts)
    (hpayload : rustCommandPayload str cmd wait = some payload) (hdepth : depth payload < recursionLimit)
    (h : encodeRustCommand repr str cmd wait = some bytes) :
    decodeCommand read bytes = cmd.said str wait := by
  have hunique := uniqueKeys_rustCommandPayload hcmd hpayload
  obtain rfl : dumps repr payload = bytes := by
    rw [encodeRustCommand,hpayload] at h
    exact Option.some.inj (Option.filter_eq_some_iff.mp h).1
  rw [← tryInto_rustCommandPayload cmd hpayload]
  obtain ⟨fields,-,rfl⟩ := Option.map_eq_some_iff.mp hpayload
  exact decodeCommand_of_read (hread _ hunique hdepth) hunique

theorem decodes_said_and_wellFormed (hread : ReadsDumps repr read) :
    (∀ (cmd : WriteCommand F) (wait : Bool) (payload : Value F) (bytes : List UInt8), cmd.Dicts →
      rustCommandPayload str cmd wait = some payload → depth payload < recursionLimit →
      encodeRustCommand repr str cmd wait = some bytes → decodeCommand read bytes = cmd.said str wait) ∧
      ∀ (bytes : List UInt8) (command : Command F), decodeCommand read bytes = some command →
        ∃ v rest, read bytes = some (v,rest) ∧ (∀ b ∈ rest, isBlank b) ∧ UniqueKeys v ∧ WellFormed v :=
  ⟨fun _ _ _ _ hcmd hpayload hdepth h => decodeCommand_encodeRustCommand hread hcmd hpayload hdepth h,
    fun _ _ h => wellFormed_of_decodeCommand h⟩

end

/-- What Python writes of a string. -/
def text : Value Decimal → String
  | .text s => s
  | _ => ""

namespace Renaming

/-- A post gets another title, and then there is a sweep. -/
def cmd : WriteCommand Decimal where
  id := "c1"
  type := .transaction
  model := none
  data := []
  commands := [.command "c2" .update (some "Post") [("title",.text "A \"new\" title"),
      ("id",.scalar (.int ⟨7,by decide⟩))] [],
    .dict [("id",.text "c3"),("type",.text "action"),("data",.object [("action",.text "sweep")])] []]

def payload : Value Decimal := .object (common "c1" true ++ [("operation",.text "transaction"),
  ("commands",.array [
    .object [("command_id",.text "c2"),("operation",.text "update"),("model",.text "Post"),
      ("id",.scalar (.int ⟨7,by decide⟩)),("data",.object [("title",.text "A \"new\" title")])],
    .object [("command_id",.text "c3"),("operation",.text "action"),("action",.text "sweep"),
      ("params",.object [])]])])

theorem encoded : encodeRustCommand Subtype.val text cmd true = some (dumps Subtype.val payload) :=
  Option.filter_eq_some_iff.mpr ⟨rfl,by decide +kernel⟩

theorem dicts : cmd.Dicts := by
  simp [WriteCommand.Dicts,cmd,Item.Dicts,AllDicts,UniqueKeys,UniqueFields]

theorem decoded : decodeCommand readText (dumps Subtype.val payload) = some ⟨1,"c1",true,
    .transaction [("c2",.update "Post" (.scalar (.int ⟨7,by decide⟩)) [("title",.text "A \"new\" title")]),
      ("c3",.action "sweep" [])]⟩ :=
  (decodes_said_and_wellFormed readsDumps_readText).1 cmd true payload _ dicts rfl (by decide) encoded

end Renaming

namespace Unidentified

/-- An update of no row, and what is sent of it. -/
def cmd : WriteCommand Decimal := ⟨"c1",.update,some "Post",[("title",.text "New")],[]⟩

def payload : Value Decimal := .object (common "c1" true ++ [("operation",.text "update"),
  ("model",.text "Post"),("id",null),("data",.object [("title",.text "New")])])

/-- An object that also has a field of another operation, which is null. -/
def fields : Fields Decimal := common "c1" true ++ [("operation",.text "create"),("model",.text "Post"),
  ("id",null),("data",.object [])]

/-- A command without an id is encoded and yet not decoded, and a field that is null can stand where there
is none in its operation. -/
theorem not_decoded_and_null_accepted :
    cmd.Dicts ∧ encodeRustCommand Subtype.val text cmd true = some (dumps Subtype.val payload) ∧
      decodeCommand readText (dumps Subtype.val payload) = none ∧
      decodeCommand readText (dumps Subtype.val (.object fields)) =
        some ⟨1,"c1",true,.create "Post" []⟩ ∧
      "id" ∈ fields.map Prod.fst ∧
      "id" ∉ ["version","command_id","wait"] ++ WriteCommandType.create.keys := by
  have hread : ∀ fields : Fields Decimal, UniqueKeys (.object fields) →
      depth (.object fields) < recursionLimit →
        decodeCommand readText (dumps Subtype.val (.object fields)) =
          (wireCommand (.object fields)).bind WireCommand.tryInto :=
    fun fields hkeys hdepth => decodeCommand_of_read (readsDumps_readText fields hkeys hdepth) hkeys
  refine ⟨?_,Option.filter_eq_some_iff.mpr ⟨rfl,by decide +kernel⟩,?_,?_,by decide,by decide⟩
  · simp [WriteCommand.Dicts,cmd,AllDicts,UniqueKeys,UniqueFields]
  · rw [payload,hread _ (by simp [common,null,UniqueKeys,UniqueFields]) (by decide)]
    rfl
  · rw [hread fields (by simp [fields,common,null,UniqueKeys,UniqueFields]) (by decide)]
    rfl

end Unidentified

end Podly.Protocol
