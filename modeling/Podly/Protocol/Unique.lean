import Podly.Protocol.Commands

/-! Values in which no object has a key twice, which are the ones that the Rust writer reads. -/
namespace Podly.Protocol

variable {F : Type}

mutual

/-- `UniqueValue`, which follows a value as it is read. -/
def uniqueValue : Value F → Option (Value F)
  | .scalar x => some (.scalar x)
  | .text s => some (.text s)
  | .array items => (uniqueItems items).map .array
  | .object fields => (uniqueFields [] fields).map .object

def uniqueItems : List (Value F) → Option (List (Value F))
  | [] => some []
  | v::items => (uniqueValue v).bind (fun v => (uniqueItems items).map (v::·))

/-- The fields of an object, behind others with these keys. -/
def uniqueFields (keys : List String) : Fields F → Option (Fields F)
  | [] => some []
  | (key,v)::fields =>
    if key ∈ keys then none
    else (uniqueValue v).bind (fun v => (uniqueFields (key::keys) fields).map ((key,v)::·))

end

mutual

/-- No object in a value has a key twice. -/
def UniqueKeys : Value F → Prop
  | .scalar _ => True
  | .text _ => True
  | .array items => UniqueItems items
  | .object fields => (fields.map Prod.fst).Nodup ∧ UniqueFields fields

def UniqueItems : List (Value F) → Prop
  | [] => True
  | v::items => UniqueKeys v ∧ UniqueItems items

def UniqueFields : Fields F → Prop
  | [] => True
  | (_,v)::fields => UniqueKeys v ∧ UniqueFields fields

end

mutual

theorem uniqueValue_eq_some {v w : Value F} : uniqueValue v = some w ↔ UniqueKeys v ∧ w = v := by
  cases v with
  | scalar x =>
    rw [uniqueValue,UniqueKeys,true_and,Option.some.injEq,eq_comm]
  | text s =>
    rw [uniqueValue,UniqueKeys,true_and,Option.some.injEq,eq_comm]
  | array items =>
    rw [uniqueValue,UniqueKeys,Option.map_eq_some_iff]
    simp only [uniqueItems_eq_some]
    constructor
    · rintro ⟨_,⟨hitems,rfl⟩,rfl⟩
      exact ⟨hitems,rfl⟩
    · rintro ⟨hitems,rfl⟩
      exact ⟨items,⟨hitems,rfl⟩,rfl⟩
  | object fields =>
    rw [uniqueValue,UniqueKeys,Option.map_eq_some_iff]
    simp only [uniqueFields_eq_some]
    constructor
    · rintro ⟨_,⟨-,hkeys,hfields,rfl⟩,rfl⟩
      exact ⟨⟨hkeys,hfields⟩,rfl⟩
    · rintro ⟨⟨hkeys,hfields⟩,rfl⟩
      exact ⟨fields,⟨fun _ _ => List.not_mem_nil,hkeys,hfields,rfl⟩,rfl⟩

theorem uniqueItems_eq_some {items out : List (Value F)} :
    uniqueItems items = some out ↔ UniqueItems items ∧ out = items := by
  cases items with
  | nil =>
    rw [uniqueItems,UniqueItems,true_and,Option.some.injEq,eq_comm]
  | cons v items =>
    rw [uniqueItems,UniqueItems,Option.bind_eq_some_iff]
    simp only [uniqueValue_eq_some,Option.map_eq_some_iff,uniqueItems_eq_some]
    constructor
    · rintro ⟨_,⟨hv,rfl⟩,_,⟨hitems,rfl⟩,rfl⟩
      exact ⟨⟨hv,hitems⟩,rfl⟩
    · rintro ⟨⟨hv,hitems⟩,rfl⟩
      exact ⟨v,⟨hv,rfl⟩,items,⟨hitems,rfl⟩,rfl⟩

theorem uniqueFields_eq_some {keys : List String} {fields out : Fields F} :
    uniqueFields keys fields = some out ↔ (∀ f ∈ fields, f.1 ∉ keys) ∧
      (fields.map Prod.fst).Nodup ∧ UniqueFields fields ∧ out = fields := by
  cases fields with
  | nil =>
    rw [uniqueFields,UniqueFields,Option.some.injEq]
    simp [eq_comm]
  | cons f fields =>
    obtain ⟨key,v⟩ := f
    rw [uniqueFields,UniqueFields,List.map_cons,List.nodup_cons]
    split
    · rename_i hkey
      simp [hkey]
    · rename_i hkey
      rw [Option.bind_eq_some_iff]
      simp only [uniqueValue_eq_some,Option.map_eq_some_iff,uniqueFields_eq_some]
      constructor
      · rintro ⟨_,⟨hv,rfl⟩,_,⟨hnew,hkeys,hfields,rfl⟩,rfl⟩
        refine ⟨?_,⟨?_,hkeys⟩,⟨hv,hfields⟩,rfl⟩
        · intro f hf
          obtain rfl | hf := List.mem_cons.mp hf
          · exact hkey
          · exact fun h => hnew f hf (List.mem_cons_of_mem key h)
        · intro hmem
          obtain ⟨f,hf,rfl⟩ := List.mem_map.mp hmem
          exact hnew f hf List.mem_cons_self
      · rintro ⟨hnew,⟨hkey',hkeys⟩,⟨hv,hfields⟩,rfl⟩
        refine ⟨v,⟨hv,rfl⟩,fields,⟨?_,hkeys,hfields,rfl⟩,rfl⟩
        intro f hf hmem
        obtain hsame | hmem := List.mem_cons.mp hmem
        · exact hkey' (hsame ▸ List.mem_map_of_mem hf)
        · exact hnew f (List.mem_cons_of_mem _ hf) hmem

end

end Podly.Protocol
