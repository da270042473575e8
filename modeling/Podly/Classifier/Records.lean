import Mathlib.Data.Rat.Defs
import Mathlib.Tactic.SplitIfs
import Podly.Store.Run
import Podly.Store.Table

/-! The rows of a post that its classification reads and writes, and the actions of the writer on
them. A row of `model_call` also says which requests it has served. -/
namespace Podly.Classifier
open Store

/-- What a provider is asked for: to classify a chunk, to confirm a repeated ad, or to refine the
boundaries of an ad. -/
inductive Caller
  | chunk
  | confirm
  | refine
deriving DecidableEq

/-- The unique index of `model_call`, among the rows of one post. -/
structure CallKey where
  firstSegmentSequenceNum : ℤ
  lastSegmentSequenceNum : ℤ
  modelName : String
deriving DecidableEq

/-- `ModelCall.status`. -/
inductive CallStatus
  | pending
  | retrying
  | receivedResponse
  | success
  | successHeuristic
  | failed
  | failedRetries
  | failedPermanent
  | cancelled
deriving DecidableEq

/-- The statuses that `upsert_model_call` resets. -/
def CallStatus.isReset : CallStatus → Bool
  | .pending | .retrying | .failedRetries | .failedPermanent | .cancelled => true
  | .receivedResponse | .success | .successHeuristic | .failed => false

/-- A row of `model_call`. The last two fields are history: the callers that the row was given to
and the one that wrote its response. -/
structure ModelCall where
  id : ℕ
  key : CallKey
  prompt : String
  response : Option String
  status : CallStatus
  errorMessage : Option String
  retryAttempts : ℕ
  servedTo : List Caller
  respondent : Option Caller
deriving DecidableEq

/-- A row that was found or created is reset unless it has an outcome, and given to its caller. -/
def ModelCall.serve (call : ModelCall) (caller : Caller) (prompt : String) : ModelCall :=
  if call.status.isReset then
    { call with
      status := .pending, prompt, retryAttempts := 0, errorMessage := none, response := none,
      servedTo := caller::call.servedTo }
  else { call with servedTo := caller::call.servedTo }

section
variable (call : ModelCall) (caller : Caller) (prompt : String)

@[simp] theorem ModelCall.serve_id : (call.serve caller prompt).id = call.id := by
  unfold serve
  split <;> rfl

@[simp] theorem ModelCall.serve_key : (call.serve caller prompt).key = call.key := by
  unfold serve
  split <;> rfl

@[simp] theorem ModelCall.serve_servedTo :
    (call.serve caller prompt).servedTo = caller::call.servedTo := by
  unfold serve
  split <;> rfl

@[simp] theorem ModelCall.serve_respondent :
    (call.serve caller prompt).respondent = call.respondent := by
  unfold serve
  split <;> rfl

/-- A response is kept or reset. -/
theorem ModelCall.serve_response {response : String}
    (h : (call.serve caller prompt).response = some response) : call.response = some response := by
  unfold serve at h
  split at h
  · cases h
  · exact h

end

/-- The fields that an update of a `ModelCall` sets. -/
structure CallUpdate where
  status : Option CallStatus := none
  response : Option (Option String) := none
  errorMessage : Option (Option String) := none
  retryAttempts : Option ℕ := none
deriving DecidableEq

def CallUpdate.apply (update : CallUpdate) (caller : Caller) (call : ModelCall) : ModelCall :=
  { call with
    status := update.status.getD call.status,
    response := update.response.getD call.response,
    errorMessage := update.errorMessage.getD call.errorMessage,
    retryAttempts := update.retryAttempts.getD call.retryAttempts,
    respondent := if update.response.isSome then some caller else call.respondent }

/-- The rows of `model_call` of a post: no two of them have one id or one key. -/
structure CallTable where
  table : Table ModelCall.id
  keys_nodup : (table.rows.map ModelCall.key).Nodup

namespace CallTable

def empty : CallTable := ⟨Table.empty,List.nodup_nil⟩

/-- The row of a key. -/
def find (calls : CallTable) (key : CallKey) : Option ModelCall :=
  calls.table.rows.find? (fun call => call.key = key)

/-- Change rows without changing their ids and keys. -/
def mapRows (calls : CallTable) (f : ModelCall → ModelCall) (hid : ∀ call, (f call).id = call.id)
    (hkey : ∀ call, (f call).key = call.key) : CallTable :=
  ⟨calls.table.mapRows f hid,by
    have h : (calls.table.mapRows f hid).rows.map ModelCall.key =
        calls.table.rows.map ModelCall.key := by
      rw [Table.mapRows,List.map_map]
      exact List.map_congr_left (fun call _ => hkey call)
    rw [h]
    exact calls.keys_nodup⟩

/-- A new row for a key that has none. -/
def create (calls : CallTable) (key : CallKey) (prompt : String)
    (h : key ∉ calls.table.rows.map ModelCall.key) : CallTable :=
  ⟨calls.table.append (fun id => ⟨id,key,prompt,none,.pending,none,0,[],none⟩) (fun _ => rfl),by
    simp only [Table.append,List.map_append,List.map_singleton]
    refine List.nodup_append.mpr ⟨calls.keys_nodup,by simp,?_⟩
    intro a ha b hb he
    rw [List.mem_singleton] at hb
    exact h (hb ▸ he ▸ ha)⟩

/-- The rows with one for a key. -/
def findOrCreate (calls : CallTable) (key : CallKey) (prompt : String) : CallTable :=
  if h : key ∈ calls.table.rows.map ModelCall.key then calls else calls.create key prompt h

/-- `upsert_model_call`. -/
def upsert (calls : CallTable) (caller : Caller) (key : CallKey) (prompt : String) : CallTable :=
  (calls.findOrCreate key prompt).mapRows
    (fun call => if call.key = key then call.serve caller prompt else call)
    (fun call => by split_ifs <;> simp) (fun call => by split_ifs <;> simp)

/-- An update of the row of an id. -/
def update (calls : CallTable) (caller : Caller) (id : ℕ) (update : CallUpdate) : CallTable :=
  calls.mapRows (fun call => if call.id = id then update.apply caller call else call)
    (fun call => by split_ifs <;> rfl) (fun call => by split_ifs <;> rfl)

section
variable {calls : CallTable} {caller : Caller} {key : CallKey} {prompt : String} {call : ModelCall}
  {id : ℕ}

theorem mem_findOrCreate (h : call ∈ (calls.findOrCreate key prompt).table.rows) :
    call ∈ calls.table.rows ∨ key ∉ calls.table.rows.map ModelCall.key ∧
      call = ⟨calls.table.nextKey,key,prompt,none,.pending,none,0,[],none⟩ := by
  unfold findOrCreate at h
  split at h
  · exact .inl h
  · rename_i hkey
    rcases List.mem_append.mp h with h | h
    · exact .inl h
    · exact .inr ⟨hkey,List.mem_singleton.mp h⟩

theorem mem_findOrCreate_of_mem (h : call ∈ calls.table.rows) :
    call ∈ (calls.findOrCreate key prompt).table.rows := by
  unfold findOrCreate
  split
  · exact h
  · exact List.mem_append_left _ h

theorem exists_findOrCreate : ∃ call ∈ (calls.findOrCreate key prompt).table.rows,
    call.key = key := by
  unfold findOrCreate
  split
  · rename_i h
    exact List.mem_map.mp h
  · exact ⟨_,List.mem_append_right _ (List.mem_singleton_self _),rfl⟩

/-- An upsert serves the row of its key and leaves the others. -/
theorem mem_upsert : call ∈ (calls.upsert caller key prompt).table.rows ↔
    (call.key ≠ key ∧ call ∈ calls.table.rows) ∨
      ∃ row ∈ (calls.findOrCreate key prompt).table.rows, row.key = key ∧
        call = row.serve caller prompt := by
  simp only [upsert,mapRows,Table.mapRows,List.mem_map]
  constructor
  · rintro ⟨row,hrow,rfl⟩
    split_ifs with hkey
    · exact .inr ⟨row,hrow,hkey,rfl⟩
    · refine .inl ⟨hkey,(mem_findOrCreate hrow).resolve_right ?_⟩
      rintro ⟨-,rfl⟩
      exact hkey rfl
  · rintro (⟨hkey,hcall⟩ | ⟨row,hrow,hkey,rfl⟩)
    · exact ⟨call,mem_findOrCreate_of_mem hcall,if_neg hkey⟩
    · exact ⟨row,hrow,if_pos hkey⟩

/-- An update changes the row of its id and leaves the others. -/
theorem mem_update {update : CallUpdate} :
    call ∈ (calls.update caller id update).table.rows ↔
      (call.id ≠ id ∧ call ∈ calls.table.rows) ∨
        ∃ row ∈ calls.table.rows, row.id = id ∧ call = update.apply caller row := by
  simp only [CallTable.update,mapRows,Table.mapRows,List.mem_map]
  constructor
  · rintro ⟨row,hrow,rfl⟩
    split_ifs with hid
    · exact .inr ⟨row,hrow,hid,rfl⟩
    · exact .inl ⟨hid,hrow⟩
  · rintro (⟨hid,hcall⟩ | ⟨row,hrow,hid,rfl⟩)
    · exact ⟨call,hcall,if_neg hid⟩
    · exact ⟨row,hrow,if_pos hid⟩

theorem find_mem (h : calls.find key = some call) : call ∈ calls.table.rows ∧ call.key = key :=
  ⟨List.mem_of_find?_eq_some h,by simpa using List.find?_some h⟩

end

end CallTable

/-- A row of `identification`; its label is `ad`. -/
structure Identification where
  id : ℕ
  transcriptSegmentId : ℤ
  modelCallId : ℕ
  confidence : ℚ
deriving DecidableEq

/-- A row to insert. -/
structure NewIdentification where
  transcriptSegmentId : ℤ
  modelCallId : ℕ
  confidence : ℚ
deriving DecidableEq

abbrev IdentificationTable := Table Identification.id

/-- `INSERT OR IGNORE`: a row is ignored when the segment has one of the same call. -/
def insertIdentification (identifications : IdentificationTable) (new : NewIdentification) :
    IdentificationTable :=
  if identifications.rows.any (fun old =>
      old.transcriptSegmentId = new.transcriptSegmentId ∧ old.modelCallId = new.modelCallId) then
    identifications
  else identifications.append
    (fun id => ⟨id,new.transcriptSegmentId,new.modelCallId,new.confidence⟩) (fun _ => rfl)

theorem mem_insertIdentification {t : IdentificationTable} {new : NewIdentification}
    {ad : Identification} (h : ad ∈ (insertIdentification t new).rows) :
    ad ∈ t.rows ∨ ad.modelCallId = new.modelCallId := by
  unfold insertIdentification at h
  split at h
  · exact .inl h
  · rcases List.mem_append.mp h with h | h
    · exact .inl h
    · rw [List.mem_singleton.mp h]
      exact .inr rfl

/-- An identification after inserts was there, or is one of a row. -/
theorem mem_insertIdentifications {t : IdentificationTable} {rows : List NewIdentification}
    {ad : Identification} (h : ad ∈ (rows.foldl insertIdentification t).rows) :
    ad ∈ t.rows ∨ ∃ new ∈ rows, ad.modelCallId = new.modelCallId := by
  induction rows generalizing t with
  | nil => exact .inl h
  | cons new rows ih =>
    rcases ih h with h | ⟨other,hother,he⟩
    · rcases mem_insertIdentification h with h | he
      · exact .inl h
      · exact .inr ⟨new,List.mem_cons_self,he⟩
    · exact .inr ⟨other,List.mem_cons_of_mem new hother,he⟩

/-- An item of `refined_ad_boundaries`. -/
structure AdBoundary where
  origStart : ℚ
  origEnd : ℚ
  refinedStart : ℚ
  refinedEnd : ℚ
  confidence : ℚ
deriving DecidableEq

/-- What is stored of the classification of a post, and how many requests the provider has had. -/
structure Records where
  modelCalls : CallTable
  identifications : IdentificationTable
  refinedAdBoundaries : Option (List AdBoundary)
  exchanges : ℕ

/-- A post that has not been classified. -/
def Records.empty : Records := ⟨CallTable.empty,Table.empty,none,0⟩

/-- The actions of the writer that a classification sends, and its requests to the provider. -/
inductive Action
  | upsertModelCall (caller : Caller) (key : CallKey) (prompt : String)
  | updateModelCall (caller : Caller) (id : ℕ) (update : CallUpdate)
  | complete (messages : List String)
  | insertIdentifications (rows : List NewIdentification)
  | replaceIdentifications (deleteIds : List ℕ) (rows : List NewIdentification)
  | updatePost (refinedAdBoundaries : Option (List AdBoundary))

/-- The records after an action. -/
def Records.act (records : Records) : Action → Records
  | .upsertModelCall caller key prompt =>
    { records with modelCalls := records.modelCalls.upsert caller key prompt }
  | .updateModelCall caller id update =>
    { records with modelCalls := records.modelCalls.update caller id update }
  | .complete _ => { records with exchanges := records.exchanges + 1 }
  | .insertIdentifications rows =>
    { records with identifications := rows.foldl insertIdentification records.identifications }
  | .replaceIdentifications deleteIds rows =>
    { records with
      identifications := rows.foldl insertIdentification
        (records.identifications.deleteWhere (fun old => old.id ∈ deleteIds)) }
  | .updatePost refinedAdBoundaries => { records with refinedAdBoundaries }

end Podly.Classifier
