import Podly.Serde.Value

/-! The word timestamps a post stores as one JSON column, and its two readers: one parses every
entry, the other only the word arrays of the wanted segments. -/
namespace Podly.WordBoundary
open Serde

/-- The map both readers build: entries in the order of their insertion. -/
abbrev WordsBySeq := List (ℤ × List Value)

/-- A later insertion replaces an earlier one. -/
def WordsBySeq.get (map : WordsBySeq) (seq : ℤ) : Option (List Value) :=
  ((map.filter (fun e => e.1 = seq)).getLast?).map Prod.snd

/-- What `query_wb_word_timestamps_by_seq` takes of one entry. -/
def wordEntry (entry : Value) : Option (ℤ × List Value) :=
  match (entry.get "sequence_num").bind Value.asI64, entry.get "words" with
  | some seq, some (.array (word::words)) => some (seq,word::words)
  | _, _ => none

/-- `query_wb_word_timestamps_by_seq`, from the parsed column: entries that do not fit are left
out one by one. -/
def queryWbWordTimestampsBySeq (stored : Option Value) : WordsBySeq :=
  match stored with
  | some (.array entries) => entries.filterMap wordEntry
  | _ => []

/-- The derived deserializer of the field `words`: null is as good as nothing. -/
def optionalRaw : List Value → Option (Option Value)
  | [] => some none
  | [.null] => some none
  | [words] => some (some words)
  | _ => none

/-- The derived deserializer of `WbRawWtEntry`: `sequence_num` has to be there once, as a 64-bit
integer, and `words` at most once. A struct is also read from an array of its fields. -/
def wbRawWtEntry : Value → Option (ℤ × Option Value)
  | .object fields =>
    match Value.fieldsAt fields "sequence_num" with
    | [seq] =>
      match seq.asI64, optionalRaw (Value.fieldsAt fields "words") with
      | some seq, some words => some (seq,words)
      | _, _ => none
    | _ => none
  | .array (seq::words) =>
    match seq.asI64, optionalRaw words with
    | some seq, some words => some (seq,words)
    | _, _ => none
  | _ => none

/-- What `query_wb_word_timestamps_for_seqs` keeps of one entry. -/
def rawWords (wanted : List ℤ) (entry : ℤ × Option Value) : Option (ℤ × List Value) :=
  if entry.1 ∈ wanted then
    match entry.2 with
    | some (.array (word::words)) => some (entry.1,word::words)
    | _ => none
  else none

/-- `query_wb_word_timestamps_for_seqs`, from the parsed column: one entry that does not fit the
struct fails the whole parse, and no segment gets words. -/
def queryWbWordTimestampsForSeqs (wanted : List ℤ) (stored : Option Value) : WordsBySeq :=
  if wanted = [] then []
  else match stored with
    | some (.array entries) =>
      match entries.mapM wbRawWtEntry with
      | some raws => raws.filterMap (rawWords wanted)
      | none => []
    | _ => []

/-- An entry both readers understand alike: an object with one 64-bit integer `sequence_num` and at
most one `words`. -/
def IsWordEntry (entry : Value) : Prop :=
  ∃ fields seq, entry = .object fields ∧ InI64 seq ∧
    Value.fieldsAt fields "sequence_num" = [.int seq] ∧
    (Value.fieldsAt fields "words").length ≤ 1

/-- Every stored entry is one both readers understand. -/
def AllWordEntries (stored : Option Value) : Prop :=
  match stored with
  | some (.array entries) => ∀ entry ∈ entries, IsWordEntry entry
  | _ => True

/-- What both readers make of one entry. -/
theorem IsWordEntry.read_alike {entry : Value} (h : IsWordEntry entry) :
    ∃ raw, wbRawWtEntry entry = some raw ∧
      ∀ wanted, rawWords wanted raw = (wordEntry entry).filter (fun e => e.1 ∈ wanted) := by
  obtain ⟨fields,seq,rfl,hseq,hseqs,hwords⟩ := h
  have hget : ((Value.object fields).get "sequence_num").bind Value.asI64 = some seq := by
    simp [Value.get, hseqs, Value.asI64_int hseq]
  have hraw : ∀ words, optionalRaw (Value.fieldsAt fields "words") = some words →
      wbRawWtEntry (.object fields) = some (seq,words) := by
    intro words hw
    simp only [wbRawWtEntry, hseqs, Value.asI64_int hseq, hw]
  have hentry : wordEntry (.object fields) = match (Value.object fields).get "words" with
      | some (.array (word::words)) => some (seq,word::words)
      | _ => none := by
    rw [wordEntry,hget]
    rcases (Value.object fields).get "words" with _ | (_ | _ | _ | _ | _ | (_ | _) | _) <;> rfl
  rcases hw : Value.fieldsAt fields "words" with _ | ⟨words,_ | ⟨words',rest⟩⟩
  · refine ⟨_,hraw none (by rw [hw]; rfl),fun wanted => ?_⟩
    simp [rawWords, hentry, Value.get, hw]
  · have hword : (Value.object fields).get "words" = some words := by simp [Value.get, hw]
    rw [hentry,hword]
    cases words with
    | null =>
      refine ⟨_,hraw none (by rw [hw]; rfl),fun wanted => ?_⟩
      simp [rawWords]
    | array items =>
      refine ⟨_,hraw (some (.array items)) (by rw [hw]; rfl),fun wanted => ?_⟩
      cases items with
      | nil => simp [rawWords]
      | cons word words =>
        by_cases hmem : seq ∈ wanted
        · simp [rawWords, hmem, Option.filter_some]
        · simp [rawWords, hmem, Option.filter_some]
    | bool b => exact ⟨_,hraw (some (.bool b)) (by rw [hw]; rfl),fun wanted => by simp [rawWords]⟩
    | int n => exact ⟨_,hraw (some (.int n)) (by rw [hw]; rfl),fun wanted => by simp [rawWords]⟩
    | float q => exact ⟨_,hraw (some (.float q)) (by rw [hw]; rfl),fun wanted => by simp [rawWords]⟩
    | str s => exact ⟨_,hraw (some (.str s)) (by rw [hw]; rfl),fun wanted => by simp [rawWords]⟩
    | object fields' =>
      exact ⟨_,hraw (some (.object fields')) (by rw [hw]; rfl),fun wanted => by simp [rawWords]⟩
  · rw [hw] at hwords
    simp at hwords

/-- The struct of the lazy reader takes an entry, and of it for the wanted segments what the plain
reader takes. -/
def EntryReadAlike (wanted : List ℤ) (entry : Value) : Prop :=
  ∃ raw, wbRawWtEntry entry = some raw ∧
    rawWords wanted raw = (wordEntry entry).filter (fun e => e.1 ∈ wanted)

/-- Every stored entry is read alike. -/
def StoredReadAlike (wanted : List ℤ) (stored : Option Value) : Prop :=
  match stored with
  | some (.array entries) => ∀ entry ∈ entries, EntryReadAlike wanted entry
  | _ => True

theorem AllWordEntries.storedReadAlike {stored : Option Value} (h : AllWordEntries stored)
    (wanted : List ℤ) : StoredReadAlike wanted stored := by
  unfold StoredReadAlike
  split
  · intro entry hentry
    obtain ⟨raw,hraw,hwords⟩ := (h entry hentry).read_alike
    exact ⟨raw,hraw,hwords wanted⟩
  · trivial

/-- On entries that are read alike, the lazy reader keeps the wanted insertions. -/
theorem mapM_wbRawWtEntry {entries : List Value} {wanted : List ℤ}
    (h : ∀ entry ∈ entries, EntryReadAlike wanted entry) :
    ∃ raws, entries.mapM wbRawWtEntry = some raws ∧
      raws.filterMap (rawWords wanted) =
        (entries.filterMap wordEntry).filter (fun e => e.1 ∈ wanted) := by
  induction entries with
  | nil => exact ⟨[],rfl,rfl⟩
  | cons entry entries ih =>
    obtain ⟨raws,hraws,hwords⟩ := ih (fun e he => h e (by simp [he]))
    obtain ⟨raw,hraw,hword⟩ := h entry (by simp)
    refine ⟨raw::raws,by rw [List.mapM_cons,hraw,hraws]; rfl,?_⟩
    rw [List.filterMap_cons,List.filterMap_cons,hword,hwords]
    cases wordEntry entry with
    | none => rfl
    | some e =>
      by_cases hmem : e.1 ∈ wanted
      · simp [hmem, Option.filter_some]
      · simp [hmem, Option.filter_some]

/-- The two readers agree on the wanted segments if every entry is read alike. -/
theorem get_queryWbWordTimestampsForSeqs {stored : Option Value} {wanted : List ℤ}
    (h : StoredReadAlike wanted stored) {seq : ℤ} (hseq : seq ∈ wanted) :
    (queryWbWordTimestampsForSeqs wanted stored).get seq =
      (queryWbWordTimestampsBySeq stored).get seq := by
  have hne : wanted ≠ [] := List.ne_nil_of_mem hseq
  unfold queryWbWordTimestampsForSeqs queryWbWordTimestampsBySeq
  rw [if_neg hne]
  split
  · rename_i entries
    obtain ⟨raws,hraws,hwords⟩ := mapM_wbRawWtEntry h
    simp only [hraws, hwords, WordsBySeq.get, List.filter_filter]
    congr 3
    funext e
    by_cases he : e.1 = seq
    · simp [he, hseq]
    · simp [he]
  · rfl

end Podly.WordBoundary
