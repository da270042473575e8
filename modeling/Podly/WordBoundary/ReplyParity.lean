import Mathlib.Data.List.Infix
import Podly.WordBoundary.ReplyText

/-! When both refiners read the same object out of a reply. -/
namespace Podly.WordBoundary
open Serde Strings

variable (T : Text) (loads fromStr : String → Option Value)

/-- The text ends in a comma and a closed key, with a newline behind it. -/
def EndsInClosedKey (xs : List Char) : Prop :=
  ∃ ys, ys <:+ xs ∧ (afterComma T ys).bind afterQuote = some ['\n']

/-- Both parsers read one object, or none, from a text and, where that gives nothing, from its
repair, which does not drop a key in front of a newline. -/
def CandidateAlike (candidate : List Char) : Prop :=
  tryParse (python loads) candidate = tryParse (rust fromStr) candidate ∧
    (tryParse (rust fromStr) candidate = none →
      ¬EndsInClosedKey T (truncated T candidate) ∧
      ∀ repaired, repairTruncatedJson T (rust fromStr) candidate = some repaired →
        tryParse (python loads) repaired = tryParse (rust fromStr) repaired)

/-- So they do up to the first text that gives an object. -/
def TriedAlike : List (List Char) → Prop
  | [] => True
  | candidate::candidates => CandidateAlike T loads fromStr candidate ∧
      (parseJsonCandidate T (rust fromStr) candidate = none → TriedAlike candidates)

/-- The first place where Python finds a field spells its key without the i that only Python takes
for one. -/
def PlainFirst {α : Type} (key : String) (content : List Char)
    (literal : List Char → Option α) : Prop :=
  ∀ xs ∈ content.tails.find?
      (fun xs => ((afterKey T (python loads) key xs).bind literal).isSome),
    (afterKey T (rust fromStr) key xs).isSome

/-- The fields that are salvaged from a text are the same: where a field is found first its key is
spelled plainly, and both languages read its integer alike. A null is looked for only where no
integer is read. -/
structure SalvagedAlike (content : List Char) : Prop where
  intsPlain : ∀ key ∈ ["refined_start_segment_seq","refined_end_segment_seq"],
    PlainFirst T loads fromStr key content (intLiteral (rust fromStr))
  ints : ∀ key ∈ ["refined_start_segment_seq","refined_end_segment_seq"], ∀ raw,
    searchField T (rust fromStr) key content (intLiteral (rust fromStr)) = some (some raw) →
      pyToInt raw = parseI64 raw
  nullsPlain : ∀ key ∈ ["refined_start_segment_seq","refined_end_segment_seq"],
    (searchField T (rust fromStr) key content (intLiteral (rust fromStr))).bind
        (fun raw => raw.bind parseI64) = none →
      PlainFirst T loads fromStr key content (afterWord false "null".toList)
  stringsPlain : ∀ key ∈ ["refined_start_phrase","refined_end_phrase","start_adjustment_reason",
      "end_adjustment_reason"],
    PlainFirst T loads fromStr key content stringLiteral

/-- Both refiners read the same object out of a reply. -/
structure ReadAlike (content : String) : Prop where
  tried : TriedAlike T loads fromStr (jsonParseCandidates T content.toList)
  salvaged : (∀ candidate ∈ jsonParseCandidates T content.toList,
    parseJsonCandidate T (rust fromStr) candidate = none) →
      SalvagedAlike T loads fromStr content.toList

variable {T} {xs : List Char}

/-- Matches that agree on every end of the text drop the same. -/
theorem dropMatch_congr {rest rest' : List Char → Option (List Char)}
    (h : ∀ ys, ys <:+ xs → rest ys = rest' ys) : dropMatch rest xs = dropMatch rest' xs := by
  induction xs with
  | nil => rfl
  | cons x xs ih =>
    have hrest := ih (fun ys hys => h ys (hys.trans (List.suffix_cons x xs)))
    simp only [dropMatch,h (x::xs) (List.suffix_refl _),hrest]

/-- Without a newline behind a closed key both languages drop the same. -/
theorem dropMatch_closedKey (h : ¬EndsInClosedKey T xs) :
    dropMatch (closedKey T (python loads)) xs = dropMatch (closedKey T (rust fromStr)) xs := by
  apply dropMatch_congr
  intro ys hys
  unfold closedKey
  cases hafter : (afterComma T ys).bind afterQuote with
  | none => rfl
  | some zs =>
    have hne : zs ≠ ['\n'] := by
      rintro rfl
      exact h ⟨ys,hys,hafter⟩
    simp [python,rust,hne]

theorem repairTruncatedJson_eq {candidate : List Char}
    (h : ¬EndsInClosedKey T (truncated T candidate)) :
    repairTruncatedJson T (python loads) candidate =
      repairTruncatedJson T (rust fromStr) candidate := by
  unfold repairTruncatedJson
  rw [dropMatch_closedKey loads fromStr h]

variable {loads fromStr}

theorem parseJsonCandidate_eq {candidate : List Char}
    (h : CandidateAlike T loads fromStr candidate) :
    parseJsonCandidate T (python loads) candidate =
      parseJsonCandidate T (rust fromStr) candidate := by
  unfold parseJsonCandidate
  rw [h.1]
  cases hfirst : tryParse (rust fromStr) candidate with
  | some parsed => rfl
  | none =>
    obtain ⟨hkey,hrepaired⟩ := h.2 hfirst
    dsimp only
    rw [repairTruncatedJson_eq loads fromStr hkey]
    cases hrepair : repairTruncatedJson T (rust fromStr) candidate with
    | none => rfl
    | some repaired =>
      simp only [Option.bind_some,hrepaired repaired hrepair]

theorem findSome?_parseJsonCandidate {candidates : List (List Char)}
    (h : TriedAlike T loads fromStr candidates) :
    candidates.findSome? (parseJsonCandidate T (python loads)) =
      candidates.findSome? (parseJsonCandidate T (rust fromStr)) := by
  induction candidates with
  | nil => rfl
  | cons candidate candidates ih =>
    obtain ⟨halike,hrest⟩ := h
    simp only [List.findSome?_cons,parseJsonCandidate_eq halike]
    cases hparsed : parseJsonCandidate T (rust fromStr) candidate with
    | some parsed => rfl
    | none => exact ih (hrest hparsed)

/-- A word without an i is spelled alike. -/
theorem afterWord_eq {word : List Char} (h : 'i' ∉ word) :
    afterWord true word xs = afterWord false word xs := by
  induction word generalizing xs with
  | nil => rfl
  | cons c word ih =>
    have hc : c ≠ 'i' := fun he => h (he ▸ List.mem_cons_self)
    cases xs with
    | nil => rfl
    | cons x xs =>
      simp only [afterWord,sameLetter,hc,decide_false,Bool.and_false,Bool.false_and,Bool.or_false,
        ih (fun hmem => h (List.mem_cons_of_mem c hmem))]

/-- What is spelled plainly both languages find in the same place. -/
theorem afterWord_of_some {word rest : List Char} (h : afterWord false word xs = some rest) :
    afterWord true word xs = some rest := by
  induction word generalizing xs with
  | nil => exact h
  | cons c word ih =>
    cases xs with
    | nil => cases h
    | cons x xs =>
      simp only [afterWord,sameLetter,Bool.false_and,Bool.or_false] at h ⊢
      split at h
      · rename_i hsame
        simp only [hsame,Bool.true_or,if_true]
        exact ih h
      · cases h

variable (loads fromStr)

/-- Behind every key that the sidecar takes Python reads the same. -/
theorem afterKey_of_some {key : String} {ys : List Char}
    (h : afterKey T (rust fromStr) key xs = some ys) :
    afterKey T (python loads) key xs = some ys := by
  unfold afterKey at h ⊢
  split at h
  · rename_i zs
    split at h
    · rename_i rest hrust
      have hword : afterWord true key.toList zs = some ('"'::rest) := afterWord_of_some hrust
      simp only [python,hword]
      exact h
    · cases h
  · cases h

/-- Two searches find the same if what the one finds the other finds there too, and the first find
of the other is one of the one. -/
theorem findSome?_eq_of_first {α β : Type*} {f g : α → Option β} {as : List α}
    (h : ∀ a b, g a = some b → f a = some b)
    (hfirst : ∀ a ∈ as.find? (fun a => (f a).isSome), (g a).isSome) :
    as.findSome? f = as.findSome? g := by
  induction as with
  | nil => rfl
  | cons a as ih =>
    rw [List.findSome?_cons,List.findSome?_cons]
    cases hf : f a with
    | some b =>
      have hfound : (a::as).find? (fun a => (f a).isSome) = some a := by
        rw [List.find?_cons_of_pos (by rw [hf]; rfl)]
      obtain ⟨c,hc⟩ := Option.isSome_iff_exists.mp (hfirst a hfound)
      obtain rfl := Option.some.inj (hf.symm.trans (h a c hc))
      rw [hc]
    | none =>
      have hg : g a = none := by
        cases hg : g a with
        | none => rfl
        | some b => exact absurd (hf.symm.trans (h a b hg)) (Option.some_ne_none b).symm
      rw [hg]
      apply ih
      intro b hb
      apply hfirst b
      rwa [List.find?_cons_of_neg (by rw [hf]; exact Bool.false_ne_true)]

theorem searchField_eq {α : Type} {key : String} {content : List Char}
    {literal : List Char → Option α} (hplain : PlainFirst T loads fromStr key content literal) :
    searchField T (python loads) key content literal =
      searchField T (rust fromStr) key content literal := by
  have hsome : ∀ ys v, (afterKey T (rust fromStr) key ys).bind literal = some v →
      (afterKey T (python loads) key ys).bind literal = some v := by
    intro ys v hv
    obtain ⟨zs,hzs,hv⟩ := Option.bind_eq_some_iff.mp hv
    rw [afterKey_of_some loads fromStr hzs]
    exact hv
  apply findSome?_eq_of_first hsome
  intro ys hys
  obtain ⟨zs,hzs⟩ := Option.isSome_iff_exists.mp (hplain ys hys)
  have hfound := List.find?_some hys
  rw [afterKey_of_some loads fromStr hzs] at hfound
  rwa [hzs]

/-- A word without an i is spelled alike, so the literal of an integer is the same. -/
theorem intLiteral_eq : intLiteral (python loads) = intLiteral (rust fromStr) := by
  funext ys
  have hnull : afterWord true "null".toList ys = afterWord false "null".toList ys :=
    afterWord_eq (by decide)
  unfold intLiteral
  rw [show (python loads).anyDot = true from rfl,show (rust fromStr).anyDot = false from rfl,hnull]

theorem extractIntOrNull_eq {key : String} {content : List Char}
    (hkey : key ∈ ["refined_start_segment_seq","refined_end_segment_seq"])
    (h : SalvagedAlike T loads fromStr content) :
    extractIntOrNull T (python loads) key content =
      extractIntOrNull T (rust fromStr) key content := by
  have hnull : afterWord (python loads).anyDot "null".toList = afterWord false "null".toList :=
    funext fun ys => afterWord_eq (by decide)
  have hint := searchField_eq loads fromStr (h.intsPlain key hkey)
  have hread : (searchField T (rust fromStr) key content (intLiteral (rust fromStr))).bind
        (fun raw => raw.bind pyToInt) =
      (searchField T (rust fromStr) key content (intLiteral (rust fromStr))).bind
        (fun raw => raw.bind parseI64) := by
    apply Option.bind_congr
    intro raw hraw
    apply Option.bind_congr
    rintro digits rfl
    exact h.ints key hkey digits hraw
  have htoInt : (python loads).toInt = pyToInt ∧ (rust fromStr).toInt = parseI64 := ⟨rfl,rfl⟩
  unfold extractIntOrNull
  rw [intLiteral_eq loads fromStr,hint,htoInt.1,htoInt.2,hread]
  dsimp only
  split
  · rfl
  · rename_i hnone
    have hplain := h.nullsPlain key hkey hnone
    have hisNull : searchField T (python loads) key content
        (fun ys => afterWord (python loads).anyDot "null".toList ys) =
          searchField T (rust fromStr) key content (afterWord false "null".toList) := by
      rw [← searchField_eq loads fromStr hplain]
      exact congrArg _ hnull
    rw [hisNull]
    rfl

theorem extractString_eq {key : String} {content : List Char}
    (hkey : key ∈ ["refined_start_phrase","refined_end_phrase","start_adjustment_reason",
      "end_adjustment_reason"])
    (h : SalvagedAlike T loads fromStr content) :
    extractString T (python loads) key content = extractString T (rust fromStr) key content := by
  unfold extractString
  rw [searchField_eq loads fromStr (h.stringsPlain key hkey)]

theorem filterMap_fields_eq {f g : String → Option Value} {keys : List String}
    (h : ∀ key ∈ keys, f key = g key) :
    keys.filterMap (fun key => (f key).map (fun value => (key,value))) =
      keys.filterMap (fun key => (g key).map (fun value => (key,value))) := by
  apply List.filterMap_congr
  intro key hkey
  rw [h key hkey]

theorem parsePartialJsonFields_eq {content : List Char}
    (h : SalvagedAlike T loads fromStr content) :
    parsePartialJsonFields T (python loads) content =
      parsePartialJsonFields T (rust fromStr) content := by
  unfold parsePartialJsonFields
  dsimp only
  congr 1
  · apply filterMap_fields_eq
    intro key hkey
    exact extractIntOrNull_eq loads fromStr hkey h
  · apply filterMap_fields_eq
    intro key hkey
    exact extractString_eq loads fromStr hkey h

/-- Both refiners read the same object out of the reply, by the same way. -/
theorem parseJson_eq {content : String} (h : ReadAlike T loads fromStr content) :
    parseJson T (python loads) content = parseJson T (rust fromStr) content := by
  unfold parseJson
  rw [findSome?_parseJsonCandidate h.tried]
  cases hparsed : (jsonParseCandidates T content.toList).findSome?
      (parseJsonCandidate T (rust fromStr)) with
  | some parsed => rfl
  | none =>
    have hnone := List.findSome?_eq_none_iff.mp hparsed
    dsimp only
    rw [parsePartialJsonFields_eq loads fromStr (h.salvaged hnone)]

end Podly.WordBoundary
