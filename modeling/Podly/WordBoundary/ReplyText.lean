import Podly.Access.FeedTokens
import Podly.Feeds.XmlText
import Podly.Serde.Value

/-! How both refiners read the reply of the model: the texts that are tried as JSON, what is
repaired, and the fields that are salvaged where nothing parses. The two programs are the same but
for what their languages bring. -/
namespace Podly.WordBoundary
open Serde Strings Feeds

/-- What the languages bring to the reading of a reply: a JSON parser, numerals, and the two points
where their regular expressions differ. -/
structure Language where
  parse : String → Option Value
  toInt : List Char → Option ℤ
  /-- whether `$` also holds in front of a newline that ends the text -/
  newlineEnd : Bool
  /-- whether an i in any case may have a dot above or lack its dot -/
  anyDot : Bool

/-- `int` of a match of `-?\d+`, which refuses more than 4300 digits. -/
def pyToInt (raw : List Char) : Option ℤ :=
  if 4300 < (raw.filter (· ≠ '-')).length then none else Access.pyInt raw

/-- `parse::<i64>`. -/
def parseI64 (raw : List Char) : Option ℤ :=
  if (raw.filter (· ≠ '-')).all Char.isDigit then
    (Access.pyInt raw).filter (fun n => decide (InI64 n))
  else none

def python (loads : String → Option Value) : Language := ⟨loads,pyToInt,true,true⟩

def rust (fromStr : String → Option Value) : Language := ⟨fromStr,parseI64,false,false⟩

/-! Code fences -/

def fence : List Char := ['`','`','`']

def sameLetter (anyDot : Bool) (c x : Char) : Bool :=
  matchesAnyCase c x || (anyDot && c = 'i' && (x = 'İ' || x = 'ı'))

/-- The rest behind a word, in any case. -/
def afterWord (anyDot : Bool) : List Char → List Char → Option (List Char)
  | [], xs => some xs
  | _::_, [] => none
  | c::word, x::xs => if sameLetter anyDot c x then afterWord anyDot word xs else none

/-- The length of the fence a text begins with, with the language behind it. -/
def fenceLength (xs : List Char) : ℕ :=
  match after fence xs with
  | none => 0
  | some ys => if (afterWord false "json".toList ys).isSome then 7 else 3

/-- Skip a number of characters, and drop the fences of the rest. -/
def dropFencesFrom : ℕ → List Char → List Char
  | _, [] => []
  | n+1, _::xs => dropFencesFrom n xs
  | 0, x::xs =>
    match fenceLength (x::xs) with
    | 0 => x::dropFencesFrom 0 xs
    | n+1 => dropFencesFrom n xs

/-- `wb_strip_code_fences`. -/
def dropFences (xs : List Char) : List Char := dropFencesFrom 0 xs

/-- The text in front of the next fence. -/
def untilFence : List Char → Option (List Char)
  | [] => none
  | x::xs => if fence <+: x::xs then some [] else (untilFence xs).map (x::·)

variable (T : Text) (L : Language)

/-- Skip a number of characters; then what stands between the fences of the rest, without the white
space in front. -/
def fencedBlocksFrom : ℕ → List Char → List (List Char)
  | _, [] => []
  | n+1, _::xs => fencedBlocksFrom n xs
  | 0, x::xs =>
    match fenceLength (x::xs) with
    | 0 => fencedBlocksFrom 0 xs
    | n+1 =>
      let body := (xs.drop n).dropWhile T.isSpace
      match untilFence body with
      | none => fencedBlocksFrom 0 xs
      | some block => block::fencedBlocksFrom (xs.length - body.length + block.length + 3) xs

/-! Objects in a text -/

/-- Where the scanner of objects is: how deep, where the open object begins, and in a string or
not. -/
structure Scan where
  depth : ℕ
  startIdx : Option ℕ
  inString : Bool
  escaped : Bool
  objects : List (List Char)

/-- One character of `_extract_json_objects`. The sidecar scans bytes, but those of other characters
are none of the ones it looks for. -/
def scanChar (text : List Char) (s : Scan) (charAt : Char × ℕ) : Scan :=
  if s.inString then
    if s.escaped then { s with escaped := false }
    else if charAt.1 = '\\' then { s with escaped := true }
    else if charAt.1 = '"' then { s with inString := false }
    else s
  else if charAt.1 = '"' then { s with inString := true }
  else if charAt.1 = '\x7b' then
    { s with
      startIdx := if s.depth = 0 then some charAt.2 else s.startIdx
      depth := s.depth + 1 }
  else if charAt.1 ≠ '\x7d' ∨ s.depth = 0 then s
  else
    match s.depth - 1, s.startIdx with
    | 0, some start =>
      { s with
        depth := 0
        startIdx := none
        objects := s.objects ++ [(text.drop start).take (charAt.2 + 1 - start)] }
    | depth, _ => { s with depth }

/-- `_extract_json_objects`, `wb_extract_json_objects`. -/
def extractJsonObjects (text : List Char) : List (List Char) :=
  (text.zipIdx.foldl (scanChar text) ⟨0,none,false,false,[]⟩).objects

/-! The texts that are tried -/

/-- `str.strip`, `str::trim`. -/
def strip (xs : List Char) : List Char :=
  ((xs.dropWhile T.isSpace).reverse.dropWhile T.isSpace).reverse

/-- `_dedupe_preserve_order`, `wb_dedupe_preserve_order`. -/
def dedupe (values : List (List Char)) : List (List Char) :=
  values.foldl (fun deduped value =>
    if strip T value = [] ∨ deduped.contains (strip T value) then deduped
    else deduped ++ [strip T value]) []

/-- `_json_parse_candidates`, `wb_json_parse_candidates`. -/
def jsonParseCandidates (content : List Char) : List (List Char) :=
  let text := strip T content
  if text = [] then []
  else
    let blocks := ((fencedBlocksFrom T 0 text).map (strip T)).filter (· ≠ [])
    let unfenced := [strip T (dropFences text)].filter (· ≠ [])
    dedupe T ((text::(blocks ++ unfenced)).flatMap (fun c => c::extractJsonObjects c))

/-! The repair of a truncated text -/

/-- Drop the first end of the text that matches, but for what the match leaves. -/
def dropMatch (rest : List Char → Option (List Char)) : List Char → List Char
  | [] => []
  | x::xs =>
    match rest (x::xs) with
    | some ys => ys
    | none => x::dropMatch rest xs

/-- Behind a comma, white space and a quote. -/
def afterComma : List Char → Option (List Char)
  | ','::xs =>
    match xs.dropWhile T.isSpace with
    | '"'::ys => some ys
    | _ => none
  | _ => none

/-- Behind the next quote. -/
def afterQuote (xs : List Char) : Option (List Char) :=
  match xs.dropWhile (· ≠ '"') with
  | _::ys => some ys
  | [] => none

/-- Behind a colon, with white space on both sides. -/
def afterColon (xs : List Char) : Option (List Char) :=
  match xs.dropWhile T.isSpace with
  | ':'::ys => some (ys.dropWhile T.isSpace)
  | _ => none

/-- `,\s*"[^"]*$`. -/
def openKey (xs : List Char) : Option (List Char) :=
  (afterComma T xs).bind (fun ys => if '"' ∈ ys then none else some [])

/-- `,\s*"[^"]*"$`. -/
def closedKey (xs : List Char) : Option (List Char) :=
  ((afterComma T xs).bind afterQuote).bind (fun ys =>
    if ys = [] ∨ (L.newlineEnd ∧ ys = ['\n']) then some ys else none)

/-- `,\s*"[^"]*"\s*:\s*$`. -/
def noValue (xs : List Char) : Option (List Char) :=
  (((afterComma T xs).bind afterQuote).bind (afterColon T)).bind (fun ys =>
    if ys = [] then some [] else none)

/-- `,\s*"[^"]*"\s*:\s*"[^"]*$`. -/
def openValue (xs : List Char) : Option (List Char) :=
  (((afterComma T xs).bind afterQuote).bind (afterColon T)).bind (fun ys =>
    match ys with
    | '"'::zs => if '"' ∈ zs then none else some []
    | _ => none)

/-- The text from its first brace, without fences and the commas at its end, and without a key that
lacks its second quote. -/
def truncated (candidate : List Char) : List Char :=
  let body := strip T (dropFences ((strip T candidate).dropWhile (· ≠ '\x7b')))
  dropMatch (openKey T) (body.reverse.dropWhile (· = ',')).reverse

/-- Close what is still open, by one kind of brackets. -/
def closeOpen (left right : Char) (xs : List Char) : List Char :=
  xs ++ List.replicate (xs.count left - xs.count right) right

/-- `_repair_truncated_json`, `wb_repair_truncated_json`. -/
def repairTruncatedJson (candidate : List Char) : Option (List Char) :=
  if '\x7b' ∈ strip T candidate then
    let body := dropMatch (openValue T) (dropMatch (noValue T)
      (dropMatch (closedKey T L) (truncated T candidate)))
    let repaired := closeOpen '\x7b' '\x7d' (closeOpen '[' ']' body)
    if repaired = [] then none else some repaired
  else none

/-! Fields of a text that does not parse -/

/-- Behind a key in quotes and its colon. -/
def afterKey (key : String) : List Char → Option (List Char)
  | '"'::xs =>
    match afterWord L.anyDot key.toList xs with
    | some ('"'::ys) => afterColon T ys
    | _ => none
  | _ => none

/-- `null|-?\d+`: nothing for null. -/
def intLiteral (xs : List Char) : Option (Option (List Char)) :=
  let sign := match xs with
    | '-'::_ => ['-']
    | _ => []
  let digits := (xs.drop sign.length).takeWhile (fun c => (Access.digitValue c).isSome)
  if (afterWord L.anyDot "null".toList xs).isSome then some none
  else if digits = [] then none
  else some (some (sign ++ digits))

/-- `"([^"]*)"`. -/
def stringLiteral : List Char → Option (List Char)
  | '"'::xs => if '"' ∈ xs then some (xs.takeWhile (· ≠ '"')) else none
  | _ => none

/-- `re.search` behind a key: the first place where the rest matches. -/
def searchField {α : Type} (key : String) (content : List Char)
    (literal : List Char → Option α) : Option α :=
  content.tails.findSome? (fun xs => (afterKey T L key xs).bind literal)

/-- `_extract_int_or_null`, and whether the field is there. -/
def extractIntOrNull (key : String) (content : List Char) : Option Value :=
  let isNull := searchField T L key content (fun xs => afterWord L.anyDot "null".toList xs)
  match (searchField T L key content (intLiteral L)).bind (fun raw => raw.bind L.toInt) with
  | some n => some (.int n)
  | none => if isNull.isSome then some .null else none

/-- `_extract_string`. -/
def extractString (key : String) (content : List Char) : Option Value :=
  (searchField T L key content stringLiteral).bind (fun raw =>
    if strip T raw = [] then none else some (.str (String.ofList (strip T raw))))

/-- `_parse_partial_json_fields`, `wb_parse_partial_json_fields`. -/
def parsePartialJsonFields (content : List Char) : List (String × Value) :=
  let ints := ["refined_start_segment_seq","refined_end_segment_seq"].filterMap
    (fun key => (extractIntOrNull T L key content).map (fun value => (key,value)))
  let strings := ["refined_start_phrase","refined_end_phrase","start_adjustment_reason",
    "end_adjustment_reason"].filterMap
    (fun key => (extractString T L key content).map (fun value => (key,value)))
  ints ++ strings

/-! The parse -/

/-- The value, if it is an object. -/
def asObject : Value → Option Value
  | .object fields => some (.object fields)
  | _ => none

/-- One of the attempts of `_parse_json_candidate`. -/
def tryParse (attempt : List Char) : Option Value :=
  (L.parse (String.ofList attempt)).bind asObject

/-- `_parse_json_candidate`, `wb_parse_json_candidate`. -/
def parseJsonCandidate (candidate : List Char) : Option Value :=
  match tryParse L candidate with
  | some parsed => some parsed
  | none => (repairTruncatedJson T L candidate).bind (fun repaired =>
      if repaired = candidate then none else tryParse L repaired)

/-- `_parse_json`, `wb_parse_json_full`: the object, and whether it was salvaged. -/
def parseJson (content : String) : Option Value × Bool :=
  match (jsonParseCandidates T content.toList).findSome? (parseJsonCandidate T L) with
  | some parsed => (some parsed,false)
  | none =>
    match parsePartialJsonFields T L content.toList with
    | [] => (none,false)
    | fields => (some (.object fields),true)

end Podly.WordBoundary
