import Mathlib.Data.List.DropRight
import Podly.Classifier.Identify
import Podly.Json.Cut
import Podly.Json.Dumps
import Podly.Writer.ProcessedPaths

/-! `podcast_processor/model_output.py`: the predictions that a reply of the model is read as. -/
namespace Podly.ModelOutput
open Json Writer
open Classifier (ContentType)

/-- `AdSegmentPrediction`. -/
structure AdSegmentPrediction (F : Type) where
  segmentOffset : F
  confidence : F
deriving DecidableEq

/-- `AdSegmentPredictionList`. -/
structure AdSegmentPredictionList (F : Type) where
  adSegments : List (AdSegmentPrediction F)
  contentType : Option ContentType
  confidence : Option F
deriving DecidableEq

/-- What `json` and `pydantic` bring: how scalars and strings are read and written, which of the scalars
and strings are floats, which scalar is null, the values that `json.loads` reads, which refuses
integers with too many digits, and how deep the values are nested at most that `pydantic` reads. -/
structure Library (S F : Type) where
  reader : Reader S
  printer : Printer reader
  float : S → Option F
  floatOfText : String → Option F
  isNull : S → Bool
  loadable : Value S → Bool
  recursionLimit : ℕ

variable {S F : Type} (L : Library S F)

/-! The schema -/

/-- The values of a key, in the order of the text. -/
def valuesOf (key : String) (fields : List (String × Value S)) : List (Value S) :=
  (fields.filter (fun field => field.1 = key)).map Prod.snd

/-- The value of a key: of several the last one counts. -/
def valueOf (key : String) (fields : List (String × Value S)) : Option (Value S) :=
  (valuesOf key fields).getLast?

namespace Library

def number : Value S → Option F
  | .scalar x => L.float x
  | .text s => L.floatOfText s
  | _ => none

def segmentOf : Value S → Option (AdSegmentPrediction F)
  | .object fields => do
    let segmentOffset ← (valueOf "segment_offset" fields).bind L.number
    let confidence ← (valueOf "confidence" fields).bind L.number
    some ⟨segmentOffset,confidence⟩
  | _ => none

def segmentsOf : Value S → Option (List (AdSegmentPrediction F))
  | .array items => items.mapM L.segmentOf
  | _ => none

def literal (s : String) : Option ContentType :=
  if s = "technical_discussion" then some .technicalDiscussion
  else if s = "educational/self_promo" then some .educationalSelfPromo
  else if s = "promotional_external" then some .promotionalExternal
  else if s = "transition" then some .transition
  else none

def contentTypeOf : Option (Value S) → Option (Option ContentType)
  | none => some none
  | some (.scalar x) => if L.isNull x then some none else none
  | some (.text s) => (literal s).map some
  | some _ => none

def confidenceOf : Option (Value S) → Option (Option F)
  | none => some none
  | some (.scalar x) => if L.isNull x then some none else (L.float x).map some
  | some v => (L.number v).map some

/-- The predictions with some segments. -/
def withSegments (fields : List (String × Value S)) (adSegments : List (AdSegmentPrediction F)) :
    Option (AdSegmentPredictionList F) := do
  let contentType ← L.contentTypeOf (valueOf "content_type" fields)
  let confidence ← L.confidenceOf (valueOf "confidence" fields)
  some ⟨adSegments,contentType,confidence⟩

def predictions (fields : List (String × Value S)) : Option (AdSegmentPredictionList F) := do
  let adSegments ← (valueOf "ad_segments" fields).bind L.segmentsOf
  L.withSegments fields adSegments

def validate : Value S → Option (AdSegmentPredictionList F)
  | .object fields => L.predictions fields
  | _ => none

/-- `AdSegmentPredictionList.model_validate_json`. -/
def modelValidateJson (text : List Char) : Option (AdSegmentPredictionList F) :=
  ((parse L.reader text).filter (fun v => depth v ≤ L.recursionLimit)).bind L.validate

/-- `json.loads`. -/
def loads (text : List Char) : Option (Value S) := (parse L.reader text).filter L.loadable

end Library

/-! The end of the object -/

/-- What `_truncate_after_balanced_root` counts. -/
structure Scan where
  depth : ℤ
  inString : Bool
  escape : Bool

def Scan.next (scan : Scan) (ch : Char) : Scan :=
  if scan.escape then { scan with escape := false }
  else if scan.inString then
    if ch = '\\' then { scan with escape := true }
    else if ch = '"' then { scan with inString := false }
    else scan
  else if ch = '"' then { scan with inString := true }
  else if ch = '\x7b' then { scan with depth := scan.depth + 1 }
  else if ch = '\x7d' then { scan with depth := scan.depth - 1 }
  else scan

/-- A closing brace outside of strings, behind which the depth is zero. -/
def Scan.ends (scan : Scan) (ch : Char) : Bool :=
  !scan.escape && !scan.inString && ch = '\x7d' && scan.depth - 1 = 0

/-- The text up to the brace that brings the depth to zero, if one does. -/
def Scan.root : Scan → List Char → Option (List Char)
  | _, [] => none
  | scan, ch::text =>
    if scan.ends ch then some [ch] else ((scan.next ch).root text).map (ch::·)

/-- `_truncate_after_balanced_root`. -/
def truncateAfterBalancedRoot (text : List Char) : List Char :=
  ((⟨0,false,false⟩ : Scan).root text).getD text

/-! Repeated keys -/

/-- Skip a number of characters, then count the occurrences without overlaps. -/
def countFrom (pattern : List Char) : ℕ → List Char → ℕ
  | _, [] => 0
  | skip + 1, _::text => countFrom pattern skip text
  | 0, c::text =>
    if pattern <+: c::text then countFrom pattern (pattern.length - 1) text + 1
    else countFrom pattern 0 text

/-- `str.count`. -/
def count (pattern text : List Char) : ℕ := countFrom pattern 0 text

/-- `result[key] = value` for a dictionary in the order of its keys. -/
def assign (key : String) (value : Value S) (result : List (String × Value S)) :
    List (String × Value S) :=
  if key ∈ result.map Prod.fst then
    result.map (fun field => if field.1 = key then (key,value) else field)
  else result ++ [(key,value)]

/-- One pair of `_merge_pairs`. -/
def mergePair (result : List (String × Value S)) (pair : String × Value S) :
    List (String × Value S) :=
  if pair.1 = "ad_segments" then
    match valueOf pair.1 result, pair.2 with
    | some (.array old), .array new => assign pair.1 (.array (old ++ new)) result
    | _, value => assign pair.1 value result
  else assign pair.1 pair.2 result

def mergePairs (pairs : List (String × Value S)) : List (String × Value S) :=
  pairs.foldl mergePair []

mutual

/-- `_merge_pairs` at every object. -/
def mergeAll : Value S → Value S
  | .scalar x => .scalar x
  | .text s => .text s
  | .array items => .array (mergeItems items)
  | .object fields => .object (mergePairs (mergeFields fields))

def mergeItems : List (Value S) → List (Value S)
  | [] => []
  | v::items => mergeAll v::mergeItems items

def mergeFields : List (String × Value S) → List (String × Value S)
  | [] => []
  | (key,v)::fields => (key,mergeAll v)::mergeFields fields

end

/-- `"ad_segments"` with its quotes. -/
def adSegmentsKey : List Char := "\"ad_segments\"".toList

/-- `_merge_duplicate_ad_segments`. -/
def mergeDuplicateAdSegments (text : List Char) : List Char :=
  if count adSegmentsKey text ≤ 1 then text
  else
    match L.loads text with
    | some merged => dumps L.printer (mergeAll merged)
    | none => text

/-! The repair -/

/-- The text behind `,"[^"]*":` where that matches. -/
def afterKey : List Char → Option (List Char)
  | ',' :: '"' :: text =>
    match text.dropWhile (· ≠ '"') with
    | '"' :: ':' :: rest => some rest
    | _ => none
  | _ => none

/-- `,"[^"]*":\s*$` -/
def endsBehindKey (text : List Char) : Bool :=
  match afterKey text with
  | some rest => rest.all Writer.isSpace
  | none => false

/-- `,"[^"]*":\s*"[^"]*$` -/
def endsInValue (text : List Char) : Bool :=
  match afterKey text with
  | some rest =>
    match rest.dropWhile Writer.isSpace with
    | '"'::value => value.all (· ≠ '"')
    | _ => false
  | none => false

/-- The text before the first match of a pattern. -/
def beforeMatch (pattern : List Char → Bool) : List Char → Option (List Char)
  | [] => none
  | c::text => if pattern (c::text) then some [] else (beforeMatch pattern text).map (c::·)

/-- What closes the brackets and braces that are opened more often than closed. -/
def closersFor (text : List Char) : List Char :=
  closers (text.count '[' - text.count ']') (text.count '\x7b' - text.count '\x7d')

/-- `_attempt_json_repair`. -/
def attemptJsonRepair (text : List Char) : List Char :=
  if text.count '\x7b' = text.count '\x7d' ∧ text.count '[' = text.count ']' then text
  else
    let repaired := (text.rdropWhile Writer.isSpace).rdropWhile (· = ',')
    let repaired := (beforeMatch endsBehindKey repaired <|> beforeMatch endsInValue repaired).getD repaired
    repaired ++ closersFor repaired

/-! The reply -/

/-- The part of `clean_and_parse_model_output` that cleans the text from the first brace on. -/
def clean (text : List Char) : List Char :=
  strip (((truncateAfterBalancedRoot text).map (fun c => if c = '\x27' then '"' else c)).filter
    (· ≠ '\n'))

/-- `clean_and_parse_model_output`, which raises where it gives nothing. -/
def cleanAndParseModelOutput (modelOutput : List Char) : Option (AdSegmentPredictionList F) :=
  if modelOutput.count '\x7b' ≥ 1 then
    let text := mergeDuplicateAdSegments L (clean (modelOutput.dropWhile (· ≠ '\x7b')))
    L.modelValidateJson text <|> L.modelValidateJson (attemptJsonRepair text)
  else none

end Podly.ModelOutput
