import Podly.Lists.FilterMap
import Podly.Serde.Scalar
import Podly.WordBoundary.FromLlm

/-! The normalisers of word timestamps: the one of the Python writer, the one of the Rust writer and
the one of the sidecar. They are one reading with different conversions. -/
namespace Podly.WordTimestamps
open Floats Lists Numerals Serde WordBoundary

/-- A word as it is stored; a number that JSON does not have is null there. -/
structure Word where
  word : String
  start : Option Extended
  stop : Option Extended
  score : Option Extended
deriving DecidableEq

structure Segment where
  sequenceNum : ℤ
  words : List Word
deriving DecidableEq

/-- The conversions of a normaliser. A score that fails the whole call has no reading. -/
structure Reader where
  int : Value → Option ℤ
  text : Value → Option String
  float : Value → Option Extended
  /-- how a number is stored -/
  number : Extended → Option Extended
  score : Value → Option (Option Extended)

namespace Reader
variable (R : Reader)

/-- One entry of the words of a segment. -/
def readWord (value : Value) : Option (Option Word) :=
  match value.get "word", value.get "start", value.get "end" with
  | some rawWord, some rawStart, some rawEnd =>
    match R.text rawWord, R.float rawStart, R.float rawEnd with
    | some word, some start, some stop =>
      if stop < start then some none
      else (R.score ((value.get "score").getD .null)).map
        (fun score => some ⟨word,R.number start,R.number stop,score⟩)
    | _, _, _ => some none
  | _, _, _ => some none

/-- One entry of the payload. -/
def readSegment (value : Value) : Option (Option Segment) :=
  match value.get "sequence_num", value.get "words" with
  | some sequence, some (.array words) =>
    match R.int sequence with
    | none => some none
    | some sequence => (readAll R.readWord words).map
        (fun words => if words = [] then none else some ⟨sequence,words⟩)
  | _, _ => some none

/-- The whole payload; nothing where the call fails. -/
def normalize : Value → Option (List Segment)
  | .array segments => readAll R.readSegment segments
  | _ => some []

end Reader

/-- What the standard libraries write for a value that is no string: `str` in Python, and the text of
JSON in Rust. -/
structure Texts where
  repr : Value → String
  display : Value → String

variable (T : Texts)

/-- `_normalize_transcript_word_timestamps_payload`. -/
def pythonReader : Reader where
  int value := (Scalar.ofValue value).toInt
  text
    | .null => none
    | .str s => some s
    | value => some (T.repr value)
  float value := (Scalar.ofValue value).toFloat
  number x := some x
  score
    | .null => some none
    | value => (Scalar.ofValue value).toFloat.map some

/-- A number as serde_json writes a float. -/
def jsonNumber (x : Extended) : Option Extended := x.toRat.map Extended.ofRat

/-- `Value::as_f64`, rounded. -/
def asF64 : Value → Option Extended
  | .int n => floatOfInt n
  | .float q => some (Extended.ofRat q)
  | _ => none

/-- `str::trim`. -/
def trim (text : String) : List Char := Strings.trimmed isWhitespace text.toList

/-- `py_int`. -/
def pyInt : Value → Option ℤ
  | .bool b => some (if b then 1 else 0)
  | .str s => Serde.parseI64 (trim s)
  | value => value.asI64 <|> value.asF64.map floatAsI64

/-- `py_float`. -/
def pyFloat : Value → Option Extended
  | .bool b => some (Extended.ofRat (if b then 1 else 0))
  | .str s => decimal (trim s)
  | value => asF64 value

/-- `py_string`. -/
def pyString : Value → String
  | .null => "None"
  | .bool true => "True"
  | .bool false => "False"
  | .str s => s
  | value => T.display value

/-- `normalize_word_timestamps` of the Rust writer. -/
def rustReader : Reader where
  int := pyInt
  text value := some (pyString T value)
  float := pyFloat
  number := jsonNumber
  score
    | .null => some none
    | value => (pyFloat value).map jsonNumber

/-- `value_to_i64`. -/
def valueToI64 : Value → Option ℤ
  | .str s => Serde.parseI64 s.toList
  | value => value.asI64

/-- `value_to_f64`. -/
def valueToF64 : Value → Option Extended
  | .str s => decimal s.toList
  | value => asF64 value

/-- `value_to_string`. -/
def valueToString : Value → Option String
  | .str s => some s
  | .int n => some (T.display (.int n))
  | .float q => some (T.display (.float q))
  | .bool b => some (if b then "true" else "false")
  | _ => none

/-- `normalize_word_timestamps` of the sidecar, of a payload that it has read. -/
def sidecarReader : Reader where
  int := valueToI64
  text := valueToString T
  float := valueToF64
  number := jsonNumber
  score value := some ((valueToF64 value).bind jsonNumber)

end Podly.WordTimestamps
