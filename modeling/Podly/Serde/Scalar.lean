import Podly.Access.FeedTokens
import Podly.Numerals.Script
import Podly.Serde.Value
import Podly.Writer.ProcessedPaths

/-! Python's numbers, what `int` and `float` make of strings and of other objects, and Rust's whole
numbers of 64 bits. -/
namespace Serde
open Floats Numerals

/-- White space and digits as Python knows them. -/
def pythonScript : Script := ⟨Podly.Writer.isSpace,Podly.Access.digitValue⟩

/-- The float nearest to a whole number, which `float` refuses if it is too large. -/
def floatOfInt (n : ℤ) : Option Extended :=
  (Floats.ofRat n.natAbs).map (fun r => Extended.ofRat (if n < 0 then -r else r))

/-- A Python object; of one that is no number and no string it matters only what `str` says. -/
inductive Scalar
  | none
  | bool (b : Bool)
  | int (n : ℤ)
  | float (x : Extended)
  | str (text : List Char)
  | other (text : List Char)
deriving DecidableEq

namespace Scalar

/-- `float(value)`; it raises where nothing is given. -/
def toFloat : Scalar → Option Extended
  | bool b => some (Extended.ofRat (if b then 1 else 0))
  | int n => floatOfInt n
  | float x => some x
  | str text => pythonScript.float text
  | none | other _ => Option.none

/-- `int(value)`; it raises where nothing is given. -/
def toInt : Scalar → Option ℤ
  | bool b => some (if b then 1 else 0)
  | int n => some n
  | float x => x.toRat.map (fun q => q.num.tdiv q.den)
  | str text => pythonScript.int text
  | none | other _ => Option.none

/-- A parsed value of JSON as Python has it. -/
def ofValue : Value → Scalar
  | .null => none
  | .bool b => bool b
  | .int n => int n
  | .float q => float (Extended.ofRat q)
  | .str s => str s.toList
  | .array _ | .object _ => other []

end Scalar

/-- `str::parse` of a whole number of 64 bits. -/
def parseI64 (text : List Char) : Option ℤ := (integer text).filter (fun n => InI64 n)

/-- Whole numbers of 64 bits wrap around. -/
def wrapI64 (n : ℤ) : ℤ := n.bmod (2 ^ 64)

theorem parseI64_eq_some {text : List Char} {n : ℤ} :
    parseI64 text = some n ↔ integer text = some n ∧ InI64 n := by
  simp [parseI64,Option.filter_eq_some_iff]

theorem wrapI64_of_inI64 {n : ℤ} (h : InI64 n) : wrapI64 n = n := by
  obtain ⟨hlo,hhi⟩ := h
  exact Int.bmod_eq_of_le (by omega) (by omega)

end Serde
