import Mathlib.Data.Rat.Defs
import Mathlib.Data.Rat.Cast.CharZero

/-! JSON values as a parser leaves them, with their accessors. -/
namespace Serde

/-- A parsed JSON value. Integer literals that fit neither 64-bit type are floats. -/
inductive Value
  | null
  | bool (b : Bool)
  | int (n : ℤ)
  | float (q : ℚ)
  | str (s : String)
  | array (items : List Value)
  | object (fields : List (String × Value))

/-- The range of a 64-bit signed integer. -/
def InI64 (n : ℤ) : Prop := -9223372036854775808 ≤ n ∧ n ≤ 9223372036854775807

instance (n : ℤ) : Decidable (InI64 n) := inferInstanceAs (Decidable (_ ∧ _))

namespace Value

/-- The fields of an object under one key, in the order of the text. -/
def fieldsAt (fields : List (String × Value)) (key : String) : List Value :=
  (fields.filter (fun f => f.1 = key)).map Prod.snd

/-- `Value::get`; of several fields under one key the last one counts. -/
def get (key : String) : Value → Option Value
  | object fields => (fieldsAt fields key).getLast?
  | _ => none

/-- `Value::as_i64`. -/
def asI64 : Value → Option ℤ
  | int n => if InI64 n then some n else none
  | _ => none

/-- `Value::as_f64`. -/
def asF64 : Value → Option ℚ
  | int n => some n
  | float q => some q
  | _ => none

/-- `Value::as_str`. -/
def asStr : Value → Option String
  | str s => some s
  | _ => none

theorem asI64_int {n : ℤ} (h : InI64 n) : (int n).asI64 = some n := if_pos h

end Value

end Serde
