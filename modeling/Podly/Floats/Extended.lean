import Mathlib.Algebra.Order.Field.Rat
import Mathlib.Order.WithBot

/-! Floats with infinities and the value that is no number, which compares to nothing. -/
namespace Floats

/-- A float: no number, or a number or an infinity. -/
inductive Extended
  | nan
  | number (x : WithBot (WithTop ℚ))
deriving DecidableEq

namespace Extended

def ofRat (q : ℚ) : Extended := number ((q : WithTop ℚ) : WithBot (WithTop ℚ))

/-- The number that a float is, if it is finite. -/
def toRat : Extended → Option ℚ
  | number (some (some q)) => some q
  | _ => none

instance : LT Extended where
  lt
    | number x, number y => x < y
    | _, _ => False

instance : LE Extended where
  le
    | number x, number y => x ≤ y
    | _, _ => False

instance (a b : Extended) : Decidable (a < b) :=
  match a, b with
  | number x, number y => inferInstanceAs (Decidable (x < y))
  | nan, _ => isFalse id
  | number _, nan => isFalse id

instance (a b : Extended) : Decidable (a ≤ b) :=
  match a, b with
  | number x, number y => inferInstanceAs (Decidable (x ≤ y))
  | nan, _ => isFalse id
  | number _, nan => isFalse id

/-- `max` of two floats: the second one only where it is larger. -/
def pyMax (a b : Extended) : Extended := if a < b then b else a

/-- `min` of two floats: the second one only where it is smaller. -/
def pyMin (a b : Extended) : Extended := if b < a then b else a

variable {x y : WithBot (WithTop ℚ)} {p q : ℚ} {a : Extended}

@[simp] theorem number_lt : number x < number y ↔ x < y := Iff.rfl

@[simp] theorem number_le : number x ≤ number y ↔ x ≤ y := Iff.rfl

@[simp] theorem not_nan_lt : ¬nan < a := id

@[simp] theorem not_lt_nan : ¬a < nan := by cases a <;> exact id

@[simp] theorem not_nan_le : ¬nan ≤ a := id

@[simp] theorem not_le_nan : ¬a ≤ nan := by cases a <;> exact id

@[simp] theorem toRat_ofRat : (ofRat q).toRat = some q := rfl

theorem toRat_eq_some : a.toRat = some q ↔ a = ofRat q := by
  constructor
  · intro h
    unfold toRat at h
    split at h
    · cases h
      rfl
    · cases h
  · rintro rfl
    rfl

theorem ofRat_le : ofRat p ≤ ofRat q ↔ p ≤ q := WithBot.coe_le_coe.trans WithTop.coe_le_coe

theorem ofRat_lt : ofRat p < ofRat q ↔ p < q := WithBot.coe_lt_coe.trans WithTop.coe_lt_coe

@[simp] theorem ofRat_inj : ofRat p = ofRat q ↔ p = q := by simp [ofRat]

@[simp] theorem ofRat_ne_nan : ofRat p ≠ nan := nofun

@[simp] theorem pyMax_nan : pyMax nan a = nan := if_neg id

@[simp] theorem pyMin_nan : pyMin nan a = nan := if_neg not_lt_nan

theorem pyMax_number : pyMax (number x) (number y) = number (max x y) := by
  rw [pyMax,max_def_lt]
  split_ifs with h h' h'
  · rfl
  · exact absurd h h'
  · exact absurd h' h
  · rfl

theorem pyMin_number : pyMin (number x) (number y) = number (min x y) := by
  rw [pyMin,min_def_lt]
  split_ifs with h h' h'
  · exact absurd h (lt_asymm h')
  · rfl
  · rfl
  · exact congrArg number (le_antisymm (not_lt.mp h) (not_lt.mp h'))

/-- What lies between two numbers is one. -/
theorem exists_ofRat (hp : ((p : WithTop ℚ) : WithBot (WithTop ℚ)) ≤ x)
    (hq : x < ((q : WithTop ℚ) : WithBot (WithTop ℚ))) : ∃ r : ℚ, number x = ofRat r := by
  induction x using WithBot.recBotCoe with
  | bot => exact absurd hp (not_le.mpr (WithBot.bot_lt_coe _))
  | coe x =>
    induction x using WithTop.recTopCoe with
    | top => exact absurd (WithBot.coe_lt_coe.mp hq) not_top_lt
    | coe r => exact ⟨r,rfl⟩

end Extended
end Floats
