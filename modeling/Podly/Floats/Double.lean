import Mathlib.Algebra.Order.Field.Power
import Mathlib.Algebra.Order.Floor.Ring
import Mathlib.Data.Int.Log
import Mathlib.Data.Rat.Floor
import Mathlib.Tactic.Linarith
import Mathlib.Tactic.NormNum
import Mathlib.Tactic.Positivity

/-! Double precision on non-negative rationals: the nearest double, which is none where the value is
too large for one, and how far it is from the value. -/
namespace Floats

/-- The nearest integer, the even one of two. -/
def roundHalfEven (q : ℚ) : ℤ :=
  let rest := q - q.floor
  if rest < 1 / 2 then q.floor
  else if 1 / 2 < rest then q.floor + 1
  else if q.floor % 2 = 0 then q.floor else q.floor + 1

/-- The exponent of the spacing of doubles around a value: 53 bits, or the subnormal spacing. -/
def spacing (q : ℚ) : ℤ := max (Int.log 2 q - 52) (-1074)

/-- Values from here on round to a power of two that no double holds. -/
def InRange (q : ℚ) : Prop := q < 2 ^ 1024 - 2 ^ 970

instance (q : ℚ) : Decidable (InRange q) := inferInstanceAs (Decidable (_ < _))

/-- The nearest double. -/
def ofRat (q : ℚ) : Option ℚ :=
  if InRange q then some (roundHalfEven (q / 2 ^ spacing q) * 2 ^ spacing q) else none

theorem ofRat_isSome_iff {q : ℚ} : (ofRat q).isSome ↔ InRange q := by
  unfold ofRat
  split <;> simp [*]

@[simp] theorem roundHalfEven_intCast (n : ℤ) : roundHalfEven n = n := by
  have hfloor : (n : ℚ).floor = n := Rat.floor_intCast n
  have hlt : (0 : ℚ) < 1 / 2 := by norm_num
  simp only [roundHalfEven,hfloor,sub_self]
  rw [if_pos hlt]

theorem abs_roundHalfEven_sub_le (q : ℚ) : |(roundHalfEven q : ℚ) - q| ≤ 1 / 2 := by
  have hle : (q.floor : ℚ) ≤ q := Int.floor_le q
  have hlt : q < q.floor + 1 := Int.lt_floor_add_one q
  have hdown : q - q.floor ≤ 1 / 2 → |(q.floor : ℚ) - q| ≤ 1 / 2 := by
    intro h
    rw [abs_sub_comm,abs_of_nonneg (by linarith)]
    exact h
  have hup : 1 / 2 ≤ q - q.floor → |((q.floor + 1 : ℤ) : ℚ) - q| ≤ 1 / 2 := by
    intro h
    push_cast
    rw [abs_of_nonneg (by linarith)]
    linarith
  rw [roundHalfEven]
  split_ifs with h h' heven
  · exact hdown h.le
  · exact hup h'.le
  · exact hdown (not_lt.mp h')
  · exact hup (not_lt.mp h)

theorem roundHalfEven_nonneg {q : ℚ} (h : 0 ≤ q) : 0 ≤ roundHalfEven q := by
  have hfloor : 0 ≤ q.floor := Int.floor_nonneg.mpr h
  rw [roundHalfEven]
  split_ifs
  all_goals omega

theorem ofRat_eq_some {q r : ℚ} : ofRat q = some r ↔
    InRange q ∧ roundHalfEven (q / 2 ^ spacing q) * 2 ^ spacing q = r := by
  unfold ofRat
  split <;> simp [*]

theorem ofRat_nonneg {q r : ℚ} (hq : 0 ≤ q) (h : ofRat q = some r) : 0 ≤ r := by
  obtain ⟨-,rfl⟩ := ofRat_eq_some.mp h
  have hround : (0 : ℚ) ≤ roundHalfEven (q / 2 ^ spacing q) := by
    exact_mod_cast roundHalfEven_nonneg (by positivity)
  positivity

/-- From one on, the nearest double is off by less than one part in 2 ^ 52. -/
theorem ofRat_near {q r : ℚ} (hq : 1 ≤ q) (h : ofRat q = some r) : |r - q| ≤ q / 2 ^ 53 := by
  obtain ⟨-,rfl⟩ := ofRat_eq_some.mp h
  have hlog : 0 ≤ Int.log 2 q := by
    rw [← Int.log_one_right (R := ℚ) 2]
    exact Int.log_mono_right (by norm_num) hq
  have hspacing : spacing q = Int.log 2 q - 52 := max_eq_left (by omega)
  have hpos : (0 : ℚ) < 2 ^ spacing q := by positivity
  have hunit : (2 : ℚ) ^ spacing q ≤ q / 2 ^ 52 := by
    have hle : (2 : ℚ) ^ Int.log 2 q ≤ q := by
      exact_mod_cast Int.zpow_log_le_self (by norm_num : 1 < 2) (by linarith : (0 : ℚ) < q)
    rw [hspacing,zpow_sub₀ (by norm_num)]
    have : (2 : ℚ) ^ (52 : ℤ) = 2 ^ 52 := by norm_cast
    rw [this]
    gcongr
  have herror := abs_roundHalfEven_sub_le (q / 2 ^ spacing q)
  have hfactor : (roundHalfEven (q / 2 ^ spacing q) : ℚ) * 2 ^ spacing q - q =
      (roundHalfEven (q / 2 ^ spacing q) - q / 2 ^ spacing q) * 2 ^ spacing q := by
    rw [sub_mul,div_mul_cancel₀ _ hpos.ne']
  rw [hfactor,abs_mul,abs_of_pos hpos]
  calc |(roundHalfEven (q / 2 ^ spacing q) : ℚ) - q / 2 ^ spacing q| * 2 ^ spacing q
      ≤ 1 / 2 * (q / 2 ^ 52) := by gcongr
    _ = q / 2 ^ 53 := by ring

theorem inRange_of_lt {q : ℚ} (h : q < 2 ^ 53) : InRange q := by
  have hone : (1 : ℚ) ≤ 2 ^ 970 := one_le_pow₀ (by norm_num)
  have hsplit : (2 : ℚ) ^ 1024 = 2 ^ 970 * 2 ^ 54 := by rw [← pow_add]
  unfold InRange
  rw [hsplit]
  generalize (2 : ℚ) ^ 970 = unit at hone ⊢
  linarith

/-- Whole numbers below 2 ^ 53 are doubles. -/
theorem ofRat_natCast {n : ℕ} (h : n < 2 ^ 53) : ofRat n = some (n : ℚ) := by
  have hrange : InRange n := inRange_of_lt (by exact_mod_cast h)
  have hlog : Int.log 2 (n : ℚ) ≤ 52 := by
    rw [Int.log_natCast]
    have hlt : Nat.log 2 n < 53 := Nat.log_lt_of_lt_pow' (by norm_num) h
    omega
  have hspacing : spacing (n : ℚ) ≤ 0 := max_le (by omega) (by norm_num)
  obtain ⟨k,hk⟩ := Int.exists_eq_neg_ofNat hspacing
  have hwhole : (n : ℚ) / 2 ^ spacing (n : ℚ) = ((n * 2 ^ k : ℤ) : ℚ) := by
    rw [hk,zpow_neg,div_inv_eq_mul,zpow_natCast]
    push_cast
    rfl
  refine ofRat_eq_some.mpr ⟨hrange,?_⟩
  rw [hwhole,roundHalfEven_intCast,← hwhole,div_mul_cancel₀ _ (by positivity)]

end Floats
