import Podly.Floats.Double

/-! Whole numbers that are divided by a scale and multiplied by it again in double precision: what
rounding brings back and what truncation may lose. Rounding keeps the order and the doubles, which is
all that much arithmetic needs. -/
namespace Floats

/-- The nearest double of a value that is not too large for one. -/
def rounded (q : ℚ) : ℚ := roundHalfEven (q / 2 ^ spacing q) * 2 ^ spacing q

theorem rounded_nonneg {q : ℚ} (hq : 0 ≤ q) : 0 ≤ rounded q := by
  have hround : (0 : ℚ) ≤ roundHalfEven (q / 2 ^ spacing q) := by
    exact_mod_cast roundHalfEven_nonneg (by positivity)
  unfold rounded
  positivity

/-- Below one doubles are as close as around one, or closer. -/
theorem spacing_le_of_lt_one {q : ℚ} (hq : q < 1) : spacing q ≤ -52 := by
  have hlog : Int.log 2 q ≤ 0 := by
    rcases le_or_gt q 0 with hneg | hpos
    · rw [Int.log_of_right_le_zero 2 hneg]
    · rw [← Int.log_one_right (R := ℚ) 2]
      exact Int.log_mono_right hpos hq.le
  exact max_le (by omega) (by norm_num)

theorem unit_le (q : ℚ) : (2 : ℚ) ^ spacing q ≤ max 1 q / 2 ^ 52 := by
  rcases le_or_gt 1 q with hone | hone
  · have hlog : 0 ≤ Int.log 2 q := by
      rw [← Int.log_one_right (R := ℚ) 2]
      exact Int.log_mono_right (by norm_num) hone
    have hspacing : spacing q = Int.log 2 q - 52 := max_eq_left (by omega)
    have hle : (2 : ℚ) ^ Int.log 2 q ≤ q := by
      exact_mod_cast Int.zpow_log_le_self (by norm_num : 1 < 2) (by linarith : (0 : ℚ) < q)
    have hpow : (2 : ℚ) ^ (52 : ℤ) = 2 ^ 52 := by norm_cast
    rw [max_eq_right hone,hspacing,zpow_sub₀ (by norm_num),hpow]
    gcongr
  · rw [max_eq_left hone.le]
    calc (2 : ℚ) ^ spacing q ≤ 2 ^ (-52 : ℤ) :=
          zpow_le_zpow_right₀ (by norm_num) (spacing_le_of_lt_one hone)
      _ = 1 / 2 ^ 52 := by norm_num

/-- The nearest double is off by less than one part in 2 ^ 52, of one where the value is less. -/
theorem abs_rounded_sub_le (q : ℚ) : |rounded q - q| ≤ max 1 q / 2 ^ 53 := by
  have hpos : (0 : ℚ) < 2 ^ spacing q := by positivity
  have herror := abs_roundHalfEven_sub_le (q / 2 ^ spacing q)
  have hunit := unit_le q
  have hfactor : rounded q - q =
      (roundHalfEven (q / 2 ^ spacing q) - q / 2 ^ spacing q) * 2 ^ spacing q := by
    rw [rounded,sub_mul,div_mul_cancel₀ _ hpos.ne']
  rw [hfactor,abs_mul,abs_of_pos hpos]
  calc |(roundHalfEven (q / 2 ^ spacing q) : ℚ) - q / 2 ^ spacing q| * 2 ^ spacing q
      ≤ 1 / 2 * (max 1 q / 2 ^ 52) := by gcongr
    _ = max 1 q / 2 ^ 53 := by ring

/-- A value closer than a half to a whole number rounds to it. -/
theorem roundHalfEven_of_near {q : ℚ} {n : ℤ} (h : |q - n| < 1 / 2) : roundHalfEven q = n := by
  have herror := abs_roundHalfEven_sub_le q
  have hclose : |(roundHalfEven q : ℚ) - n| < 1 := by
    calc |(roundHalfEven q : ℚ) - n| ≤ |(roundHalfEven q : ℚ) - q| + |q - n| := abs_sub_le _ q _
      _ < 1 := by linarith
  have hint : |roundHalfEven q - n| < 1 := by exact_mod_cast hclose
  have hzero := Int.abs_lt_one_iff.mp hint
  omega

/-- The floor of a value closer than one to a whole number is that number or the one before. -/
theorem floor_of_near {q : ℚ} {n : ℤ} (h : |q - n| < 1) : ⌊q⌋ = n ∨ ⌊q⌋ = n - 1 := by
  obtain ⟨hlow,hhigh⟩ := abs_lt.mp h
  have hupper : ⌊q⌋ < n + 1 := Int.floor_lt.mpr (by push_cast; linarith)
  have hlower : n - 1 ≤ ⌊q⌋ := Int.le_floor.mpr (by push_cast; linarith)
  omega

section Scale
variable {k n : ℕ}

/-- Dividing rounds once, and the scale magnifies what that adds. -/
theorem abs_scaled_sub_le (hk : 0 < k) :
    |rounded (n / k) * k - n| ≤ max (k : ℚ) n / 2 ^ 53 := by
  have hkpos : (0 : ℚ) < k := by exact_mod_cast hk
  have herror := abs_rounded_sub_le ((n : ℚ) / k)
  have hfactor : rounded (n / k) * k - n = (rounded (n / k) - n / k) * k := by
    rw [sub_mul,div_mul_cancel₀ _ hkpos.ne']
  have hmax : max 1 ((n : ℚ) / k) * k = max (k : ℚ) n := by
    rw [max_mul_of_nonneg _ _ hkpos.le,one_mul,div_mul_cancel₀ _ hkpos.ne']
  rw [hfactor,abs_mul,abs_of_pos hkpos]
  calc |rounded ((n : ℚ) / k) - n / k| * k ≤ max 1 ((n : ℚ) / k) / 2 ^ 53 * k := by gcongr
    _ = max (k : ℚ) n / 2 ^ 53 := by rw [div_mul_eq_mul_div,hmax]

theorem abs_scaled_sub_lt (hk : 0 < k) (hk' : k < 2 ^ 50) (hn : n < 2 ^ 50) :
    |rounded (n / k) * k - n| < 1 / 8 := by
  have hmax : max (k : ℚ) n < 2 ^ 50 := max_lt (by exact_mod_cast hk') (by exact_mod_cast hn)
  have h := abs_scaled_sub_le (n := n) hk
  calc |rounded (n / k) * k - n| ≤ max (k : ℚ) n / 2 ^ 53 := h
    _ < 2 ^ 50 / 2 ^ 53 := by gcongr
    _ = 1 / 8 := by norm_num

/-- The product is rounded once more. -/
theorem abs_rounded_scaled_sub_lt (hk : 0 < k) (hk' : k < 2 ^ 50) (hn : n < 2 ^ 50) :
    |rounded (rounded (n / k) * k) - n| < 1 / 2 := by
  have hfirst := abs_scaled_sub_lt hk hk' hn
  have hbound : max 1 (rounded ((n : ℚ) / k) * k) ≤ 2 ^ 51 := by
    have hlt := (abs_lt.mp hfirst).2
    have hn' : (n : ℚ) < 2 ^ 50 := by exact_mod_cast hn
    refine max_le (by norm_num) ?_
    calc rounded ((n : ℚ) / k) * k ≤ 2 ^ 50 + 1 := by linarith
      _ ≤ 2 ^ 51 := by norm_num
  have hsecond := abs_rounded_sub_le (rounded ((n : ℚ) / k) * k)
  have hquarter : max 1 (rounded ((n : ℚ) / k) * k) / 2 ^ 53 ≤ 1 / 4 := by
    calc max 1 (rounded ((n : ℚ) / k) * k) / 2 ^ 53 ≤ 2 ^ 51 / 2 ^ 53 := by gcongr
      _ = 1 / 4 := by norm_num
  calc |rounded (rounded ((n : ℚ) / k) * k) - n| ≤
        |rounded (rounded ((n : ℚ) / k) * k) - rounded (n / k) * k| + |rounded (n / k) * k - n| :=
      abs_sub_le _ _ _
    _ < 1 / 2 := by linarith

/-- Rounding brings the whole number back, before the product is rounded or after it. -/
theorem roundHalfEven_scaled (hk : 0 < k) (hk' : k < 2 ^ 50) (hn : n < 2 ^ 50) :
    roundHalfEven (rounded (n / k) * k) = n ∧ roundHalfEven (rounded (rounded (n / k) * k)) = n :=
  ⟨roundHalfEven_of_near (by simpa using (abs_scaled_sub_lt hk hk' hn).trans (by norm_num)),
    roundHalfEven_of_near (by simpa using abs_rounded_scaled_sub_lt hk hk' hn)⟩

/-- Truncation brings it back or loses one. -/
theorem floor_scaled (hk : 0 < k) (hk' : k < 2 ^ 50) (hn : n < 2 ^ 50) :
    ⌊rounded (rounded (n / k) * k)⌋ = n ∨ ⌊rounded (rounded (n / k) * k)⌋ = (n : ℤ) - 1 :=
  floor_of_near (by simpa using (abs_rounded_scaled_sub_lt hk hk' hn).trans (by norm_num))

end Scale

/-! The order of doubles -/

theorem roundHalfEven_mono {p q : ℚ} (h : p ≤ q) : roundHalfEven p ≤ roundHalfEven q := by
  have hfloor : p.floor ≤ q.floor := Int.floor_le_floor h
  rcases hfloor.lt_or_eq with hlt | heq
  · have hup : roundHalfEven p ≤ p.floor + 1 := by
      rw [roundHalfEven]
      split_ifs <;> omega
    have hdown : q.floor ≤ roundHalfEven q := by
      rw [roundHalfEven]
      split_ifs <;> omega
    omega
  · rw [roundHalfEven,roundHalfEven,heq]
    split_ifs
    all_goals first
      | omega
      | exfalso
        linarith

/-- A multiple of the unit bounds what lies below it. -/
theorem rounded_le {q : ℚ} {m e : ℤ} (he : spacing q ≤ e) (h : q ≤ m * 2 ^ e) :
    rounded q ≤ m * 2 ^ e := by
  obtain ⟨k,hk⟩ := Int.exists_add_of_le he
  have hpos : (0 : ℚ) < 2 ^ spacing q := by positivity
  have hgrid : (m : ℚ) * 2 ^ e = ((m * 2 ^ k : ℤ) : ℚ) * 2 ^ spacing q := by
    rw [hk,zpow_add₀ (by norm_num),zpow_natCast]
    push_cast
    ring
  rw [hgrid] at h ⊢
  rw [rounded]
  have hround := roundHalfEven_mono ((div_le_iff₀ hpos).mpr h)
  rw [roundHalfEven_intCast] at hround
  gcongr

theorem le_rounded {q : ℚ} {m e : ℤ} (he : spacing q ≤ e) (h : m * 2 ^ e ≤ q) :
    m * 2 ^ e ≤ rounded q := by
  obtain ⟨k,hk⟩ := Int.exists_add_of_le he
  have hpos : (0 : ℚ) < 2 ^ spacing q := by positivity
  have hgrid : (m : ℚ) * 2 ^ e = ((m * 2 ^ k : ℤ) : ℚ) * 2 ^ spacing q := by
    rw [hk,zpow_add₀ (by norm_num),zpow_natCast]
    push_cast
    ring
  rw [hgrid] at h ⊢
  rw [rounded]
  have hround := roundHalfEven_mono ((le_div_iff₀ hpos).mpr h)
  rw [roundHalfEven_intCast] at hround
  gcongr

theorem rounded_zero : rounded 0 = 0 := by
  have hround := roundHalfEven_intCast 0
  rw [Int.cast_zero] at hround
  rw [rounded,zero_div,hround,Int.cast_zero,zero_mul]

/-- What has 53 bits at an exponent of doubles is a double. -/
theorem rounded_eq_self {m : ℕ} {e : ℤ} (hm : m ≤ 2 ^ 53) (he : -1074 ≤ e) :
    rounded (m * 2 ^ e) = m * 2 ^ e := by
  have hgrid : ∀ {m : ℕ} {e : ℤ}, 0 < m → m < 2 ^ 53 → -1074 ≤ e →
      rounded (m * 2 ^ e) = m * 2 ^ e := by
    intro m e hpos hlt he
    have hlog : Int.log 2 ((m : ℚ) * 2 ^ e) < 53 + e := by
      rw [← Int.lt_zpow_iff_log_lt (by norm_num) (by positivity)]
      rw [zpow_add₀ (by norm_num)]
      push_cast
      gcongr
      exact_mod_cast hlt
    have hspacing : spacing ((m : ℚ) * 2 ^ e) ≤ e := max_le (by omega) he
    have hcast : (m : ℚ) = ((m : ℤ) : ℚ) := by push_cast; rfl
    rw [hcast] at hspacing ⊢
    exact (rounded_le hspacing le_rfl).antisymm (le_rounded hspacing le_rfl)
  rcases Nat.eq_zero_or_pos m with rfl | hpos
  · rw [Nat.cast_zero,zero_mul,rounded_zero]
  · rcases hm.lt_or_eq with hlt | rfl
    · exact hgrid hpos hlt he
    · -- The next power of two has one bit.
      have hcarry : ((2 ^ 53 : ℕ) : ℚ) * 2 ^ e = ((2 ^ 52 : ℕ) : ℚ) * 2 ^ (e + 1) := by
        rw [zpow_add₀ (by norm_num)]
        push_cast
        ring
      rw [hcarry]
      exact hgrid (by norm_num) (by norm_num) (by omega)

theorem rounded_rounded {q : ℚ} (hq : 0 ≤ q) : rounded (rounded q) = rounded q := by
  have hnonneg : 0 ≤ roundHalfEven (q / 2 ^ spacing q) := roundHalfEven_nonneg (by positivity)
  obtain ⟨m,hm⟩ := Int.eq_ofNat_of_zero_le hnonneg
  have hbound : roundHalfEven (q / 2 ^ spacing q) ≤ (2 ^ 53 : ℤ) := by
    have hle : q / 2 ^ spacing q ≤ ((2 ^ 53 : ℤ) : ℚ) := by
      rw [div_le_iff₀ (by positivity)]
      have hlt := Int.lt_zpow_succ_log_self (b := 2) (by norm_num) q
      calc q ≤ 2 ^ (Int.log 2 q + 1) := by exact_mod_cast hlt.le
        _ ≤ 2 ^ (53 + spacing q) := by
          refine zpow_le_zpow_right₀ (by norm_num) ?_
          have := le_max_left (Int.log 2 q - 52) (-1074)
          unfold spacing
          omega
        _ = ((2 ^ 53 : ℤ) : ℚ) * 2 ^ spacing q := by
          rw [zpow_add₀ (by norm_num)]
          norm_num
    have hround := roundHalfEven_mono hle
    rwa [roundHalfEven_intCast] at hround
  have heq : rounded q = (m : ℚ) * 2 ^ spacing q := by
    rw [rounded,hm]
    norm_cast
  rw [heq]
  exact rounded_eq_self (by exact_mod_cast hm ▸ hbound) (le_max_right _ _)

theorem rounded_natCast {n : ℕ} (hn : n ≤ 2 ^ 53) : rounded n = n := by
  simpa using @rounded_eq_self n 0 hn (by norm_num)

theorem rounded_mono {p q : ℚ} (hp : 0 ≤ p) (h : p ≤ q) : rounded p ≤ rounded q := by
  rcases hp.eq_or_lt with rfl | hp
  · rw [rounded_zero]
    exact rounded_nonneg h
  · have hlog : Int.log 2 p ≤ Int.log 2 q := Int.log_mono_right hp h
    rcases (max_le_max_right (-1074) (sub_le_sub_right hlog 52)).lt_or_eq with hlt | heq
    · -- A power of two lies between them.
      change spacing p < spacing q at hlt
      have hspacing : spacing q = Int.log 2 q - 52 := by
        unfold spacing at hlt ⊢
        omega
      have hlow := le_max_left (Int.log 2 p - 52) (-1074)
      have hplt : p ≤ ((1 : ℤ) : ℚ) * 2 ^ Int.log 2 q := by
        rw [Int.cast_one,one_mul]
        have : p < ((2 : ℕ) : ℚ) ^ Int.log 2 q := by
          rw [Int.lt_zpow_iff_log_lt (by norm_num) hp]
          unfold spacing at hlt hspacing
          omega
        exact_mod_cast this.le
      have hqle : ((1 : ℤ) : ℚ) * 2 ^ Int.log 2 q ≤ q := by
        rw [Int.cast_one,one_mul]
        exact_mod_cast Int.zpow_log_le_self (by norm_num : 1 < 2) (hp.trans_le h)
      exact (rounded_le (by omega) hplt).trans (le_rounded (by omega) hqle)
    · change spacing p = spacing q at heq
      rw [rounded,rounded,heq]
      have hround : roundHalfEven (p / 2 ^ spacing q) ≤ roundHalfEven (q / 2 ^ spacing q) :=
        roundHalfEven_mono (by gcongr)
      gcongr

/-- The nearest double of either sign, but for the overflow of the largest exponent. -/
def toDouble (q : ℚ) : ℚ := if 0 ≤ q then rounded q else -rounded (-q)

theorem toDouble_mono : Monotone toDouble := by
  intro p q h
  unfold toDouble
  split_ifs with hp hq hq
  · exact rounded_mono hp h
  · linarith
  · have hneg := rounded_nonneg (q := -p) (by linarith)
    have hpos := rounded_nonneg hq
    linarith
  · exact neg_le_neg (rounded_mono (by linarith) (by linarith))

theorem toDouble_toDouble (q : ℚ) : toDouble (toDouble q) = toDouble q := by
  by_cases hq : 0 ≤ q
  · have heq : toDouble q = rounded q := if_pos hq
    rw [heq,toDouble,if_pos (rounded_nonneg hq),rounded_rounded hq]
  · have hneg : 0 ≤ -q := by linarith
    have heq : toDouble q = -rounded (-q) := if_neg hq
    rw [heq,toDouble,neg_neg,rounded_rounded hneg]
    split_ifs with hzero
    · have hround := rounded_nonneg hneg
      have hnil : rounded (-q) = 0 := by linarith
      rw [hnil,neg_zero,rounded_zero]
    · rfl

/-- An arithmetic in which each result is rounded. -/
structure Rounding where
  round : ℚ → ℚ
  mono : Monotone round
  idem : ∀ q, round (round q) = round q
  zero : round 0 = 0

namespace Rounding

instance : CoeFun Rounding (fun _ => ℚ → ℚ) := ⟨round⟩

/-- Exact arithmetic. -/
def exact : Rounding := ⟨id,monotone_id,fun _ => rfl,rfl⟩

/-- Double precision. -/
def double : Rounding :=
  ⟨toDouble,toDouble_mono,toDouble_toDouble,by rw [toDouble,if_pos le_rfl,rounded_zero]⟩

variable (R : Rounding)

/-- A number of the arithmetic. -/
def Holds (q : ℚ) : Prop := R q = q

instance (q : ℚ) : Decidable (R.Holds q) := inferInstanceAs (Decidable (_ = _))

variable {R} {x y : ℚ}

theorem holds_round (q : ℚ) : R.Holds (R q) := R.idem q

theorem le_round (hx : R.Holds x) (h : x ≤ y) : x ≤ R y := by
  have hmono := R.mono h
  rwa [hx] at hmono

theorem round_le (hy : R.Holds y) (h : x ≤ y) : R x ≤ y := by
  have hmono := R.mono h
  rwa [hy] at hmono

theorem round_nonneg (h : 0 ≤ x) : 0 ≤ R x := le_round R.zero h

theorem lt_of_round_lt (hy : R.Holds y) (h : R x < y) : x < y :=
  lt_of_not_ge (fun hle => absurd (le_round hy hle) (not_le_of_gt h))

end Rounding

end Floats
