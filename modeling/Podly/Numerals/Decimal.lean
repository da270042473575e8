import Mathlib.Data.List.TakeWhile
import Podly.Floats.Extended
import Podly.Floats.Double

/-! Numerals of ASCII: whole numbers, and decimal numbers with the floats they are nearest to. -/
namespace Numerals
open Floats

/-- The number that digits make up. -/
def valueOf (digits : List Char) : ℕ := digits.foldl (fun n c => 10 * n + (c.toNat - 48)) 0

/-- One digit or more. -/
def natural (text : List Char) : Option ℕ :=
  if text ≠ [] ∧ text.all Char.isDigit then some (valueOf text) else none

/-- Digits behind at most one sign. -/
def integer : List Char → Option ℤ
  | '-'::text => (natural text).map (fun n : ℕ => -(n : ℤ))
  | '+'::text => (natural text).map (fun n : ℕ => (n : ℤ))
  | text => (natural text).map (fun n : ℕ => (n : ℤ))

/-- The digits behind a point, and what follows. -/
def fractionOf : List Char → List Char × List Char
  | '.'::rest => (rest.takeWhile Char.isDigit,rest.dropWhile Char.isDigit)
  | rest => ([],rest)

/-- A number times the power of ten that is written behind it. -/
def scaled (mantissa : ℚ) (places : ℕ) : List Char → Option ℚ
  | [] => some (mantissa / 10 ^ places)
  | c::rest =>
    if c = 'e' ∨ c = 'E' then (integer rest).map (fun e : ℤ => mantissa * (10 : ℚ) ^ (e - places))
    else none

/-- Digits with at most one point among them, and an exponent of ten. -/
def unsignedDecimal (text : List Char) : Option ℚ :=
  let whole := text.takeWhile Char.isDigit
  let (fraction,rest) := fractionOf (text.dropWhile Char.isDigit)
  if whole = [] ∧ fraction = [] then none
  else scaled (valueOf (whole ++ fraction)) fraction.length rest

/-- The float nearest to a number with a sign; beyond the largest one, an infinity. -/
def nearest (negative : Bool) (q : ℚ) : Extended :=
  match Floats.ofRat q with
  | some r => Extended.ofRat (if negative then -r else r)
  | none => Extended.number (if negative then ⊥ else ⊤)

/-- A decimal number or a word for a value that none writes. -/
def unsigned (negative : Bool) (text : List Char) : Option Extended :=
  let word := text.map Char.toLower
  if word = "nan".toList then some .nan
  else if word = "inf".toList ∨ word = "infinity".toList then
    some (.number (if negative then ⊥ else ⊤))
  else (unsignedDecimal text).map (nearest negative)

/-- The float that a text writes. -/
def decimal : List Char → Option Extended
  | '-'::text => unsigned true text
  | '+'::text => unsigned false text
  | text => unsigned false text

example : decimal "-12.5e1".toList = some (Extended.ofRat (-125)) := by decide +kernel

/-- A character that numerals are written with. -/
def isNumeral (c : Char) : Bool := c.isAlphanum || c = '.' || c = '+' || c = '-'

section Written
variable {text : List Char}

theorem natural_isNumeral {n : ℕ} (h : natural text = some n) : text.all isNumeral := by
  unfold natural at h
  split at h
  · rename_i hdigits
    rw [List.all_eq_true] at hdigits ⊢
    intro c hc
    simp [isNumeral,Char.isAlphanum,hdigits.2 c hc]
  · cases h

theorem integer_isNumeral {n : ℤ} (h : integer text = some n) : text.all isNumeral := by
  unfold integer at h
  split at h
  all_goals
    obtain ⟨n,hn,-⟩ := Option.map_eq_some_iff.mp h
    have hrest := natural_isNumeral hn
    simp [isNumeral,hrest]

theorem takeWhile_isNumeral (text : List Char) : (text.takeWhile Char.isDigit).all isNumeral := by
  rw [List.all_eq_true]
  intro c hc
  simp [isNumeral,Char.isAlphanum,List.mem_takeWhile_imp hc]

theorem fractionOf_isNumeral (h : (fractionOf text).2.all isNumeral) : text.all isNumeral := by
  unfold fractionOf at h
  split at h
  · rename_i rest
    have hrest := List.takeWhile_append_dropWhile (p := Char.isDigit) (l := rest)
    rw [List.all_cons,← hrest,List.all_append,takeWhile_isNumeral,h]
    rfl
  · exact h

theorem scaled_isNumeral {mantissa q : ℚ} {places : ℕ} (h : scaled mantissa places text = some q) :
    text.all isNumeral := by
  cases text with
  | nil => rfl
  | cons c rest =>
    rw [scaled] at h
    split at h
    · rename_i hc
      obtain ⟨e,he,-⟩ := Option.map_eq_some_iff.mp h
      rw [List.all_cons,integer_isNumeral he]
      rcases hc with rfl | rfl <;> rfl
    · cases h

theorem unsignedDecimal_isNumeral {q : ℚ} (h : unsignedDecimal text = some q) :
    text.all isNumeral := by
  have htext := List.takeWhile_append_dropWhile (p := Char.isDigit) (l := text)
  rw [← htext,List.all_append,takeWhile_isNumeral,Bool.true_and]
  apply fractionOf_isNumeral
  rw [unsignedDecimal] at h
  dsimp only at h
  split at h
  · cases h
  · exact scaled_isNumeral h

theorem isAlphanum_eq (c : Char) : c.isAlphanum = (c.isUpper || c.isLower || c.isDigit) := rfl

theorem isUpper_iff {c : Char} : c.isUpper = true ↔ 65 ≤ c.toNat ∧ c.toNat ≤ 90 := decide_eq_true_iff

theorem isLower_iff {c : Char} : c.isLower = true ↔ 97 ≤ c.toNat ∧ c.toNat ≤ 122 := by
  have hlower : c.isLower = (decide (97 ≤ c.toNat) && decide (c.toNat ≤ 122)) := rfl
  rw [hlower,Bool.and_eq_true,decide_eq_true_eq,decide_eq_true_eq]

theorem isDigit_iff {c : Char} : c.isDigit = true ↔ 48 ≤ c.toNat ∧ c.toNat ≤ 57 := by
  have hdigit : c.isDigit = (decide (48 ≤ c.toNat) && decide (c.toNat ≤ 57)) := rfl
  rw [hdigit,Bool.and_eq_true,decide_eq_true_eq,decide_eq_true_eq]

/-- Only an upper case letter is lowered. -/
theorem toLower_of_not_upper {c : Char} (h : ¬c.isUpper = true) : c.toLower = c :=
  dif_neg (fun hupper => h (decide_eq_true hupper))

theorem toLower_isNumeral {word : List Char} (hword : word.all Char.isAlphanum)
    (h : text.map Char.toLower = word) : text.all isNumeral := by
  subst h
  rw [List.all_map,List.all_eq_true] at hword
  rw [List.all_eq_true]
  intro c hc
  have hlower : c.toLower.isAlphanum = true := hword c hc
  have hupper : c.isAlphanum = true := by
    by_cases hupper : c.isUpper = true
    · rw [isAlphanum_eq,hupper]
      rfl
    · rwa [toLower_of_not_upper hupper] at hlower
  simp [isNumeral,hupper]

theorem unsigned_isNumeral {negative : Bool} {x : Extended} (h : unsigned negative text = some x) :
    text.all isNumeral := by
  rw [unsigned] at h
  split at h
  · rename_i hword
    exact toLower_isNumeral (by decide) hword
  · split at h
    · rename_i hword
      rcases hword with hword | hword
      · exact toLower_isNumeral (by decide) hword
      · exact toLower_isNumeral (by decide) hword
    · obtain ⟨q,hq,-⟩ := Option.map_eq_some_iff.mp h
      exact unsignedDecimal_isNumeral hq

theorem decimal_isNumeral {x : Extended} (h : decimal text = some x) : text.all isNumeral := by
  unfold decimal at h
  split at h
  all_goals
    have hrest := unsigned_isNumeral h
    simp [isNumeral,hrest]

end Written

section Whole
variable {text : List Char}

theorem valueOf_toDigits (n : ℕ) : valueOf (Nat.toDigits 10 n) = n := Nat.ofDigitChars_ten_toDigits

theorem natural_toDigits (n : ℕ) : natural (Nat.toDigits 10 n) = some n := by
  have hdigits : (Nat.toDigits 10 n).all Char.isDigit := by
    rw [List.all_eq_true]
    exact fun c hc => Nat.isDigit_of_mem_toDigits (by decide) (by decide) hc
  rw [natural,if_pos ⟨Nat.toDigits_ne_nil,hdigits⟩,valueOf_toDigits]

theorem natural_zero_cons {n : ℕ} (h : natural text = some n) : natural ('0'::text) = some n := by
  unfold natural at h ⊢
  split at h
  · rename_i hdigits
    have hzero : valueOf ('0'::text) = valueOf text := rfl
    rw [if_pos ⟨List.cons_ne_nil _ _,by rw [List.all_cons,hdigits.2]; rfl⟩,hzero]
    exact h
  · cases h

theorem integer_of_natural {n : ℕ} (h : natural text = some n) : integer text = some (n : ℤ) := by
  have hdigits : text ≠ [] ∧ text.all Char.isDigit := by
    unfold natural at h
    split at h
    · assumption
    · cases h
  unfold integer
  split
  · simp at hdigits
  · simp at hdigits
  · rw [h]
    rfl

/-- Digits alone write the float nearest to their number. -/
theorem unsigned_of_natural {n : ℕ} (negative : Bool) (h : natural text = some n) :
    unsigned negative text = some (nearest negative n) := by
  unfold natural at h
  split at h
  · rename_i hdigits
    obtain rfl := Option.some.inj h
    have hlower : (text.map Char.toLower).all Char.isDigit := by
      rw [List.all_map,List.all_eq_true]
      intro c hc
      have hdigit := List.all_eq_true.mp hdigits.2 c hc
      have hupper : ¬c.isUpper = true := by
        intro hupper
        have hbounds := isDigit_iff.mp hdigit
        have hbig := (isUpper_iff.mp hupper).1
        omega
      rw [Function.comp_apply,toLower_of_not_upper hupper]
      exact hdigit
    have hword : ∀ word : List Char, word.all Char.isDigit = false → text.map Char.toLower ≠ word := by
      rintro word hword rfl
      rw [hlower] at hword
      cases hword
    have hwhole : text.takeWhile Char.isDigit = text :=
      List.takeWhile_eq_self_iff.mpr (List.all_eq_true.mp hdigits.2)
    have hrest : text.dropWhile Char.isDigit = [] :=
      List.dropWhile_eq_nil_iff.mpr (List.all_eq_true.mp hdigits.2)
    have hnumber : unsignedDecimal text = some ((valueOf text : ℕ) : ℚ) := by
      simp only [unsignedDecimal,hwhole,hrest,fractionOf]
      rw [if_neg (fun hnil => hdigits.1 hnil.1)]
      simp [scaled]
    rw [unsigned,if_neg (hword _ (by decide)),if_neg (not_or_intro (hword _ (by decide)) (hword _ (by decide))),
      hnumber]
    rfl
  · cases h

theorem nearest_zero (negative : Bool) : nearest negative 0 = Extended.ofRat 0 := by
  have hzero : Floats.ofRat 0 = some 0 := ofRat_natCast (by norm_num : 0 < 2 ^ 53)
  rw [nearest,hzero]
  cases negative <;> simp

/-- A whole number writes the float nearest to it. -/
theorem decimal_of_integer {n : ℤ} (h : integer text = some n) :
    decimal text = some (nearest (n < 0) n.natAbs) := by
  have hsigned : ∀ {m : ℕ} (negative : Bool), (negative = true → n = -m) →
      (negative = false → n = m) →
        (nearest negative m : Extended) = nearest (n < 0) n.natAbs := by
    intro m negative hneg hpos
    rcases Nat.eq_zero_or_pos m with rfl | hm
    · have hn : n = 0 := by cases negative <;> simp_all
      rw [hn]
      simp only [Nat.cast_zero,Int.natAbs_zero,nearest_zero]
    · cases negative with
      | false =>
        rw [hpos rfl,Int.natAbs_natCast,decide_eq_false (by omega)]
      | true =>
        rw [hneg rfl,Int.natAbs_neg,Int.natAbs_natCast,decide_eq_true (by omega)]
  unfold integer at h
  unfold decimal
  split at h
  · obtain ⟨m,hm,rfl⟩ := Option.map_eq_some_iff.mp h
    rw [unsigned_of_natural true hm,hsigned true (fun _ => rfl) nofun]
  · obtain ⟨m,hm,rfl⟩ := Option.map_eq_some_iff.mp h
    rw [unsigned_of_natural false hm,hsigned false nofun (fun _ => rfl)]
  · obtain ⟨m,hm,rfl⟩ := Option.map_eq_some_iff.mp h
    rw [unsigned_of_natural false hm,hsigned false nofun (fun _ => rfl)]

end Whole

end Numerals
