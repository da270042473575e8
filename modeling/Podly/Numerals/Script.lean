import Podly.Numerals.Decimal
import Podly.Strings.Trimmed

/-! Numerals in the digits of any script, with blanks around them and underscores between digits. -/
namespace Numerals
open Floats Strings

/-- What a numeral may have beyond ASCII: white space and the digits of other scripts. -/
structure Script where
  isSpace : Char → Bool
  digitValue : Char → Option ℕ

/-- The blanks that may stand around a numeral. -/
def isBlank (c : Char) : Bool := c = ' ' || (9 ≤ c.toNat && c.toNat ≤ 13)

/-- Underscores are dropped that stand between digits; others are not read. -/
def dropUnderscores (previous : Char) : List Char → Option (List Char)
  | [] => if previous = '_' then none else some []
  | c::text =>
    if c = '_' then if previous.isDigit then dropUnderscores '_' text else none
    else if previous = '_' ∧ ¬c.isDigit then none
    else (dropUnderscores c text).map (c::·)

/-- As many digits as a whole number may have. -/
def maxDigits : ℕ := 4300

namespace Script
variable (S : Script)

/-- A text in ASCII; what has no place there is no part of a numeral. -/
def toAscii (text : List Char) : List Char :=
  if text.all (fun c => c.toNat < 128) then text
  else text.map (fun c =>
    if c.toNat < 128 then c
    else if S.isSpace c then ' '
    else match S.digitValue c with
      | some d => Char.ofNat (48 + d)
      | none => '?')

/-- The characters of a numeral alone. -/
def written (text : List Char) : Option (List Char) :=
  dropUnderscores ' ' (trimmed isBlank (S.toAscii text))

def int (text : List Char) : Option ℤ :=
  (S.written text).bind (fun digits =>
    if digits.countP Char.isDigit ≤ maxDigits then integer digits else none)

def float (text : List Char) : Option Extended := (S.written text).bind decimal

end Script

section Plain
variable {S : Script} {text : List Char}

theorem codes_of_isNumeral {c : Char} (h : isNumeral c) :
    (65 ≤ c.toNat ∧ c.toNat ≤ 90 ∨ 97 ≤ c.toNat ∧ c.toNat ≤ 122 ∨
      48 ≤ c.toNat ∧ c.toNat ≤ 57) ∨ c = '.' ∨ c = '+' ∨ c = '-' := by
  simp only [isNumeral,isAlphanum_eq,Bool.or_eq_true,isUpper_iff,isLower_iff,isDigit_iff,
    decide_eq_true_eq] at h
  tauto

theorem isNumeral_cases {c : Char} (h : isNumeral c) :
    c.toNat < 128 ∧ isBlank c = false ∧ c ≠ '_' := by
  have hcode := codes_of_isNumeral h
  rcases hcode with hcode | rfl | rfl | rfl
  · have hspace : c ≠ ' ' := by
      rintro rfl
      revert hcode
      decide
    have hunder : c ≠ '_' := by
      rintro rfl
      revert hcode
      decide
    refine ⟨by omega,?_,hunder⟩
    simp only [isBlank,hspace,decide_false,Bool.false_or,Bool.and_eq_false_iff,
      decide_eq_false_iff_not]
    omega
  all_goals decide

theorem dropUnderscores_eq {previous : Char} (hprevious : previous ≠ '_')
    (h : text.all isNumeral) : dropUnderscores previous text = some text := by
  induction text generalizing previous with
  | nil => exact if_neg hprevious
  | cons c text ih =>
    rw [List.all_cons,Bool.and_eq_true] at h
    have hc : c ≠ '_' := (isNumeral_cases h.1).2.2
    rw [dropUnderscores,if_neg hc,if_neg (fun hbad => hprevious hbad.1),ih hc h.2]
    rfl

/-- A numeral of ASCII stands for itself. -/
theorem Script.written_eq (h : text.all isNumeral) : S.written text = some text := by
  have hplain := List.all_eq_true.mp h
  have hascii : S.toAscii text = text := by
    rw [Script.toAscii,if_pos]
    rw [List.all_eq_true]
    exact fun c hc => by simpa using (isNumeral_cases (hplain c hc)).1
  have htrim : trimmed isBlank text = text := by
    have hblank : ∀ c ∈ text, isBlank c = false := fun c hc => (isNumeral_cases (hplain c hc)).2.1
    have hdrop : text.dropWhile isBlank = text := by
      cases text with
      | nil => rfl
      | cons c text => exact List.dropWhile_cons_of_neg (by simp [hblank c])
    rw [trimmed,hdrop,List.rdropWhile_eq_self_iff]
    exact fun hne => by simp [hblank _ (List.getLast_mem hne)]
  rw [Script.written,hascii,htrim]
  exact dropUnderscores_eq (by decide) h

/-- What is read without leniency is read the same with it. -/
theorem Script.float_of_decimal {x : Extended} (h : decimal text = some x) :
    S.float text = some x := by
  rw [Script.float,Script.written_eq (decimal_isNumeral h),Option.bind_some,h]

theorem Script.int_of_integer {n : ℤ} (h : integer text = some n)
    (hdigits : text.countP Char.isDigit ≤ maxDigits) : S.int text = some n := by
  rw [Script.int,Script.written_eq (integer_isNumeral h),Option.bind_some,if_pos hdigits,h]

theorem mem_dropUnderscores {previous c : Char} {kept : List Char}
    (h : dropUnderscores previous text = some kept) (hc : c ∈ text) (hne : c ≠ '_') : c ∈ kept := by
  induction text generalizing previous kept with
  | nil => cases hc
  | cons d text ih =>
    rw [dropUnderscores] at h
    split at h
    · rename_i hd
      split at h
      · refine ih h ((List.mem_cons.mp hc).resolve_left ?_)
        rintro rfl
        exact hne hd
      · cases h
    · split at h
      · cases h
      · obtain ⟨rest,hrest,rfl⟩ := Option.map_eq_some_iff.mp h
        rcases List.mem_cons.mp hc with rfl | hc
        · exact List.mem_cons_self
        · exact List.mem_cons_of_mem d (ih hrest hc)

/-- A text with a sign of ASCII that belongs to no numeral is none. -/
theorem Script.int_eq_none {c : Char} (hc : c ∈ text) (hascii : c.toNat < 128)
    (hblank : isBlank c = false) (hne : c ≠ '_') (hsign : isNumeral c = false) :
    S.int text = none := by
  have hmem : c ∈ S.toAscii text := by
    rw [Script.toAscii]
    split
    · exact hc
    · exact List.mem_map.mpr ⟨c,hc,if_pos hascii⟩
  rw [Script.int]
  cases hwritten : S.written text with
  | none => rfl
  | some digits =>
    have hdigits : c ∈ digits :=
      mem_dropUnderscores hwritten (mem_trimmed hmem hblank) hne
    rw [Option.bind_some]
    split
    · cases hint : integer digits with
      | none => rfl
      | some n =>
        have hall := List.all_eq_true.mp (integer_isNumeral hint) c hdigits
        rw [hsign] at hall
        cases hall
    · rfl

/-- Digits beyond the limit are no whole number. -/
theorem Script.int_of_isNumeral (h : text.all isNumeral) : S.int text =
    if text.countP Char.isDigit ≤ maxDigits then integer text else none := by
  rw [Script.int,Script.written_eq h,Option.bind_some]

end Plain

end Numerals
