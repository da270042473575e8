import Mathlib.Data.Nat.Basic
import Mathlib.Tactic.Common

/-! The order of texts by their code points, and the least of several. -/
namespace Strings
variable {α : Type*}

/-- A text comes before another. -/
def textLt : List Char → List Char → Bool
  | _, [] => false
  | [], _::_ => true
  | x::xs, y::ys => x.toNat < y.toNat || (x = y && textLt xs ys)

/-- The first entry of a list that no other comes before. -/
def leastBy (key : α → List Char) : List α → Option α
  | [] => none
  | a::as =>
    match leastBy key as with
    | none => some a
    | some b => if textLt (key b) (key a) then some b else some a

theorem leastBy_map (key : α → List Char) (as : List α) :
    leastBy id (as.map key) = (leastBy key as).map key := by
  induction as with
  | nil => rfl
  | cons a as ih =>
    rw [List.map_cons,leastBy,leastBy,ih]
    cases leastBy key as with
    | none => rfl
    | some b =>
      simp only [Option.map_some,id_eq]
      split <;> rfl

theorem toNat_ne {x y : Char} (h : x ≠ y) : x.toNat < y.toNat ∨ y.toNat < x.toNat := by
  have hne : x.toNat ≠ y.toNat := fun he => h (Char.toNat_inj.mp he)
  omega

/-- A text comes before what continues one of its length exactly when that one is not before it. -/
theorem textLt_append_cons {a b : List Char} (h : a.length = b.length) (c : Char)
    (cs : List Char) : textLt a (b ++ c::cs) = !textLt b a := by
  induction a generalizing b with
  | nil =>
    obtain rfl : b = [] := List.length_eq_zero_iff.mp h.symm
    rfl
  | cons x a ih =>
    cases b with
    | nil => cases h
    | cons y b =>
      simp only [List.cons_append,textLt,ih (Nat.succ.inj h)]
      by_cases hxy : x = y
      · subst hxy
        simp
      · rcases toNat_ne hxy with hlt | hlt
        · simp [hxy,Ne.symm hxy,hlt,Nat.le_of_lt hlt]
        · simp [hxy,Ne.symm hxy,hlt,Nat.le_of_lt hlt]

/-- Of two different texts one comes before the other, and only one. -/
theorem textLt_eq_not_iff {a b : List Char} : textLt a b = (!textLt b a) ↔ a ≠ b := by
  induction a generalizing b with
  | nil => cases b <;> simp [textLt]
  | cons x a ih =>
    cases b with
    | nil => simp [textLt]
    | cons y b =>
      by_cases hxy : x = y
      · subst hxy
        simp only [textLt,Nat.lt_irrefl,decide_false,Bool.false_or,decide_true,Bool.true_and,ih]
        simp
      · rcases toNat_ne hxy with hlt | hlt
        · simp [textLt,hxy,Ne.symm hxy,hlt,Nat.le_of_lt hlt]
        · simp [textLt,hxy,Ne.symm hxy,hlt,Nat.le_of_lt hlt]

end Strings
