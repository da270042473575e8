import Mathlib.Data.List.DropRight
import Mathlib.Tactic.Ring.RingNF

/-! Base64 with the alphabet for URLs: the text of bytes with its padding, and the strict reading of
a text without padding. -/
namespace Base64

def alphabet : List Char :=
  "ABCDEFGHIJKLMNOPQRSTUVWXYZabcdefghijklmnopqrstuvwxyz0123456789-_".toList

/-- The letter of six bits. -/
def letter (n : ℕ) : Char := alphabet.getD n '='

/-- The six bits of a letter. -/
def bits (c : Char) : Option ℕ := if c ∈ alphabet then some (alphabet.idxOf c) else none

/-- The letters of bytes, three to four. -/
def letters : List UInt8 → List Char
  | [] => []
  | [a] => [letter (a.toNat / 4),letter (a.toNat % 4 * 16)]
  | [a,b] => [letter (a.toNat / 4),letter (a.toNat % 4 * 16 + b.toNat / 16),letter (b.toNat % 16 * 4)]
  | a::b::c::rest => letter (a.toNat / 4)::letter (a.toNat % 4 * 16 + b.toNat / 16)::
      letter (b.toNat % 16 * 4 + c.toNat / 64)::letter (c.toNat % 64)::letters rest

/-- The signs that make the length a multiple of four. -/
def padding (n : ℕ) : List Char := List.replicate ((3 - n % 3) % 3) '='

def encode (bytes : List UInt8) : List Char := letters bytes ++ padding bytes.length

/-- What is read of a text without padding, where no bits may be left over. -/
def decode : List Char → Option (List UInt8)
  | [] => some []
  | [_] => none
  | [x,y] => do
    let x ← bits x
    let y ← bits y
    if y % 16 = 0 then pure [UInt8.ofNat (x * 4 + y / 16)] else none
  | [x,y,z] => do
    let x ← bits x
    let y ← bits y
    let z ← bits z
    if z % 4 = 0 then pure [UInt8.ofNat (x * 4 + y / 16),UInt8.ofNat (y % 16 * 16 + z / 4)] else none
  | x::y::z::w::rest => do
    let x ← bits x
    let y ← bits y
    let z ← bits z
    let w ← bits w
    let bytes ← decode rest
    pure (UInt8.ofNat (x * 4 + y / 16)::UInt8.ofNat (y % 16 * 16 + z / 4)::
      UInt8.ofNat (z % 4 * 64 + w)::bytes)

theorem nodup_alphabet : alphabet.Nodup := by decide

theorem length_alphabet : alphabet.length = 64 := rfl

theorem letter_eq_get {n : ℕ} (h : n < alphabet.length) : letter n = alphabet.get ⟨n,h⟩ := by
  rw [letter,List.getD_eq_getElem?_getD,List.getElem?_eq_getElem h]
  rfl

theorem letter_mem {n : ℕ} (h : n < 64) : letter n ∈ alphabet := by
  rw [letter_eq_get (length_alphabet ▸ h)]
  exact List.get_mem _ _

theorem bits_letter {n : ℕ} (h : n < 64) : bits (letter n) = some n := by
  rw [bits,if_pos (letter_mem h),letter_eq_get (length_alphabet ▸ h),List.get_eq_getElem,
    nodup_alphabet.idxOf_getElem]

theorem letter_ne_pad {n : ℕ} (h : n < 64) : letter n ≠ '=' :=
  fun heq => absurd (heq ▸ letter_mem h) (by decide)

/-- A byte is put together again from its parts. -/
theorem ofNat_eq {a : UInt8} {n : ℕ} (h : n = a.toNat) : UInt8.ofNat n = a := by
  rw [h,UInt8.ofNat_toNat]

/-- The letters of bytes are read as the bytes. -/
theorem decode_letters (bytes : List UInt8) : decode (letters bytes) = some bytes := by
  fun_induction letters bytes with
  | case1 => rfl
  | case2 a =>
    have ha := a.toNat_lt
    have hx := bits_letter (n := a.toNat / 4) (by omega)
    have hy := bits_letter (n := a.toNat % 4 * 16) (by omega)
    simp only [decode,hx,hy,Option.bind_eq_bind,Option.bind_some]
    rw [if_pos (by omega),ofNat_eq (a := a) (by omega)]
    rfl
  | case3 a b =>
    have ha := a.toNat_lt
    have hb := b.toNat_lt
    have hx := bits_letter (n := a.toNat / 4) (by omega)
    have hy := bits_letter (n := a.toNat % 4 * 16 + b.toNat / 16) (by omega)
    have hz := bits_letter (n := b.toNat % 16 * 4) (by omega)
    simp only [decode,hx,hy,hz,Option.bind_eq_bind,Option.bind_some]
    rw [if_pos (by omega),ofNat_eq (a := a) (by omega),ofNat_eq (a := b) (by omega)]
    rfl
  | case4 a b c rest ih =>
    have ha := a.toNat_lt
    have hb := b.toNat_lt
    have hc := c.toNat_lt
    have hx := bits_letter (n := a.toNat / 4) (by omega)
    have hy := bits_letter (n := a.toNat % 4 * 16 + b.toNat / 16) (by omega)
    have hz := bits_letter (n := b.toNat % 16 * 4 + c.toNat / 64) (by omega)
    have hw := bits_letter (n := c.toNat % 64) (by omega)
    simp only [decode,hx,hy,hz,hw,ih,Option.bind_eq_bind,Option.bind_some]
    rw [ofNat_eq (a := a) (by omega),ofNat_eq (a := b) (by omega),ofNat_eq (a := c) (by omega)]
    rfl

/-- The letters of other bytes are others. -/
theorem letters_injective : Function.Injective letters := fun as bs h =>
  Option.some.inj ((decode_letters as).symm.trans ((congrArg decode h).trans (decode_letters bs)))

theorem ne_pad_of_mem_letters {bytes : List UInt8} {c : Char} (h : c ∈ letters bytes) : c ≠ '=' := by
  fun_induction letters bytes with
  | case1 => cases h
  | case2 a =>
    have ha := a.toNat_lt
    simp only [List.mem_cons,List.not_mem_nil,or_false] at h
    rcases h with rfl | rfl <;> exact letter_ne_pad (by omega)
  | case3 a b =>
    have ha := a.toNat_lt
    have hb := b.toNat_lt
    simp only [List.mem_cons,List.not_mem_nil,or_false] at h
    rcases h with rfl | rfl | rfl <;> exact letter_ne_pad (by omega)
  | case4 a b c rest ih =>
    have ha := a.toNat_lt
    have hb := b.toNat_lt
    have hc := c.toNat_lt
    simp only [List.mem_cons] at h
    rcases h with rfl | rfl | rfl | rfl | h
    iterate 4 exact letter_ne_pad (by omega)
    exact ih h

theorem rdropWhile_replicate (cs : List Char) (n : ℕ) :
    (cs ++ List.replicate n '=').rdropWhile (· = '=') = cs.rdropWhile (· = '=') := by
  induction n with
  | zero => rw [List.replicate_zero,List.append_nil]
  | succ n ih => rw [List.replicate_succ',← List.append_assoc,List.rdropWhile_concat_pos _ _ _ (by simp),ih]

/-- Stripping the padding leaves the letters. -/
theorem strip_encode (bytes : List UInt8) : (encode bytes).rdropWhile (· = '=') = letters bytes := by
  rw [encode,padding,rdropWhile_replicate,List.rdropWhile_eq_self_iff]
  intro hne hpad
  exact ne_pad_of_mem_letters (List.getLast_mem hne) (of_decide_eq_true hpad)

/-- The texts of the test vectors. -/
example : String.ofList (encode [102,111,111,98,97]) = "Zm9vYmE=" ∧ decode "Zm9vYmE".toList =
    some [102,111,111,98,97] ∧ decode "Zm9vYmF".toList = none := by decide

end Base64
