import Podly.Protocol.Unique

/-! What the Rust writer relies on where it reads the texts of the Python client, and a reader that has
it, which leaves floats as they are written. -/
namespace Podly.Protocol
open Json (depth)

section
variable {F : Type}

/-- `serde_json` reads no value that is nested this deep. -/
def recursionLimit : ℕ := 128

/-- The texts of objects are read as what they were written of, up to the limit. -/
def ReadsDumps (repr : F → List Char) (read : List UInt8 → Option (Value F × List UInt8)) : Prop :=
  ∀ fields : Fields F, UniqueKeys (.object fields) → depth (.object fields) < recursionLimit →
    read (dumps repr (.object fields)) = some (.object fields,[])

end

/-- The text of a float. -/
def isDecimal (token : List Char) : Bool :=
  token.all (fun c => c.isDigit || c = '+' || c = '-' || c = '.' || c = 'e') &&
    token.any (fun c => c = '.' || c = 'e')

abbrev Decimal := { token : List Char // isDecimal token }

def readDigits (digits : List Char) : Option ℤ :=
  if digits ≠ [] ∧ digits.all Char.isDigit then some ((Nat.ofDigitChars 10 digits 0 : ℕ) : ℤ)
  else none

def readInt : List Char → Option ℤ
  | [] => none
  | c::digits => if c = '-' then (readDigits digits).map (-·) else readDigits (c::digits)

def toNumber (n : ℤ) : Option Number := if h : -2 ^ 63 ≤ n ∧ n < 2 ^ 64 then some ⟨n,h⟩ else none

def readScalar (token : List Char) : Option (Scalar Decimal) :=
  if token = ['n','u','l','l'] then some .null
  else if token = ['t','r','u','e'] then some (.bool true)
  else if token = ['f','a','l','s','e'] then some (.bool false)
  else if h : isDecimal token then some (.float ⟨token,h⟩)
  else ((readInt token).bind toNumber).map .int

def reader : Json.Reader (Scalar Decimal) where
  decode raw := (Json.Plain.unescape raw).map String.ofList
  scalar := readScalar

/-- A value in UTF-8 that is all there is. -/
def readText (bytes : List UInt8) : Option (Value Decimal × List UInt8) :=
  ((bytes.toByteArray.utf8Decode?.bind (fun text => Json.parse reader text.toList)).filter
    (fun v => depth v < recursionLimit)).map (·,[])

section Ints
variable {n : ℤ} {c : Char}

theorem readDigits_toDigits (n : ℕ) : readDigits (Nat.toDigits 10 n) = some (n : ℤ) := by
  have hdigits : (Nat.toDigits 10 n).all Char.isDigit :=
    List.all_eq_true.mpr fun c hc => Nat.isDigit_of_mem_toDigits (by decide) (by decide) hc
  rw [readDigits,if_pos ⟨Nat.toDigits_ne_nil,hdigits⟩,Nat.ofDigitChars_ten_toDigits]

theorem readInt_of_isDigit {digits : List Char} (h : ∀ c ∈ digits, c.isDigit) :
    readInt digits = readDigits digits := by
  cases digits with
  | nil => rfl
  | cons c digits =>
    have hc : c ≠ '-' := by
      rintro rfl
      exact absurd (h '-' List.mem_cons_self) (by decide)
    rw [readInt,if_neg hc]

theorem readInt_printInt (n : ℤ) : readInt (printInt n) = some n := by
  rw [printInt]
  split_ifs with hneg
  · rw [List.singleton_append,readInt,if_pos rfl,readDigits_toDigits,Option.map_some,
      Int.ofNat_natAbs_of_nonpos (Int.le_of_lt hneg),Int.neg_neg]
  · rw [List.nil_append,readInt_of_isDigit fun c hc =>
      Nat.isDigit_of_mem_toDigits (by decide) (by decide) hc,readDigits_toDigits,
      Int.natAbs_of_nonneg (Int.not_lt.mp hneg)]

theorem printInt_ne_nil (n : ℤ) : printInt n ≠ [] :=
  List.append_ne_nil_of_right_ne_nil _ Nat.toDigits_ne_nil

theorem mem_printInt (hc : c ∈ printInt n) : c.isDigit ∨ c = '-' := by
  rcases List.mem_append.mp hc with hc | hc
  · right
    split_ifs at hc
    · exact List.mem_singleton.mp hc
    · cases hc
  · exact .inl (Nat.isDigit_of_mem_toDigits (by decide) (by decide) hc)

/-- An integer is not written as anything else. -/
theorem readScalar_printInt (n : Number) : readScalar (printInt n) = some (.int n) := by
  have hne : ∀ token : List Char, (∃ c ∈ token, ¬(c.isDigit ∨ c = '-')) → printInt n ≠ token := by
    rintro token ⟨c,hc,hbad⟩ rfl
    exact hbad (mem_printInt hc)
  have hdecimal : ¬isDecimal (printInt n) := by
    intro h
    rw [isDecimal,Bool.and_eq_true] at h
    obtain ⟨c,hc,hmark⟩ := List.any_eq_true.mp h.2
    rcases mem_printInt hc with hdigit | rfl
    · simp only [Bool.or_eq_true,decide_eq_true_eq] at hmark
      rcases hmark with rfl | rfl <;> exact absurd hdigit (by decide)
    · exact absurd hmark (by decide)
  rw [readScalar,if_neg (hne _ ⟨'n',by decide,by decide⟩),if_neg (hne _ ⟨'t',by decide,by decide⟩),
    if_neg (hne _ ⟨'f',by decide,by decide⟩),dif_neg hdecimal,readInt_printInt,Option.bind_some,toNumber,
    dif_pos n.property]
  rfl

end Ints

/-- A scalar is read as it was written. -/
theorem readScalar_printScalar (x : Scalar Decimal) :
    readScalar (printScalar Subtype.val x) = some x := by
  cases x with
  | null => rfl
  | bool b => cases b <;> rfl
  | int n => exact readScalar_printInt n
  | float x =>
    obtain ⟨token,htoken⟩ := x
    have hne : ∀ other : List Char, isDecimal other = false → token ≠ other := by
      rintro other hother rfl
      rw [hother] at htoken
      cases htoken
    rw [printScalar,readScalar,if_neg (hne _ (by decide)),if_neg (hne _ (by decide)),
      if_neg (hne _ (by decide)),dif_pos htoken]

theorem unescape_escape (c : Char) (cs : List Char) :
    Json.Plain.unescape (escape c ++ cs) = (Json.Plain.unescape cs).map (c::·) := by
  rw [escape]
  split_ifs with hline hreturn htab hback hfeed
  · subst hline
    rfl
  · subst hreturn
    rfl
  · subst htab
    rfl
  · subst hback
    rfl
  · subst hfeed
    rfl
  · exact Json.Plain.unescape_escape c cs

theorem wellQuoted_escape (c : Char) (cs : List Char) :
    Json.wellQuoted false (escape c ++ cs) = Json.wellQuoted false cs := by
  rw [escape]
  split_ifs
  · rfl
  · rfl
  · rfl
  · rfl
  · rfl
  · exact Json.Plain.wellQuoted_escape c cs

theorem unescape_quote (cs : List Char) : Json.Plain.unescape (cs.flatMap escape) = some cs := by
  induction cs with
  | nil => rfl
  | cons c cs ih =>
    rw [List.flatMap_cons,unescape_escape,ih]
    rfl

theorem wellQuoted_quote (cs : List Char) : Json.wellQuoted false (cs.flatMap escape) := by
  induction cs with
  | nil => rfl
  | cons c cs ih => rwa [List.flatMap_cons,wellQuoted_escape]

theorem isScalarChar_of_isDigit {c : Char} (h : c.isDigit) : Json.isScalarChar c := by
  simp [Json.isScalarChar,Char.isAlphanum,h]

/-- The characters of a scalar are those of one. -/
theorem isScalarChar_printScalar (x : Scalar Decimal) :
    printScalar Subtype.val x ≠ [] ∧ ∀ c ∈ printScalar Subtype.val x, Json.isScalarChar c := by
  cases x with
  | null => exact ⟨List.cons_ne_nil _ _,List.all_eq_true.mp rfl⟩
  | bool b => cases b <;> exact ⟨List.cons_ne_nil _ _,List.all_eq_true.mp rfl⟩
  | int n =>
    refine ⟨printInt_ne_nil n,fun c hc => ?_⟩
    rcases mem_printInt hc with hdigit | rfl
    · exact isScalarChar_of_isDigit hdigit
    · decide
  | float x =>
    obtain ⟨token,htoken⟩ := x
    obtain ⟨hall,hmark⟩ := Bool.and_eq_true_iff.mp htoken
    obtain ⟨c,hc,-⟩ := List.any_eq_true.mp hmark
    refine ⟨List.ne_nil_of_mem hc,fun c hc => ?_⟩
    have hchar := List.all_eq_true.mp hall c hc
    simp only [Bool.or_eq_true,decide_eq_true_eq] at hchar
    rcases hchar with (((hdigit | rfl) | rfl) | rfl) | rfl
    · exact isScalarChar_of_isDigit hdigit
    all_goals decide

def printer : Json.Printer reader where
  quote := quote
  print := printScalar Subtype.val
  wellQuoted_quote s := wellQuoted_quote s.toList
  decode_quote s := by
    change (Json.Plain.unescape _).map _ = _
    rw [quote,unescape_quote,Option.map_some,String.ofList_toList]
  print_ne_nil x := (isScalarChar_printScalar x).1
  isScalarChar_print x := (isScalarChar_printScalar x).2
  scalar_print := readScalar_printScalar

theorem readsDumps_readText : ReadsDumps Subtype.val readText := by
  intro fields _ hdepth
  have hparse : Json.parse reader (Json.written quote (printScalar Subtype.val) [] (.object fields)) =
      some (.object fields) := Json.parse_written printer (by simp) fields
  have hdecode : (dumps Subtype.val (.object fields)).toByteArray.utf8Decode? =
      some (Json.written quote (printScalar Subtype.val) [] (.object fields)).toArray :=
    List.utf8Decode?_utf8Encode
  rw [readText,hdecode,Option.bind_some,List.toList_toArray,hparse,Option.filter_some,
    if_pos (decide_eq_true hdepth)]
  rfl

end Podly.Protocol
