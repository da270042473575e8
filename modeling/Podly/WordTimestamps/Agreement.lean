import Podly.WordTimestamps.Readers

/-! When the normalisers of word timestamps agree, and when what they return stays as it is. -/
namespace Podly.WordTimestamps
open Floats Lists Numerals Serde WordBoundary

/-- A stored number as JSON, which has only finite ones. -/
def numberValue : Option Extended → Option Value
  | none => some .null
  | some x => x.toRat.map Value.float

def Word.toValue (word : Word) : Option Value :=
  match numberValue word.start, numberValue word.stop, numberValue word.score with
  | some start, some stop, some score =>
    some (.object [("word",.str word.word),("start",start),("end",stop),("score",score)])
  | _, _, _ => none

def Segment.toValue (segment : Segment) : Option Value :=
  (segment.words.mapM Word.toValue).map (fun words =>
    .object [("sequence_num",.int segment.sequenceNum),("words",.array words)])

/-- The stored column: null instead of an empty list. -/
def columnValue (segments : List Segment) : Option Value :=
  if segments = [] then some .null else (segments.mapM Segment.toValue).map Value.array

/-- All normalisers fail, or they return the same, which none of them changes. -/
def Agree (T : Texts) (payload : Value) : Prop :=
  (∀ R ∈ [pythonReader T,rustReader T,sidecarReader T], R.normalize payload = none) ∨
    ∃ segments column, columnValue segments = some column ∧
      ∀ R ∈ [pythonReader T,rustReader T,sidecarReader T],
        R.normalize payload = some segments ∧ R.normalize column = some segments

namespace Reader

/-- A word that a normaliser leaves out: a field is missing or no such value, or it ends before it
starts. -/
def Drops (R : Reader) (value : Value) : Prop :=
  ∀ rawWord, value.get "word" = some rawWord → ∀ rawStart, value.get "start" = some rawStart →
    ∀ rawEnd, value.get "end" = some rawEnd → ∀ word, R.text rawWord = some word →
      ∀ start, R.float rawStart = some start → ∀ stop, R.float rawEnd = some stop → stop < start

/-- A normaliser that leaves its own output as it is. -/
structure Faithful (R : Reader) : Prop where
  int : ∀ n, InI64 n → R.int (.int n) = some n
  text : ∀ s, R.text (.str s) = some s
  float : ∀ q, R.float (.float q) = some (Extended.ofRat q)
  number : ∀ q, R.number (Extended.ofRat q) = some (Extended.ofRat q)
  noScore : R.score .null = some none
  score : ∀ q, R.score (.float q) = some (some (Extended.ofRat q))

end Reader

section
variable (T : Texts)

/-- A word that all normalisers keep alike: they print it alike, its times and its score are finite
numbers that need no leniency, and it does not end before it starts. -/
def KeptAlike (value : Value) : Prop :=
  ∃ rawWord rawStart rawEnd word start stop, value.get "word" = some rawWord ∧
    value.get "start" = some rawStart ∧ value.get "end" = some rawEnd ∧
    (∀ R ∈ [pythonReader T,rustReader T,sidecarReader T], R.text rawWord = some word) ∧
    valueToF64 rawStart = some (Extended.ofRat start) ∧
    valueToF64 rawEnd = some (Extended.ofRat stop) ∧ start ≤ stop ∧
    ((value.get "score").getD .null = .null ∨
      ∃ score, valueToF64 ((value.get "score").getD .null) = some (Extended.ofRat score))

/-- A word that all keep alike, or that both writers leave out. -/
def WordAlike (value : Value) : Prop :=
  KeptAlike T value ∨ ∀ R ∈ [pythonReader T,rustReader T], R.Drops value

/-- An entry under one number with words that are all alike, or one of which nobody keeps a word. -/
def SegmentAlike (value : Value) : Prop :=
  ∀ sequence words, value.get "sequence_num" = some sequence →
    value.get "words" = some (.array words) →
    ((∃ n, ∀ R ∈ [pythonReader T,rustReader T,sidecarReader T], R.int sequence = some n) ∧
      ∀ word ∈ words, WordAlike T word) ∨
    ∀ R ∈ [pythonReader T,rustReader T,sidecarReader T],
      R.int sequence = none ∨ ∀ word ∈ words, R.Drops word

/-- A payload of which every entry is alike to all normalisers. -/
def Alike (payload : Value) : Prop :=
  ∀ segments, payload = .array segments → ∀ segment ∈ segments, SegmentAlike T segment

end

/-- No number of a segment is written in more digits than Python reads. -/
def ShortNumbers (payload : Value) : Prop :=
  ∀ segments, payload = .array segments → ∀ segment ∈ segments, ∀ text,
    segment.get "sequence_num" = some (.str text) →
      text.toList.countP Char.isDigit ≤ maxDigits

section Strict
variable {T : Texts} {value : Value}

theorem trim_of_isNumeral {s : String} (h : s.toList.all isNumeral) : trim s = s.toList := by
  have hspace : ∀ c ∈ s.toList, isWhitespace c = false := by
    intro c hc
    obtain ⟨hascii,hblank,-⟩ := isNumeral_cases (List.all_eq_true.mp h c hc)
    have hne : c.toNat ≠ 32 := by
      intro hcode
      have hc : c = ' ' := Char.ext (UInt32.toNat_inj.mp hcode)
      rw [hc] at hblank
      revert hblank
      decide
    simp only [isBlank,Bool.or_eq_false_iff,Bool.and_eq_false_iff,decide_eq_false_iff_not] at hblank
    simp only [isWhitespace,Bool.or_eq_false_iff,Bool.and_eq_false_iff,decide_eq_false_iff_not]
    omega
  have hdrop : s.toList.dropWhile isWhitespace = s.toList := by
    cases htext : s.toList with
    | nil => rfl
    | cons c text => exact List.dropWhile_cons_of_neg (by simp [hspace c (htext ▸ List.mem_cons_self)])
  rw [trim,Strings.trimmed,hdrop,List.rdropWhile_eq_self_iff]
  exact fun hne => by simp [hspace _ (List.getLast_mem hne)]

theorem asI64_eq_some {m n : ℤ} : (Value.int m).asI64 = some n ↔ m = n ∧ InI64 n := by
  by_cases hm : InI64 m
  · rw [Value.asI64_int hm,Option.some.injEq]
    exact ⟨fun h => ⟨h,h ▸ hm⟩,And.left⟩
  · have hnone : (Value.int m).asI64 = none := if_neg hm
    rw [hnone]
    exact ⟨nofun,fun h => absurd (h.1 ▸ h.2) hm⟩

/-- What the sidecar reads as a number, the writers read as the same number. -/
theorem float_of_valueToF64 {x : Extended} (h : valueToF64 value = some x) :
    (pythonReader T).float value = some x ∧ (rustReader T).float value = some x := by
  cases value with
  | str s =>
    have hnumeral := decimal_isNumeral h
    refine ⟨Script.float_of_decimal h,?_⟩
    change decimal (trim s) = some x
    rw [trim_of_isNumeral hnumeral]
    exact h
  | int n => exact ⟨h,h⟩
  | float q => exact ⟨h,h⟩
  | _ => cases h

theorem int_of_valueToI64 {n : ℤ} (h : valueToI64 value = some n) :
    (rustReader T).int value = some n := by
  cases value with
  | str s =>
    have hnumeral := integer_isNumeral (Serde.parseI64_eq_some.mp h).1
    change Serde.parseI64 (trim s) = some n
    rw [trim_of_isNumeral hnumeral]
    exact h
  | int m =>
    change (Value.asI64 (.int m) <|> _) = some n
    rw [show Value.asI64 (.int m) = some n from h]
    rfl
  | _ => cases h

/-- So it is with whole numbers, as long as Python does not find them too long. -/
theorem pythonInt_of_valueToI64 {n : ℤ} (h : valueToI64 value = some n)
    (hshort : ∀ text, value = .str text → text.toList.countP Char.isDigit ≤ maxDigits) :
    (pythonReader T).int value = some n := by
  cases value with
  | str s => exact Script.int_of_integer (Serde.parseI64_eq_some.mp h).1 (hshort s rfl)
  | int m => exact congrArg some (asI64_eq_some.mp h).1
  | _ => cases h

theorem inI64_of_valueToI64 {n : ℤ} (h : valueToI64 value = some n) : InI64 n := by
  cases value with
  | str s => exact (Serde.parseI64_eq_some.mp h).2
  | int m => exact (asI64_eq_some.mp h).2
  | _ => cases h

/-- What the sidecar takes for a word, the writers do too. -/
theorem text_of_valueToString {word : String} (h : valueToString T value = some word) :
    (∃ word', (pythonReader T).text value = some word') ∧
      ∃ word', (rustReader T).text value = some word' := by
  refine ⟨?_,_,rfl⟩
  cases value with
  | null => cases h
  | str s => exact ⟨_,rfl⟩
  | _ => exact ⟨_,rfl⟩

end Strict

section Words
variable {T : Texts} {R : Reader} {value : Value} {word : Word}

/-- A word is left out exactly if it is one that the normaliser drops. -/
theorem readWord_eq_skip : R.readWord value = some none ↔ R.Drops value := by
  unfold Reader.readWord Reader.Drops
  cases value.get "word" with
  | none => simp
  | some rawWord =>
    cases value.get "start" with
    | none => simp
    | some rawStart =>
      cases value.get "end" with
      | none => simp
      | some rawEnd =>
        simp only [Option.some.injEq,forall_eq']
        cases R.text rawWord with
        | none => simp
        | some text =>
          cases R.float rawStart with
          | none => simp
          | some start =>
            cases R.float rawEnd with
            | none => simp
            | some stop =>
              by_cases hlt : stop < start
              · simp [hlt]
              · simp [hlt]

/-- What is read of a word that is kept. -/
theorem readWord_eq_keep : R.readWord value = some (some word) ↔
    ∃ rawWord rawStart rawEnd text start stop score, value.get "word" = some rawWord ∧
      value.get "start" = some rawStart ∧ value.get "end" = some rawEnd ∧
      R.text rawWord = some text ∧ R.float rawStart = some start ∧ R.float rawEnd = some stop ∧
      ¬stop < start ∧ R.score ((value.get "score").getD .null) = some score ∧
      word = ⟨text,R.number start,R.number stop,score⟩ := by
  unfold Reader.readWord
  cases value.get "word" with
  | none => simp
  | some rawWord =>
    cases value.get "start" with
    | none => simp
    | some rawStart =>
      cases value.get "end" with
      | none => simp
      | some rawEnd =>
        simp only [Option.some.injEq,exists_and_left,exists_eq_left']
        cases R.text rawWord with
        | none => simp
        | some text =>
          cases R.float rawStart with
          | none => simp
          | some start =>
            cases R.float rawEnd with
            | none => simp
            | some stop =>
              by_cases hlt : stop < start
              · simp [hlt]
              · simp [hlt,eq_comm]

/-- The sidecar fails on no word. -/
theorem sidecar_readWord_isSome (T : Texts) (value : Value) :
    ((sidecarReader T).readWord value).isSome := by
  unfold Reader.readWord
  split
  · split
    · split
      · rfl
      · rfl
    · rfl
  · rfl

/-- What the sidecar keeps, neither writer leaves out. -/
theorem not_drops_of_kept (h : (sidecarReader T).readWord value = some (some word)) :
    ¬(pythonReader T).Drops value ∧ ¬(rustReader T).Drops value := by
  obtain ⟨rawWord,rawStart,rawEnd,text,start,stop,score,hword,hstart,hstop,htext,hfloat,hfloat',hle,
    -,-⟩ := readWord_eq_keep.mp h
  obtain ⟨⟨text₁,htext₁⟩,text₂,htext₂⟩ := text_of_valueToString htext
  obtain ⟨hfloat₁,hfloat₂⟩ := float_of_valueToF64 (T := T) hfloat
  obtain ⟨hfloat₁',hfloat₂'⟩ := float_of_valueToF64 (T := T) hfloat'
  exact ⟨fun hdrop => hle (hdrop _ hword _ hstart _ hstop _ htext₁ _ hfloat₁ _ hfloat₁'),
    fun hdrop => hle (hdrop _ hword _ hstart _ hstop _ htext₂ _ hfloat₂ _ hfloat₂')⟩

theorem jsonNumber_eq_some {x y : Extended} (h : jsonNumber x = some y) :
    ∃ q, x = Extended.ofRat q ∧ y = Extended.ofRat q := by
  obtain ⟨q,hq,rfl⟩ := Option.map_eq_some_iff.mp h
  exact ⟨q,Extended.toRat_eq_some.mp hq,rfl⟩

@[simp] theorem jsonNumber_ofRat (q : ℚ) : jsonNumber (Extended.ofRat q) = some (Extended.ofRat q) :=
  rfl

/-- A stored word that no normaliser changes. -/
structure Word.Normal (word : Word) : Prop where
  times : ∃ start stop, word.start = some (Extended.ofRat start) ∧
    word.stop = some (Extended.ofRat stop) ∧ start ≤ stop
  score : word.score = none ∨ ∃ score, word.score = some (Extended.ofRat score)

theorem not_ofRat_lt {p q : ℚ} (h : p ≤ q) : ¬Extended.ofRat q < Extended.ofRat p := by
  rw [Extended.ofRat_lt]
  exact not_lt.mpr h

/-- A score that is alike to all. -/
theorem score_alike {rawScore : Value} (h : rawScore = .null ∨
    ∃ score, valueToF64 rawScore = some (Extended.ofRat score)) :
    ∃ stored, (stored = none ∨ ∃ score, stored = some (Extended.ofRat score)) ∧
      ∀ R ∈ [pythonReader T,rustReader T,sidecarReader T], R.score rawScore = some stored := by
  rcases h with rfl | ⟨score,hscore⟩
  · refine ⟨none,.inl rfl,?_⟩
    simp [pythonReader,rustReader,sidecarReader,valueToF64,asF64]
  · obtain ⟨hpython,hrust⟩ := float_of_valueToF64 (T := T) hscore
    have hne : rawScore ≠ .null := by
      rintro rfl
      cases hscore
    refine ⟨some (Extended.ofRat score),.inr ⟨score,rfl⟩,?_⟩
    intro R hR
    simp only [List.mem_cons,List.not_mem_nil,or_false] at hR
    rcases hR with rfl | rfl | rfl
    · have hscore' : (pythonReader T).score rawScore =
          ((pythonReader T).float rawScore).map some := by cases rawScore <;> trivial
      rw [hscore',hpython]
      rfl
    · have hscore' : (rustReader T).score rawScore =
          ((rustReader T).float rawScore).map jsonNumber := by cases rawScore <;> trivial
      rw [hscore',hrust]
      rfl
    · change some ((valueToF64 rawScore).bind jsonNumber) = _
      rw [hscore]
      rfl

/-- A word that is kept alike is read as the same word, which no normaliser changes. -/
theorem KeptAlike.readWord (h : KeptAlike T value) : ∃ word : Word, word.Normal ∧
    ∀ R ∈ [pythonReader T,rustReader T,sidecarReader T], R.readWord value = some (some word) := by
  obtain ⟨rawWord,rawStart,rawEnd,text,start,stop,hword,hstart,hstop,htext,hfloat,hfloat',hle,
    hscore⟩ := h
  obtain ⟨stored,hstored,hscores⟩ := score_alike (T := T) hscore
  refine ⟨⟨text,some (Extended.ofRat start),some (Extended.ofRat stop),stored⟩,
    ⟨⟨start,stop,rfl,rfl,hle⟩,hstored⟩,?_⟩
  have hfloats : ∀ R ∈ [pythonReader T,rustReader T,sidecarReader T],
      R.float rawStart = some (Extended.ofRat start) ∧
        R.float rawEnd = some (Extended.ofRat stop) ∧
        ∀ q, R.number (Extended.ofRat q) = some (Extended.ofRat q) := by
    intro R hR
    simp only [List.mem_cons,List.not_mem_nil,or_false] at hR
    obtain ⟨hpython,hrust⟩ := float_of_valueToF64 (T := T) hfloat
    obtain ⟨hpython',hrust'⟩ := float_of_valueToF64 (T := T) hfloat'
    rcases hR with rfl | rfl | rfl
    · exact ⟨hpython,hpython',fun q => rfl⟩
    · exact ⟨hrust,hrust',fun q => rfl⟩
    · exact ⟨hfloat,hfloat',fun q => rfl⟩
  intro R hR
  obtain ⟨hR₁,hR₂,hnumber⟩ := hfloats R hR
  refine readWord_eq_keep.mpr ⟨rawWord,rawStart,rawEnd,text,_,_,stored,hword,hstart,hstop,
    htext R hR,hR₁,hR₂,not_ofRat_lt hle,hscores R hR,?_⟩
  rw [hnumber,hnumber]

/-- A score that Python and the sidecar store alike is alike to all. -/
theorem score_of_alike {rawScore : Value} {stored : Option Extended}
    (hpython : (pythonReader T).score rawScore = some stored)
    (hsidecar : (sidecarReader T).score rawScore = some stored) :
    rawScore = .null ∨ ∃ score, valueToF64 rawScore = some (Extended.ofRat score) := by
  by_cases hnull : rawScore = .null
  · exact .inl hnull
  · right
    have hmap : ((pythonReader T).float rawScore).map some = some stored := by
      rw [← hpython]
      cases rawScore <;> trivial
    obtain ⟨x,-,rfl⟩ := Option.map_eq_some_iff.mp hmap
    obtain ⟨y,hy,hnumber⟩ := Option.bind_eq_some_iff.mp (Option.some.inj hsidecar)
    obtain ⟨q,rfl,-⟩ := jsonNumber_eq_some hnumber
    exact ⟨q,hy⟩

/-- A word is kept alike if all read the same of it. -/
theorem keptAlike_of_readWord
    (hpython : (pythonReader T).readWord value = some (some word))
    (hrust : (rustReader T).readWord value = some (some word))
    (hsidecar : (sidecarReader T).readWord value = some (some word)) : KeptAlike T value := by
  obtain ⟨rawWord,rawStart,rawEnd,text,start,stop,score,hword,hstart,hstop,htext,hfloat,hfloat',hle,
    hscore,rfl⟩ := readWord_eq_keep.mp hsidecar
  obtain ⟨rawWord₁,rawStart₁,rawEnd₁,text₁,start₁,stop₁,score₁,hword₁,hstart₁,hstop₁,htext₁,
    hfloat₁,hfloat₁',-,hscore₁,heq₁⟩ := readWord_eq_keep.mp hpython
  obtain ⟨rawWord₂,_,_,text₂,_,_,_,hword₂,-,-,htext₂,-,-,-,-,heq₂⟩ := readWord_eq_keep.mp hrust
  obtain rfl : rawWord = rawWord₁ := Option.some.inj (hword.symm.trans hword₁)
  obtain rfl : rawWord = rawWord₂ := Option.some.inj (hword.symm.trans hword₂)
  obtain rfl : rawStart = rawStart₁ := Option.some.inj (hstart.symm.trans hstart₁)
  obtain rfl : rawEnd = rawEnd₁ := Option.some.inj (hstop.symm.trans hstop₁)
  obtain ⟨hsame,-⟩ := float_of_valueToF64 (T := T) hfloat
  obtain ⟨hsame',-⟩ := float_of_valueToF64 (T := T) hfloat'
  obtain rfl : start = start₁ := Option.some.inj (hsame.symm.trans hfloat₁)
  obtain rfl : stop = stop₁ := Option.some.inj (hsame'.symm.trans hfloat₁')
  obtain ⟨rfl,hnumber,hnumber',rfl⟩ := Word.mk.inj heq₁
  obtain ⟨rfl,-,-,-⟩ := Word.mk.inj heq₂
  obtain ⟨p,rfl,-⟩ := jsonNumber_eq_some (hnumber : jsonNumber start = some start)
  obtain ⟨q,rfl,-⟩ := jsonNumber_eq_some (hnumber' : jsonNumber stop = some stop)
  refine ⟨rawWord,rawStart,rawEnd,text,p,q,hword,hstart,hstop,?_,hfloat,hfloat',?_,
    score_of_alike hscore₁ hscore⟩
  · simp only [List.forall_mem_cons,List.not_mem_nil,false_implies,implies_true,and_true]
    exact ⟨htext₁,htext₂,htext⟩
  · rw [Extended.ofRat_lt] at hle
    exact not_lt.mp hle

/-- A word is alike exactly if all read the same of it. -/
theorem wordAlike_iff : WordAlike T value ↔
    (pythonReader T).readWord value = (sidecarReader T).readWord value ∧
      (rustReader T).readWord value = (sidecarReader T).readWord value := by
  constructor
  · rintro (hkept | hdrops)
    · obtain ⟨word,-,hread⟩ := hkept.readWord
      rw [hread _ (by simp),hread _ (by simp),hread _ (by simp)]
      exact ⟨rfl,rfl⟩
    · have hpython := readWord_eq_skip.mpr (hdrops (pythonReader T) (by simp))
      have hrust := readWord_eq_skip.mpr (hdrops (rustReader T) (by simp))
      have hsidecar : (sidecarReader T).readWord value = some none := by
        obtain ⟨found,hfound⟩ := Option.isSome_iff_exists.mp (sidecar_readWord_isSome T value)
        cases found with
        | none => exact hfound
        | some word => exact absurd (hdrops _ (by simp)) (not_drops_of_kept hfound).1
      rw [hpython,hrust,hsidecar]
      exact ⟨rfl,rfl⟩
  · rintro ⟨hpython,hrust⟩
    obtain ⟨found,hfound⟩ := Option.isSome_iff_exists.mp (sidecar_readWord_isSome T value)
    rw [hfound] at hpython hrust
    cases found with
    | none =>
      right
      simp only [List.forall_mem_cons,List.not_mem_nil,false_implies,implies_true,and_true]
      exact ⟨readWord_eq_skip.mp hpython,readWord_eq_skip.mp hrust⟩
    | some word => exact .inl (keptAlike_of_readWord hpython hrust hfound)

end Words

section Segments
variable {T : Texts} {R : Reader} {value sequence : Value} {words : List Value} {segment : Segment}

theorem readSegment_eq (hsequence : value.get "sequence_num" = some sequence)
    (hwords : value.get "words" = some (.array words)) : R.readSegment value =
      match R.int sequence with
      | none => some none
      | some sequence => (readAll R.readWord words).map
          (fun words => if words = [] then none else some ⟨sequence,words⟩) := by
  cases hint : R.int sequence with
  | none => simp only [Reader.readSegment,hsequence,hwords,hint]
  | some sequence => simp only [Reader.readSegment,hsequence,hwords,hint]

/-- An entry is left out exactly if its number is none or all of its words are dropped. -/
theorem readSegment_eq_skip (hsequence : value.get "sequence_num" = some sequence)
    (hwords : value.get "words" = some (.array words)) : R.readSegment value = some none ↔
      R.int sequence = none ∨ ∀ word ∈ words, R.Drops word := by
  have hdrops : (∀ word ∈ words, R.Drops word) ↔ readAll R.readWord words = some [] := by
    rw [readAll_eq_nil_iff]
    exact forall₂_congr (fun word _ => readWord_eq_skip.symm)
  rw [readSegment_eq hsequence hwords,hdrops]
  cases R.int sequence with
  | none => simp
  | some n =>
    cases readAll R.readWord words with
    | none => simp
    | some kept => cases kept <;> simp

/-- What is read of an entry that is kept. -/
theorem readSegment_eq_keep (hsequence : value.get "sequence_num" = some sequence)
    (hwords : value.get "words" = some (.array words)) :
    R.readSegment value = some (some segment) ↔ R.int sequence = some segment.sequenceNum ∧
      readAll R.readWord words = some segment.words ∧ segment.words ≠ [] := by
  obtain ⟨number,stored⟩ := segment
  rw [readSegment_eq hsequence hwords]
  cases R.int sequence with
  | none => simp
  | some n =>
    cases readAll R.readWord words with
    | none => simp
    | some kept =>
      cases kept with
      | nil =>
        simp only [Option.map_some,if_true,Option.some.injEq,reduceCtorEq,false_iff]
        rintro ⟨-,rfl,hne⟩
        exact hne rfl
      | cons word kept =>
        simp only [Option.map_some,reduceCtorEq,if_false,Option.some.injEq,Segment.mk.injEq]
        constructor
        · rintro ⟨rfl,rfl⟩
          exact ⟨rfl,rfl,List.cons_ne_nil _ _⟩
        · rintro ⟨rfl,rfl,-⟩
          exact ⟨rfl,rfl⟩

theorem sidecar_readAll (T : Texts) (words : List Value) :
    ∃ kept, readAll (sidecarReader T).readWord words = some kept :=
  ⟨_,readAll_eq_some_iff.mpr ⟨fun word _ => sidecar_readWord_isSome T word,rfl⟩⟩

/-- The sidecar fails on no entry. -/
theorem sidecar_readSegment_isSome (T : Texts) (value : Value) :
    ((sidecarReader T).readSegment value).isSome := by
  unfold Reader.readSegment
  split
  · rename_i words _ _
    split
    · rfl
    · obtain ⟨kept,hkept⟩ := sidecar_readAll T words
      rw [hkept]
      rfl
  · rfl

theorem readSegment_of_missing (h : ∀ sequence words, value.get "sequence_num" = some sequence →
    value.get "words" ≠ some (.array words)) : R.readSegment value = some none := by
  rw [Reader.readSegment]
  split
  · rename_i sequence words hsequence hwords
    exact absurd hwords (h sequence words hsequence)
  · rfl

/-- The writers read what the sidecar does if they do so of the number and of every word. -/
theorem readSegment_eq_of_words {R' : Reader} {n : ℤ}
    (hsequence : value.get "sequence_num" = some sequence)
    (hwords : value.get "words" = some (.array words)) (hint : R.int sequence = some n)
    (hint' : R'.int sequence = some n) (hread : ∀ word ∈ words, R.readWord word = R'.readWord word) :
    R.readSegment value = R'.readSegment value := by
  rw [readSegment_eq hsequence hwords,readSegment_eq hsequence hwords,hint,hint',readAll_congr hread]

theorem SegmentAlike.readSegment_eq (h : SegmentAlike T value)
    (hsequence : value.get "sequence_num" = some sequence)
    (hwords : value.get "words" = some (.array words)) :
    (pythonReader T).readSegment value = (sidecarReader T).readSegment value ∧
      (rustReader T).readSegment value = (sidecarReader T).readSegment value := by
  rcases h sequence words hsequence hwords with ⟨⟨n,hint⟩,hall⟩ | hskip
  · have hsidecar := hint (sidecarReader T) (by simp)
    exact ⟨readSegment_eq_of_words hsequence hwords (hint _ (by simp)) hsidecar
        (fun word hword => (wordAlike_iff.mp (hall word hword)).1),
      readSegment_eq_of_words hsequence hwords (hint _ (by simp)) hsidecar
        (fun word hword => (wordAlike_iff.mp (hall word hword)).2)⟩
  · rw [(readSegment_eq_skip hsequence hwords).mpr (hskip (pythonReader T) (by simp)),
      (readSegment_eq_skip hsequence hwords).mpr (hskip (rustReader T) (by simp)),
      (readSegment_eq_skip hsequence hwords).mpr (hskip (sidecarReader T) (by simp))]
    exact ⟨rfl,rfl⟩

/-- An entry of which all read the same is alike. -/
theorem segmentAlike_of_readSegment
    (hpython : (pythonReader T).readSegment value = (sidecarReader T).readSegment value)
    (hrust : (rustReader T).readSegment value = (sidecarReader T).readSegment value) :
    SegmentAlike T value := by
  intro sequence words hsequence hwords
  obtain ⟨found,hfound⟩ := Option.isSome_iff_exists.mp (sidecar_readSegment_isSome T value)
  rw [hfound] at hpython hrust
  cases found with
  | none =>
    right
    simp only [List.forall_mem_cons,List.not_mem_nil,false_implies,implies_true,and_true]
    exact ⟨(readSegment_eq_skip hsequence hwords).mp hpython,
      (readSegment_eq_skip hsequence hwords).mp hrust,
      (readSegment_eq_skip hsequence hwords).mp hfound⟩
  | some segment =>
    obtain ⟨hint,hkept,-⟩ := (readSegment_eq_keep hsequence hwords).mp hfound
    obtain ⟨hint₁,hkept₁,-⟩ := (readSegment_eq_keep hsequence hwords).mp hpython
    obtain ⟨hint₂,hkept₂,-⟩ := (readSegment_eq_keep hsequence hwords).mp hrust
    left
    refine ⟨⟨segment.sequenceNum,?_⟩,?_⟩
    · simp only [List.forall_mem_cons,List.not_mem_nil,false_implies,implies_true,and_true]
      exact ⟨hint₁,hint₂,hint⟩
    · intro word hword
      have hsame₁ := read_eq_of_readAll hkept hkept₁ (fun value _ word h hskip =>
        (not_drops_of_kept h).1 (readWord_eq_skip.mp hskip)) word hword
      have hsame₂ := read_eq_of_readAll hkept hkept₂ (fun value _ word h hskip =>
        (not_drops_of_kept h).2 (readWord_eq_skip.mp hskip)) word hword
      exact wordAlike_iff.mpr ⟨hsame₁,hsame₂⟩

/-- An entry is alike exactly if all read the same of it. -/
theorem segmentAlike_iff : SegmentAlike T value ↔
    (pythonReader T).readSegment value = (sidecarReader T).readSegment value ∧
      (rustReader T).readSegment value = (sidecarReader T).readSegment value := by
  refine ⟨?_,fun h => segmentAlike_of_readSegment h.1 h.2⟩
  intro h
  by_cases hentry : ∃ sequence words, value.get "sequence_num" = some sequence ∧
      value.get "words" = some (.array words)
  · obtain ⟨sequence,words,hsequence,hwords⟩ := hentry
    exact h.readSegment_eq hsequence hwords
  · have hmissing : ∀ sequence words, value.get "sequence_num" = some sequence →
        value.get "words" ≠ some (.array words) :=
      fun sequence words hsequence hwords => hentry ⟨sequence,words,hsequence,hwords⟩
    rw [readSegment_of_missing hmissing,readSegment_of_missing hmissing,
      readSegment_of_missing hmissing]
    exact ⟨rfl,rfl⟩

/-- What is read of an entry that is kept, which has a number and words. -/
theorem entry_of_kept (hfound : R.readSegment value = some (some segment)) :
    ∃ sequence words, value.get "sequence_num" = some sequence ∧
      value.get "words" = some (.array words) ∧ R.int sequence = some segment.sequenceNum ∧
      readAll R.readWord words = some segment.words ∧ segment.words ≠ [] := by
  by_cases hentry : ∃ sequence words, value.get "sequence_num" = some sequence ∧
      value.get "words" = some (.array words)
  · obtain ⟨sequence,words,hsequence,hwords⟩ := hentry
    exact ⟨sequence,words,hsequence,hwords,(readSegment_eq_keep hsequence hwords).mp hfound⟩
  · rw [readSegment_of_missing
      (fun sequence words hsequence hwords => hentry ⟨sequence,words,hsequence,hwords⟩)] at hfound
    cases hfound

/-- An entry that the sidecar keeps, a writer does not leave out if it takes the number. -/
theorem not_skips_of_kept (hfound : (sidecarReader T).readSegment value = some (some segment))
    (hint : ∀ sequence, value.get "sequence_num" = some sequence →
      (sidecarReader T).int sequence = some segment.sequenceNum → R.int sequence ≠ none)
    (hwordsKept : ∀ value word, (sidecarReader T).readWord value = some (some word) →
      ¬R.Drops value) : R.readSegment value ≠ some none := by
  obtain ⟨sequence,words,hsequence,hwords,hnumber,hkept,hne⟩ := entry_of_kept hfound
  rw [ne_eq,readSegment_eq_skip hsequence hwords]
  rintro (hnone | hdrops)
  · exact hint sequence hsequence hnumber hnone
  · apply hne
    rw [(readAll_eq_some_iff.mp hkept).2,List.filterMap_eq_nil_iff]
    intro word hword
    obtain ⟨found,hread⟩ := Option.isSome_iff_exists.mp (sidecar_readWord_isSome T word)
    rw [hread]
    cases found with
    | none => rfl
    | some kept => exact absurd (hdrops word hword) (hwordsKept word kept hread)

end Segments

section Columns
variable {T : Texts} {R : Reader} {payload : Value} {segments : List Segment}

/-- A stored segment that no normaliser changes. -/
structure Segment.Normal (segment : Segment) : Prop where
  number : InI64 segment.sequenceNum
  nonempty : segment.words ≠ []
  words : ∀ word ∈ segment.words, word.Normal

theorem pythonReader_faithful (T : Texts) : (pythonReader T).Faithful :=
  ⟨fun _ _ => rfl,fun _ => rfl,fun _ => rfl,fun _ => rfl,rfl,fun _ => rfl⟩

theorem rustReader_faithful (T : Texts) : (rustReader T).Faithful := by
  refine ⟨fun n hn => ?_,fun _ => rfl,fun _ => rfl,fun _ => rfl,rfl,fun _ => rfl⟩
  change (Value.asI64 (.int n) <|> _) = some n
  rw [Value.asI64_int hn]
  rfl

theorem sidecarReader_faithful (T : Texts) : (sidecarReader T).Faithful :=
  ⟨fun _ hn => Value.asI64_int hn,fun _ => rfl,fun _ => rfl,fun _ => rfl,rfl,fun _ => rfl⟩

/-- A stored word is read back. -/
theorem Word.Normal.readWord {word : Word} (h : word.Normal) :
    ∃ value, word.toValue = some value ∧
      ∀ R : Reader, R.Faithful → R.readWord value = some (some word) := by
  obtain ⟨text,start,stop,score⟩ := word
  obtain ⟨⟨p,q,rfl,rfl,hle⟩,hscore⟩ := h
  have hstored : ∃ rawScore, numberValue score = some rawScore ∧
      ∀ R : Reader, R.Faithful → R.score rawScore = some score := by
    rcases hscore with rfl | ⟨s,rfl⟩
    · exact ⟨.null,rfl,fun R hR => hR.noScore⟩
    · exact ⟨.float s,rfl,fun R hR => hR.score s⟩
  obtain ⟨rawScore,hraw,hread⟩ := hstored
  refine ⟨.object [("word",.str text),("start",.float p),("end",.float q),("score",rawScore)],?_,?_⟩
  · simp only [Word.toValue,hraw]
    rfl
  · intro R hR
    refine readWord_eq_keep.mpr ⟨.str text,.float p,.float q,text,_,_,score,rfl,rfl,rfl,hR.text text,
      hR.float p,hR.float q,not_ofRat_lt hle,hread R hR,?_⟩
    rw [hR.number,hR.number]

/-- A stored segment is read back. -/
theorem Segment.Normal.readSegment {segment : Segment} (h : segment.Normal) :
    ∃ value, segment.toValue = some value ∧
      ∀ R : Reader, R.Faithful → R.readSegment value = some (some segment) := by
  obtain ⟨words,hwords⟩ := exists_mapM (fun word hword =>
    (h.words word hword).readWord.imp (fun _ h => h.1))
  refine ⟨_,congrArg _ hwords,?_⟩
  intro R hR
  refine (@readSegment_eq_keep R _ (.int segment.sequenceNum) words segment rfl rfl).mpr
    ⟨hR.int _ h.number,?_,h.nonempty⟩
  refine readAll_mapM hwords ?_
  intro word hword value hvalue
  obtain ⟨value',hvalue',hread⟩ := (h.words word hword).readWord
  obtain rfl : value = value' := Option.some.inj (hvalue.symm.trans hvalue')
  exact hread R hR

/-- A stored column is read back. -/
theorem normalize_columnValue (h : ∀ segment ∈ segments, segment.Normal) :
    ∃ column, columnValue segments = some column ∧
      ∀ R : Reader, R.Faithful → R.normalize column = some segments := by
  by_cases hnil : segments = []
  · subst hnil
    exact ⟨.null,rfl,fun R _ => rfl⟩
  · obtain ⟨values,hvalues⟩ := exists_mapM (fun segment hsegment =>
      (h segment hsegment).readSegment.imp (fun _ h => h.1))
    refine ⟨.array values,?_,?_⟩
    · rw [columnValue,if_neg hnil,hvalues]
      rfl
    · intro R hR
      refine readAll_mapM hvalues ?_
      intro segment hsegment value hvalue
      obtain ⟨value',hvalue',hread⟩ := (h segment hsegment).readSegment
      obtain rfl : value = value' := Option.some.inj (hvalue.symm.trans hvalue')
      exact hread R hR

/-- What is kept of an entry that is alike, no normaliser changes. -/
theorem SegmentAlike.normal {value : Value} {segment : Segment} (h : SegmentAlike T value)
    (hfound : (sidecarReader T).readSegment value = some (some segment)) : segment.Normal := by
  obtain ⟨sequence,words,hsequence,hwords,hnumber,hkept,hne⟩ := entry_of_kept hfound
  refine ⟨inI64_of_valueToI64 hnumber,hne,?_⟩
  rcases h sequence words hsequence hwords with ⟨-,hall⟩ | hskip
  · intro word hword
    rw [(readAll_eq_some_iff.mp hkept).2,List.mem_filterMap] at hword
    obtain ⟨value,hvalue,hread⟩ := hword
    have hread' := Option.join_eq_some_iff.mp hread
    rcases hall value hvalue with hsame | hdrops
    · obtain ⟨word',hnormal,hreads⟩ := hsame.readWord
      have heq := (hreads (sidecarReader T) (by simp)).symm.trans hread'
      obtain rfl : word' = word := Option.some.inj (Option.some.inj heq)
      exact hnormal
    · exact absurd (hdrops (pythonReader T) (by simp)) (not_drops_of_kept hread').1
  · have hnone := (readSegment_eq_skip hsequence hwords).mpr (hskip (sidecarReader T) (by simp))
    rw [hfound] at hnone
    cases hnone

end Columns

section Payloads
variable {T : Texts} {payload : Value}

theorem faithful_of_mem {R : Reader} (h : R ∈ [pythonReader T,rustReader T,sidecarReader T]) :
    R.Faithful := by
  simp only [List.mem_cons,List.not_mem_nil,or_false] at h
  rcases h with rfl | rfl | rfl
  · exact pythonReader_faithful T
  · exact rustReader_faithful T
  · exact sidecarReader_faithful T

/-- What the sidecar reads of a payload that is alike, the others read too, and it stays as it is. -/
theorem Alike.agree (h : Alike T payload) : Agree T payload := by
  right
  cases payload with
  | array values =>
    have hall := h values rfl
    obtain ⟨segments,hsegments⟩ : ∃ segments,
        readAll (sidecarReader T).readSegment values = some segments :=
      ⟨_,readAll_eq_some_iff.mpr ⟨fun value _ => sidecar_readSegment_isSome T value,rfl⟩⟩
    have hnormal : ∀ segment ∈ segments, segment.Normal := by
      intro segment hsegment
      rw [(readAll_eq_some_iff.mp hsegments).2,List.mem_filterMap] at hsegment
      obtain ⟨value,hvalue,hread⟩ := hsegment
      exact (hall value hvalue).normal (Option.join_eq_some_iff.mp hread)
    obtain ⟨column,hcolumn,hback⟩ := normalize_columnValue hnormal
    refine ⟨segments,column,hcolumn,fun R hR => ⟨?_,hback R (faithful_of_mem hR)⟩⟩
    have hsame : ∀ value ∈ values, R.readSegment value = (sidecarReader T).readSegment value := by
      intro value hvalue
      obtain ⟨hpython,hrust⟩ := segmentAlike_iff.mp (hall value hvalue)
      simp only [List.mem_cons,List.not_mem_nil,or_false] at hR
      rcases hR with rfl | rfl | rfl
      · exact hpython
      · exact hrust
      · rfl
    change readAll R.readSegment values = some segments
    rw [readAll_congr hsame,hsegments]
  | _ => exact ⟨[],.null,rfl,fun R _ => ⟨rfl,rfl⟩⟩

/-- Where the normalisers agree on the whole they agree on every entry, since no writer leaves out
what the sidecar keeps; only Python's limit of digits is an exception to that. -/
theorem Agree.alike (hshort : ShortNumbers payload) (h : Agree T payload) : Alike T payload := by
  rintro values rfl value hvalue
  rcases h with hfail | ⟨segments,column,-,hall⟩
  · have hnone : readAll (sidecarReader T).readSegment values = none :=
      hfail (sidecarReader T) (by simp)
    have hsome : readAll (sidecarReader T).readSegment values = some _ :=
      readAll_eq_some_iff.mpr ⟨fun value _ => sidecar_readSegment_isSome T value,rfl⟩
    rw [hnone] at hsome
    cases hsome
  · have hsidecar : readAll (sidecarReader T).readSegment values = some segments :=
      (hall (sidecarReader T) (by simp)).1
    have hpython : readAll (pythonReader T).readSegment values = some segments :=
      (hall (pythonReader T) (by simp)).1
    have hrust : readAll (rustReader T).readSegment values = some segments :=
      (hall (rustReader T) (by simp)).1
    refine segmentAlike_iff.mpr ⟨?_,?_⟩
    · refine read_eq_of_readAll hsidecar hpython ?_ value hvalue
      intro entry hentry segment hfound
      refine not_skips_of_kept hfound ?_ (fun value word h => (not_drops_of_kept h).1)
      intro sequence hsequence hint
      have hdigits : ∀ text, sequence = .str text → text.toList.countP Char.isDigit ≤ maxDigits :=
        fun text htext => hshort values rfl entry hentry text (htext ▸ hsequence)
      rw [pythonInt_of_valueToI64 hint hdigits]
      exact Option.some_ne_none _
    · refine read_eq_of_readAll hsidecar hrust ?_ value hvalue
      intro entry hentry segment hfound
      refine not_skips_of_kept hfound ?_ (fun value word h => (not_drops_of_kept h).2)
      intro sequence _ hint
      rw [int_of_valueToI64 hint]
      exact Option.some_ne_none _

end Payloads

/-- The normalisers agree on every payload that is alike to all of them, and on no other unless it has
numbers too long for Python. -/
theorem agree_iff_alike (T : Texts) (payload : Value) :
    (Alike T payload → Agree T payload) ∧
      (ShortNumbers payload → (Agree T payload ↔ Alike T payload)) :=
  ⟨Alike.agree,fun hshort => ⟨Agree.alike hshort,Alike.agree⟩⟩

/-- The texts of the numbers that are whole. -/
def plainTexts : Texts where
  repr
    | .int n => toString n
    | _ => ""
  display
    | .int n => toString n
    | _ => ""

/-- A segment with one word. -/
def oneWordPayload (word start stop : Value) : Value :=
  .array [.object [("sequence_num",.int 0),
    ("words",.array [.object [("word",word),("start",start),("end",stop)]])]]

theorem agree_oneWord : Agree plainTexts (oneWordPayload (.str "hello") (.float (1 / 2)) (.float 1)) := by
  refine (agree_iff_alike plainTexts _).1 ?_
  intro segments hsegments segment hsegment
  cases hsegments
  obtain rfl := List.mem_singleton.mp hsegment
  intro sequence words hsequence hwords
  cases hsequence
  cases hwords
  left
  refine ⟨⟨0,by decide⟩,?_⟩
  intro word hword
  obtain rfl := List.mem_singleton.mp hword
  refine .inl ⟨.str "hello",.float (1 / 2),.float 1,"hello",1 / 2,1,rfl,rfl,rfl,?_,rfl,rfl,?_,.inl rfl⟩
  · simp [pythonReader,rustReader,sidecarReader,pyString,valueToString]
  · norm_num

/-- The Rust writer stores a word that is null under the name of Python's, which leaves it out. -/
theorem not_agree_nullWord : ¬Agree plainTexts (oneWordPayload .null (.float 0) (.float 1)) := by
  have hpython : (pythonReader plainTexts).normalize (oneWordPayload .null (.float 0) (.float 1)) =
      some [] := rfl
  have hrust : (rustReader plainTexts).normalize (oneWordPayload .null (.float 0) (.float 1)) =
      some [⟨0,[⟨"None",some (Extended.ofRat 0),some (Extended.ofRat 1),none⟩]⟩] := by
    decide +kernel
  rintro (hfail | ⟨segments,column,-,hall⟩)
  · rw [hfail (pythonReader plainTexts) (by simp)] at hpython
    cases hpython
  · rw [(hall (pythonReader plainTexts) (by simp)).1] at hpython
    rw [(hall (rustReader plainTexts) (by simp)).1,hpython] at hrust
    cases hrust

end Podly.WordTimestamps
