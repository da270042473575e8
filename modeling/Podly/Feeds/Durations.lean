import Podly.Feeds.Document
import Podly.Serde.Scalar
import Podly.WordBoundary.Tokens

/-! Durations of episodes as the feeds write them: what the Python module and the sidecar read, and
what is read of a duration that was written. -/
namespace Podly.Feeds.Duration
open Floats Numerals Serde Strings
open WordBoundary (isWhitespace)

/-- The sum of two floats. -/
def add : Extended → Extended → Extended
  | .number (some (some p)), .number (some (some q)) => nearest (p + q < 0) |p + q|
  | .number (some (some _)), y => y
  | x, .number (some (some _)) => x
  | .number (some none), .number (some none) => .number ⊤
  | .number none, .number none => .number ⊥
  | _, _ => .nan

/-- A clock in hours, minutes and seconds. -/
structure Clock (σ : Type) where
  hours : ℤ
  minutes : ℤ
  seconds : σ
deriving DecidableEq

/-- Two or three parts between colons, none of them blank, each of them read without its blanks. -/
def readClock {σ : Type} (isBlank : Char → Bool) (int : List Char → Option ℤ)
    (seconds : List Char → Option σ) (text : List Char) : Option (Clock σ) :=
  let parts := (text.splitOn ':').map (trimmed isBlank)
  if parts.any List.isEmpty then none
  else
    match parts with
    | [m,s] =>
      match int m, seconds s with
      | some m, some s => some ⟨0,m,s⟩
      | _, _ => none
    | [h,m,s] =>
      match int h, int m, seconds s with
      | some h, some m, some s => some ⟨h,m,s⟩
      | _, _, _ => none
    | _ => none

/-- The clock in a string without its blanks, as the Python module reads it. -/
def pythonClock (text : List Char) : Option (Clock Extended) :=
  readClock Writer.isSpace pythonScript.int pythonScript.float (trimmed Writer.isSpace text)

/-- `int((hours * 3600) + (minutes * 60) + seconds)`. -/
def pythonTotal (clock : Clock Extended) : Option ℤ :=
  (floatOfInt (clock.hours * 3600 + clock.minutes * 60)).bind
    (fun whole => (Scalar.float (add whole clock.seconds)).toInt)

/-- `_parse_duration_seconds` of a string; it raises where nothing is given. -/
def parseText (text : List Char) : Option (Option ℤ) :=
  let rawValue := trimmed Writer.isSpace text
  if rawValue = [] then some none
  else
    match pythonScript.int rawValue with
    | some parsed => some (if 0 ≤ parsed then some parsed else none)
    | none =>
      match pythonClock text with
      | none => some none
      | some clock =>
        if clock.hours < 0 ∨ clock.minutes < 0 ∨ clock.seconds < Extended.ofRat 0 then some none
        else (pythonTotal clock).map some

/-- `_parse_duration_seconds`. -/
def parseDurationSeconds : Scalar → Option (Option ℤ)
  | .none | .bool _ => some none
  | .int value => some (if 0 ≤ value then some value else none)
  | .float value =>
    if Extended.ofRat 0 ≤ value then (Scalar.float value).toInt.map some else some none
  | .str text | .other text => parseText text

/-- The clock in a string as the sidecar reads it. -/
def rustClock (text : List Char) : Option (Clock ℤ) :=
  readClock isWhitespace parseI64 parseI64 (trimmed isWhitespace text)

/-- `parse_duration_seconds_string`. -/
def parseDurationSecondsString (text : List Char) : Option ℤ :=
  let value := trimmed isWhitespace text
  if value = [] then none
  else
    match parseI64 value with
    | some seconds => if 0 ≤ seconds then some seconds else none
    | none =>
      match rustClock text with
      | none => none
      | some clock =>
        if 0 ≤ clock.hours ∧ 0 ≤ clock.minutes ∧ 0 ≤ clock.seconds then
          some (wrapI64 (clock.hours * 3600 + clock.minutes * 60 + clock.seconds))
        else none

/-- No part of the clock is negative. -/
def Clock.Forward (clock : Clock Extended) : Prop :=
  0 ≤ clock.hours ∧ 0 ≤ clock.minutes ∧ ¬clock.seconds < Extended.ofRat 0

/-- The seconds are a number, and the sum stays below the largest double. -/
def Clock.Finite (clock : Clock Extended) : Prop :=
  ∃ seconds whole, clock.seconds = Extended.ofRat seconds ∧
    Floats.ofRat (clock.hours * 3600 + clock.minutes * 60).toNat = some whole ∧
      InRange (whole + seconds)

/-- A value that does not stop the reader: no infinity, and no clock without a finite sum. -/
def Settles : Scalar → Prop
  | .float value => value ≠ .number ⊤
  | .str text | .other text =>
    ∀ clock, pythonClock text = some clock → clock.Forward → clock.Finite
  | _ => True

/-- The sum of two whole numbers as doubles, cut off, is their sum. -/
def ExactSum (a b : ℕ) : Prop :=
  ∃ p q t, Floats.ofRat a = some p ∧ Floats.ofRat b = some q ∧ Floats.ofRat (p + q) = some t ∧
    ⌊t⌋ = a + b

/-- Whole numbers below 2 ^ 53 are added exactly. -/
theorem exactSum_of_lt {a b : ℕ} (h : a + b < 2 ^ 53) : ExactSum a b := by
  have hsum : Floats.ofRat ((a : ℚ) + b) = some ((a + b : ℕ) : ℚ) := by
    rw [← Nat.cast_add]
    exact ofRat_natCast h
  refine ⟨a,b,((a + b : ℕ) : ℚ),ofRat_natCast (by omega),ofRat_natCast (by omega),hsum,?_⟩
  rw [Int.floor_natCast,Nat.cast_add]

section Totals
variable {clock : Clock Extended}

theorem toInt_float {q : ℚ} (h : 0 ≤ q) : (Scalar.float (Extended.ofRat q)).toInt = some ⌊q⌋ := by
  change some (q.num.tdiv q.den) = some ⌊q⌋
  rw [Int.tdiv_eq_ediv_of_nonneg (Rat.num_nonneg.mpr h),Rat.floor_def']

theorem floatOfInt_of_nonneg {n : ℤ} (h : 0 ≤ n) :
    floatOfInt n = (Floats.ofRat n.toNat).map Extended.ofRat := by
  obtain ⟨m,rfl⟩ := Int.eq_ofNat_of_zero_le h
  have hsign : ∀ r : ℚ, (if (m : ℤ) < 0 then -r else r) = r := fun r => if_neg (by omega)
  simp [floatOfInt,hsign]

/-- The seconds of a clock that runs forward are nan, the upper infinity or a number from zero on. -/
theorem Clock.Forward.seconds_cases (h : clock.Forward) : clock.seconds = .nan ∨
    clock.seconds = .number ⊤ ∨ ∃ q : ℚ, 0 ≤ q ∧ clock.seconds = Extended.ofRat q := by
  obtain ⟨-,-,hseconds⟩ := h
  generalize clock.seconds = x at hseconds ⊢
  match x with
  | .nan => exact .inl rfl
  | .number none => exact absurd (WithBot.bot_lt_coe _) hseconds
  | .number (some none) => exact .inr (.inl rfl)
  | .number (some (some q)) =>
    refine .inr (.inr ⟨q,?_,rfl⟩)
    have hlt : ¬Extended.ofRat q < Extended.ofRat 0 := hseconds
    rwa [Extended.ofRat_lt,not_lt] at hlt

theorem nearest_toInt {q : ℚ} (h : 0 ≤ q) :
    (Scalar.float (nearest false q)).toInt = (Floats.ofRat q).map Int.floor := by
  rw [nearest]
  cases hq : Floats.ofRat q with
  | none => rfl
  | some r => exact toInt_float (ofRat_nonneg h hq)

/-- The sum of a clock that runs forward with a finite number of seconds. -/
theorem pythonTotal_of_finite {q : ℚ} (h : clock.Forward) (hq : 0 ≤ q)
    (hseconds : clock.seconds = Extended.ofRat q) : pythonTotal clock =
      (Floats.ofRat (clock.hours * 3600 + clock.minutes * 60).toNat).bind
        (fun whole => (Floats.ofRat (whole + q)).map Int.floor) := by
  obtain ⟨hhours,hminutes,-⟩ := h
  have hnonneg : 0 ≤ clock.hours * 3600 + clock.minutes * 60 := by omega
  rw [pythonTotal,floatOfInt_of_nonneg hnonneg,hseconds]
  cases hwhole : Floats.ofRat (clock.hours * 3600 + clock.minutes * 60).toNat with
  | none => rfl
  | some whole =>
    have hpos : 0 ≤ whole := ofRat_nonneg (Nat.cast_nonneg _) hwhole
    have hsum : add (Extended.ofRat whole) (Extended.ofRat q) = nearest false (whole + q) := by
      change nearest (whole + q < 0) |whole + q| = _
      rw [abs_of_nonneg (by linarith),decide_eq_false (by linarith)]
    rw [Option.map_some,Option.bind_some,Option.bind_some,hsum,nearest_toInt (by linarith)]

/-- The sum exists exactly if it is finite. -/
theorem pythonTotal_isSome (h : clock.Forward) : (pythonTotal clock).isSome ↔ clock.Finite := by
  have hnone : ∀ x : Extended, (x = .nan ∨ x = .number ⊤) → clock.seconds = x →
      pythonTotal clock = none := by
    intro x hx hseconds
    rw [pythonTotal,Option.bind_eq_none_iff]
    intro whole hwhole
    obtain ⟨r,-,rfl⟩ := Option.map_eq_some_iff.mp hwhole
    rw [hseconds]
    rcases hx with rfl | rfl <;> rfl
  rcases h.seconds_cases with hseconds | hseconds | ⟨q,hq,hseconds⟩
  · rw [hnone _ (.inl rfl) hseconds]
    refine iff_of_false (by simp) ?_
    rintro ⟨q,-,hfinite,-⟩
    rw [hseconds] at hfinite
    exact Extended.ofRat_ne_nan hfinite.symm
  · rw [hnone _ (.inr rfl) hseconds]
    refine iff_of_false (by simp) ?_
    rintro ⟨q,-,hfinite,-⟩
    rw [hseconds] at hfinite
    cases hfinite
  · rw [pythonTotal_of_finite h hq hseconds]
    unfold Clock.Finite
    cases Floats.ofRat (clock.hours * 3600 + clock.minutes * 60).toNat with
    | none => simp
    | some whole =>
      rw [Option.bind_some,Option.isSome_map,ofRat_isSome_iff]
      constructor
      · intro hrange
        exact ⟨q,whole,hseconds,rfl,hrange⟩
      · rintro ⟨q',whole',hseconds',hwhole,hrange⟩
        rw [hseconds,Extended.ofRat_inj] at hseconds'
        rw [hseconds',Option.some.inj hwhole]
        exact hrange

theorem pythonTotal_nonneg {n : ℤ} (h : clock.Forward) (htotal : pythonTotal clock = some n) :
    0 ≤ n := by
  obtain ⟨q,whole,hseconds,hwhole,-⟩ := (pythonTotal_isSome h).mp (by rw [htotal]; rfl)
  have hq : 0 ≤ q := by
    have hlt := h.2.2
    rwa [hseconds,Extended.ofRat_lt,not_lt] at hlt
  rw [pythonTotal_of_finite h hq hseconds,hwhole,Option.bind_some] at htotal
  obtain ⟨t,ht,rfl⟩ := Option.map_eq_some_iff.mp htotal
  have hpos : 0 ≤ whole := ofRat_nonneg (Nat.cast_nonneg _) hwhole
  exact Int.floor_nonneg.mpr (ofRat_nonneg (by linarith) ht)

end Totals

section Reading
variable {σ : Type} {blank : Char → Bool} {int : List Char → Option ℤ}
  {seconds : List Char → Option σ} {text : List Char} {n : ℤ}

theorem any_isEmpty {parts : List (List Char)} : parts.any List.isEmpty = true ↔ [] ∈ parts := by
  rw [List.any_eq_true]
  constructor
  · rintro ⟨part,hpart,hblank⟩
    rwa [List.isEmpty_iff.mp hblank] at hpart
  · intro hblank
    exact ⟨[],hblank,rfl⟩

/-- The parts that a clock was read from. -/
theorem readClock_eq_some {clock : Clock σ} (h : readClock blank int seconds text = some clock) :
    [] ∉ (text.splitOn ':').map (trimmed blank) ∧
      ((∃ m s, (text.splitOn ':').map (trimmed blank) = [m,s] ∧ clock.hours = 0 ∧
        int m = some clock.minutes ∧ seconds s = some clock.seconds) ∨
      ∃ h m s, (text.splitOn ':').map (trimmed blank) = [h,m,s] ∧ int h = some clock.hours ∧
        int m = some clock.minutes ∧ seconds s = some clock.seconds) := by
  unfold readClock at h
  dsimp only at h
  split at h
  · cases h
  · rename_i hblank
    refine ⟨mt any_isEmpty.mpr hblank,?_⟩
    split at h
    · rename_i m s hparts
      split at h
      · rename_i minutes rest hm hs
        cases h
        exact .inl ⟨m,s,hparts,rfl,hm,hs⟩
      · cases h
    · rename_i h' m s hparts
      split at h
      · rename_i hours minutes rest hh hm hs
        cases h
        exact .inr ⟨h',m,s,hparts,hh,hm,hs⟩
      · cases h
    · cases h

theorem colon_of_readClock {clock : Clock σ} (h : readClock blank int seconds text = some clock) :
    ':' ∈ text := by
  by_contra hcolon
  obtain ⟨-,hparts⟩ := readClock_eq_some h
  rw [List.splitOn_eq_singleton hcolon,List.map_singleton] at hparts
  rcases hparts with ⟨m,s,hparts,-⟩ | ⟨h,m,s,hparts,-⟩
  · cases hparts
  · cases hparts

theorem int_of_colon (h : ':' ∈ text) : pythonScript.int text = none :=
  Script.int_eq_none h (by decide) (by decide) (by decide) (by decide)

/-- A text that is a clock is no whole number. -/
theorem int_of_pythonClock {clock : Clock Extended} (h : pythonClock text = some clock) :
    pythonScript.int (trimmed Writer.isSpace text) = none := int_of_colon (colon_of_readClock h)

theorem parseText_of_int (h : pythonScript.int (trimmed Writer.isSpace text) = some n) :
    parseText text = some (if 0 ≤ n then some n else none) := by
  have hne : trimmed Writer.isSpace text ≠ [] := by
    intro hnil
    rw [hnil] at h
    cases h
  rw [parseText]
  rw [if_neg hne,h]

theorem parseText_of_clock {clock : Clock Extended} (h : pythonClock text = some clock) :
    (clock.Forward → parseText text = (pythonTotal clock).map some) ∧
      (¬clock.Forward → parseText text = some none) := by
  have hne : trimmed Writer.isSpace text ≠ [] := List.ne_nil_of_mem (colon_of_readClock h)
  have hforward : clock.Forward ↔
      ¬(clock.hours < 0 ∨ clock.minutes < 0 ∨ clock.seconds < Extended.ofRat 0) := by
    rw [Clock.Forward,not_or,not_or,not_lt,not_lt]
  rw [parseText]
  rw [if_neg hne,int_of_pythonClock h,h]
  exact ⟨fun hf => if_neg (hforward.mp hf),fun hf => if_pos (not_not.mp (mt hforward.mpr hf))⟩

theorem parseText_of_neither (hint : pythonScript.int (trimmed Writer.isSpace text) = none)
    (hclock : pythonClock text = none) : parseText text = some none := by
  rw [parseText]
  rw [hint,hclock]
  split <;> rfl

/-- A text settles exactly if its sum is finite, should it be a clock. -/
theorem parseText_settles : (∃ result, parseText text = some result ∧ ∀ n ∈ result, 0 ≤ n) ↔
    ∀ clock, pythonClock text = some clock → clock.Forward → clock.Finite := by
  cases hclock : pythonClock text with
  | none =>
    refine iff_of_true ?_ nofun
    cases hint : pythonScript.int (trimmed Writer.isSpace text) with
    | none => exact ⟨none,parseText_of_neither hint hclock,nofun⟩
    | some n =>
      refine ⟨_,parseText_of_int hint,?_⟩
      intro m hm
      split at hm
      · obtain rfl := Option.some.inj hm
        assumption
      · cases hm
  | some clock =>
    obtain ⟨hforward,hback⟩ := parseText_of_clock hclock
    simp only [Option.some.injEq,forall_eq']
    by_cases hf : clock.Forward
    · rw [hforward hf,← pythonTotal_isSome hf]
      constructor
      · rintro ⟨result,htotal,-⟩ -
        obtain ⟨n,hn,-⟩ := Option.map_eq_some_iff.mp htotal
        rw [hn]
        rfl
      · intro hsome
        obtain ⟨n,hn⟩ := Option.isSome_iff_exists.mp (hsome hf)
        refine ⟨some n,by rw [hn,Option.map_some],?_⟩
        rintro m hm
        obtain rfl := Option.some.inj hm
        exact pythonTotal_nonneg hf hn
    · rw [hback hf]
      exact iff_of_true ⟨none,rfl,nofun⟩ (fun h => absurd h hf)

/-- A value settles unless it is infinite or a clock without a finite sum. -/
theorem parseDurationSeconds_settles (value : Scalar) :
    (∃ result, parseDurationSeconds value = some result ∧ ∀ n ∈ result, 0 ≤ n) ↔ Settles value := by
  cases value with
  | none => exact iff_of_true ⟨none,rfl,nofun⟩ trivial
  | bool b => exact iff_of_true ⟨none,rfl,nofun⟩ trivial
  | int n =>
    refine iff_of_true ⟨_,rfl,?_⟩ trivial
    intro m hm
    split at hm
    · obtain rfl := Option.some.inj hm
      assumption
    · cases hm
  | float x =>
    rw [parseDurationSeconds,Settles]
    by_cases hx : Extended.ofRat 0 ≤ x
    · rw [if_pos hx]
      match x, hx with
      | .number (some none), _ => exact iff_of_false (by rintro ⟨_,h,-⟩; cases h) (fun h => h rfl)
      | .number (some (some q)), hx =>
        have hq : 0 ≤ q := Extended.ofRat_le.mp hx
        refine iff_of_true ⟨some ⌊q⌋,?_,?_⟩ nofun
        · have htotal := toInt_float hq
          rw [show Extended.number (some (some q)) = Extended.ofRat q from rfl,htotal]
          rfl
        · rintro m hm
          obtain rfl := Option.some.inj hm
          exact Int.floor_nonneg.mpr hq
    · rw [if_neg hx]
      refine iff_of_true ⟨none,rfl,nofun⟩ ?_
      rintro rfl
      exact hx (Extended.number_le.mpr le_top)
  | str text => exact parseText_settles
  | other text => exact parseText_settles

end Reading

section Written
variable {text digits : List Char} {h m s n : ℕ}

theorem not_isSpace_of_isNumeral {c : Char} (hc : isNumeral c) : Writer.isSpace c = false := by
  obtain ⟨hascii,hblank,-⟩ := isNumeral_cases hc
  have hne : c.toNat ≠ 32 := by
    intro hcode
    have hc : c = ' ' := Char.ext (UInt32.toNat_inj.mp hcode)
    rw [hc] at hblank
    revert hblank
    decide
  have hsign : ¬(28 ≤ c.toNat ∧ c.toNat ≤ 31) := by
    intro hcode
    rcases codes_of_isNumeral hc with hletter | rfl | rfl | rfl
    · omega
    all_goals
      revert hcode
      decide
  simp only [isBlank,Bool.or_eq_false_iff,Bool.and_eq_false_iff,decide_eq_false_iff_not] at hblank
  simp only [Writer.isSpace,Bool.or_eq_false_iff,Bool.and_eq_false_iff,decide_eq_false_iff_not]
  omega

theorem nearest_natCast {q : ℚ} (hs : Floats.ofRat (s : ℚ) = some q) :
    nearest false s = Extended.ofRat q := by
  rw [nearest,hs]
  rfl

/-- What is read of a clock of whole numbers is the sum of their doubles, cut off. -/
theorem parseText_eq_of_wholeClock {q : ℚ} (hclock : pythonClock text = some ⟨h,m,nearest false s⟩)
    (hs : Floats.ofRat (s : ℚ) = some q) : parseText text =
      ((Floats.ofRat ((h * 3600 + m * 60 : ℕ) : ℚ)).bind
        (fun p => (Floats.ofRat (p + q)).map Int.floor)).map some := by
  have hwhole : ((h : ℤ) * 3600 + (m : ℤ) * 60).toNat = h * 3600 + m * 60 := by omega
  have hq : 0 ≤ q := ofRat_nonneg (Nat.cast_nonneg s) hs
  rw [nearest_natCast hs] at hclock
  have hforward : (⟨h,m,Extended.ofRat q⟩ : Clock Extended).Forward := by
    refine ⟨Int.natCast_nonneg h,Int.natCast_nonneg m,?_⟩
    rw [Extended.ofRat_lt]
    exact not_lt.mpr hq
  rw [(parseText_of_clock hclock).1 hforward,pythonTotal_of_finite hforward hq rfl,hwhole]

/-- Seconds beyond the largest double stop the reader. -/
theorem parseText_of_largeSeconds (hclock : pythonClock text = some ⟨h,m,nearest false s⟩)
    (hs : Floats.ofRat (s : ℚ) = none) : parseText text = none := by
  have htop : nearest false s = .number ⊤ := by
    rw [nearest,hs]
    rfl
  rw [htop] at hclock
  have hforward : (⟨h,m,.number ⊤⟩ : Clock Extended).Forward :=
    ⟨Int.natCast_nonneg h,Int.natCast_nonneg m,fun hlt => not_top_lt (Extended.number_lt.mp hlt)⟩
  have hnone : pythonTotal ⟨h,m,.number ⊤⟩ = none := by
    rw [← Option.not_isSome_iff_eq_none,pythonTotal_isSome hforward]
    rintro ⟨q,-,hfinite,-⟩
    cases hfinite
  rw [(parseText_of_clock hclock).1 hforward,hnone]
  rfl

/-- The doubles whose sum is read of a clock of whole numbers. -/
theorem sum_of_wholeClock {n : ℤ} (hclock : pythonClock text = some ⟨h,m,nearest false s⟩)
    (hparse : parseText text = some (some n)) :
    ∃ p q t, Floats.ofRat ((h * 3600 + m * 60 : ℕ) : ℚ) = some p ∧ Floats.ofRat (s : ℚ) = some q ∧
      Floats.ofRat (p + q) = some t ∧ ⌊t⌋ = n := by
  cases hs : Floats.ofRat (s : ℚ) with
  | none =>
    rw [parseText_of_largeSeconds hclock hs] at hparse
    cases hparse
  | some q =>
    rw [parseText_eq_of_wholeClock hclock hs] at hparse
    obtain ⟨total,htotal,hvalue⟩ := Option.map_eq_some_iff.mp hparse
    obtain ⟨p,hp,hsum⟩ := Option.bind_eq_some_iff.mp htotal
    obtain ⟨t,ht,hfloor⟩ := Option.map_eq_some_iff.mp hsum
    exact ⟨p,q,t,hp,rfl,ht,hfloor.trans (Option.some.inj hvalue)⟩

/-- A clock of whole numbers gives their sum exactly if the sum of the doubles does. -/
theorem parseText_of_wholeClock (hclock : pythonClock text = some ⟨h,m,nearest false s⟩) :
    parseText text = some (some ((h * 3600 + m * 60 + s : ℕ) : ℤ)) ↔
      ExactSum (h * 3600 + m * 60) s := by
  constructor
  · intro hparse
    obtain ⟨p,q,t,hp,hq,ht,hfloor⟩ := sum_of_wholeClock hclock hparse
    exact ⟨p,q,t,hp,hq,ht,by rw [hfloor,Nat.cast_add]⟩
  · rintro ⟨p,q,t,hp,hq,ht,hfloor⟩
    rw [← Nat.cast_add] at hfloor
    rw [parseText_eq_of_wholeClock hclock hq,hp,Option.bind_some,ht,Option.map_some,Option.map_some,
      hfloor]

theorem natural_cases (hn : natural digits = some n) :
    digits ≠ [] ∧ ':' ∉ digits ∧ trimmed Writer.isSpace digits = digits ∧
      pythonScript.float digits = some (nearest false n) ∧ pythonScript.int digits =
        if digits.countP Char.isDigit ≤ maxDigits then some (n : ℤ) else none := by
  have hnumeral := natural_isNumeral hn
  have hall := List.all_eq_true.mp hnumeral
  have hint := integer_of_natural hn
  have hdecimal := decimal_of_integer hint
  rw [decide_eq_false (by omega),Int.natAbs_natCast] at hdecimal
  refine ⟨?_,?_,trimmed_eq_self (fun c hc => not_isSpace_of_isNumeral (hall c hc)),
    Script.float_of_decimal hdecimal,by rw [Script.int_of_isNumeral hnumeral,hint]⟩
  · rintro rfl
    cases hn
  · intro hcolon
    exact absurd (hall _ hcolon) (by decide)

theorem natural_twoDigits (n : ℕ) : natural (twoDigits n).toList = some n := by
  have hdigits : (toString n).toList = Nat.toDigits 10 n := by
    change n.repr.toList = _
    rw [Nat.repr_eq_ofList_toDigits,String.toList_ofList]
  rw [twoDigits]
  split
  · rw [String.toList_append,hdigits]
    exact natural_zero_cons (natural_toDigits n)
  · rw [hdigits,natural_toDigits]

theorem countP_twoDigits (hn : n < 100) :
    (twoDigits n).toList.countP Char.isDigit ≤ maxDigits := by
  have hlength : ∀ k < 100, (twoDigits k).toList.length ≤ 2 := by decide
  exact List.countP_le_length.trans ((hlength n hn).trans (by decide))

theorem trimmed_colon {first rest : List Char} (hfirst : ∀ c ∈ first, Writer.isSpace c = false)
    (hrest : ∀ c ∈ rest, Writer.isSpace c = false) :
    trimmed Writer.isSpace (first ++ ':'::rest) = first ++ ':'::rest := by
  apply trimmed_eq_self
  intro c hc
  rcases List.mem_append.mp hc with hc | hc
  · exact hfirst c hc
  · rcases List.mem_cons.mp hc with rfl | hc
    · decide
    · exact hrest c hc

/-- A clock of minutes and seconds. -/
theorem pythonClock_two {first second : List Char} (hm : natural first = some m)
    (hs : natural second = some s) (hshort : first.countP Char.isDigit ≤ maxDigits) :
    pythonClock (first ++ ':'::second) = some ⟨(0 : ℕ),m,nearest false s⟩ := by
  obtain ⟨hne,hcolon,htrim,-,hint⟩ := natural_cases hm
  obtain ⟨hne',hcolon',htrim',hfloat,-⟩ := natural_cases hs
  have hspace : ∀ {d : List Char} {k}, natural d = some k → ∀ c ∈ d, Writer.isSpace c = false :=
    fun hd c hc => not_isSpace_of_isNumeral (List.all_eq_true.mp (natural_isNumeral hd) c hc)
  rw [pythonClock,trimmed_colon (hspace hm) (hspace hs),readClock,
    List.splitOn_append_cons_self_of_not_mem hcolon,List.splitOn_eq_singleton hcolon',List.map_cons,
    List.map_singleton,htrim,htrim']
  have hblank : ([] : List Char) ∉ [first,second] := by
    simp [hne.symm,hne'.symm]
  simp only
  rw [if_neg (mt any_isEmpty.mp hblank),hint,if_pos hshort,hfloat]
  rfl

/-- A clock with hours, which Python does not read if they are too long. -/
theorem pythonClock_three {first second third : List Char} (hh : natural first = some h)
    (hm : natural second = some m) (hs : natural third = some s)
    (hshort : second.countP Char.isDigit ≤ maxDigits) :
    pythonClock (first ++ ':'::(second ++ ':'::third)) =
      if first.countP Char.isDigit ≤ maxDigits then some ⟨h,m,nearest false s⟩ else none := by
  obtain ⟨hne,hcolon,htrim,-,hint⟩ := natural_cases hh
  obtain ⟨hne',hcolon',htrim',-,hint'⟩ := natural_cases hm
  obtain ⟨hne'',hcolon'',htrim'',hfloat,-⟩ := natural_cases hs
  have hspace : ∀ {d : List Char} {k}, natural d = some k → ∀ c ∈ d, Writer.isSpace c = false :=
    fun hd c hc => not_isSpace_of_isNumeral (List.all_eq_true.mp (natural_isNumeral hd) c hc)
  have hrest : ∀ c ∈ second ++ ':'::third, Writer.isSpace c = false := by
    intro c hc
    rcases List.mem_append.mp hc with hc | hc
    · exact hspace hm c hc
    · rcases List.mem_cons.mp hc with rfl | hc
      · decide
      · exact hspace hs c hc
  rw [pythonClock,trimmed_colon (hspace hh) hrest,readClock,
    List.splitOn_append_cons_self_of_not_mem hcolon,
    List.splitOn_append_cons_self_of_not_mem hcolon',List.splitOn_eq_singleton hcolon'',
    List.map_cons,List.map_cons,List.map_singleton,htrim,htrim',htrim'']
  have hblank : ([] : List Char) ∉ [first,second,third] := by
    simp [hne.symm,hne'.symm,hne''.symm]
  simp only
  rw [if_neg (mt any_isEmpty.mp hblank),hint,hint',if_pos hshort,hfloat]
  by_cases hfits : first.countP Char.isDigit ≤ maxDigits
  · rw [if_pos hfits,if_pos hfits]
  · rw [if_neg hfits,if_neg hfits]

/-- Numbers with too many digits for Python are too large for a double. -/
theorem not_exactSum_of_long (hlong : maxDigits < (Nat.toDigits 10 n).countP Char.isDigit) (b : ℕ) :
    ¬ExactSum (n * 3600 + m * 60) b := by
  have hbig : 10 ^ maxDigits ≤ n := by
    by_contra hlt
    have hle := (Nat.length_toDigits_le_iff (by decide : 1 < 10) (by decide : 0 < maxDigits)).mpr
      (not_le.mp hlt)
    exact absurd (List.countP_le_length.trans hle) (not_le.mpr hlong)
  rintro ⟨p,-,-,hp,-⟩
  have hrange : InRange ((n * 3600 + m * 60 : ℕ) : ℚ) := ofRat_isSome_iff.mp (by rw [hp]; rfl)
  have hpow : (2 : ℚ) ^ 1024 ≤ n := by
    have hten : (2 : ℚ) ^ 1024 ≤ 10 ^ maxDigits :=
      (pow_le_pow_left₀ (by norm_num) (by norm_num) 1024).trans
        (pow_le_pow_right₀ (by norm_num) (by decide))
    exact hten.trans (by exact_mod_cast hbig)
  have hle : (n : ℚ) ≤ ((n * 3600 + m * 60 : ℕ) : ℚ) := by
    exact_mod_cast (by omega : n ≤ n * 3600 + m * 60)
  have hpos : (0 : ℚ) < 2 ^ 970 := by positivity
  unfold InRange at hrange
  generalize (2 : ℚ) ^ 1024 = top at hrange hpow
  generalize (2 : ℚ) ^ 970 = unit at hrange hpos
  linarith

/-- A duration that was written is read back exactly if its sum is exact. -/
theorem parse_formatSeconds (n : ℕ) :
    parseDurationSeconds (.str (formatSeconds n).toList) = some (some (n : ℤ)) ↔
      ExactSum (60 * (n / 60)) (n % 60) := by
  have hm : n % 3600 / 60 < 100 := by omega
  have hs : n % 60 < 100 := by omega
  have hwhole : n / 3600 * 3600 + n % 3600 / 60 * 60 = 60 * (n / 60) := by
    have hhours : n / 3600 = n / 60 / 60 := (Nat.div_div_eq_div_mul n 60 60).symm
    have hminutes : n % 3600 / 60 = n / 60 % 60 := Nat.mod_mul_right_div_self n 60 60
    rw [hhours,hminutes]
    omega
  have hsum : 60 * (n / 60) + n % 60 = n := Nat.div_add_mod n 60
  rw [parseDurationSeconds,formatSeconds]
  by_cases hhours : n / 3600 = 0
  · have hclock := pythonClock_two (natural_twoDigits (n % 3600 / 60)) (natural_twoDigits (n % 60))
      (countP_twoDigits hm)
    have hparse := parseText_of_wholeClock hclock
    rw [hhours] at hwhole
    rw [hwhole,hsum] at hparse
    rw [if_pos hhours,← hparse]
    simp
  · have hclock := pythonClock_three (natural_toDigits (n / 3600))
      (natural_twoDigits (n % 3600 / 60)) (natural_twoDigits (n % 60)) (countP_twoDigits hm)
    have htext : (toString (n / 3600) ++ ":" ++ twoDigits (n % 3600 / 60) ++ ":" ++
        twoDigits (n % 60)).toList = Nat.toDigits 10 (n / 3600) ++
          ':'::((twoDigits (n % 3600 / 60)).toList ++ ':'::(twoDigits (n % 60)).toList) := by
      simp
    rw [if_neg hhours,htext]
    by_cases hshort : (Nat.toDigits 10 (n / 3600)).countP Char.isDigit ≤ maxDigits
    · rw [if_pos hshort] at hclock
      have hparse := parseText_of_wholeClock hclock
      rwa [hwhole,hsum] at hparse
    · rw [if_neg hshort] at hclock
      have hnone := not_exactSum_of_long (m := n % 3600 / 60) (not_le.mp hshort) (n % 60)
      rw [hwhole] at hnone
      refine iff_of_false ?_ hnone
      rw [parseText_of_neither ?_ hclock]
      · nofun
      · apply int_of_colon
        exact mem_trimmed (by simp) (by decide)

/-- So it is below 2 ^ 53 seconds. -/
theorem parse_formatSeconds_of_lt (hn : n < 2 ^ 53) :
    parseDurationSeconds (.str (formatSeconds n).toList) = some (some (n : ℤ)) :=
  (parse_formatSeconds n).mpr (exactSum_of_lt (by rwa [Nat.div_add_mod]))

end Written

end Podly.Feeds.Duration
