import Podly.Feeds.Durations

/-! When the sidecar reads a duration like the Python module. -/
namespace Podly.Feeds.Duration
open Floats Numerals Serde Strings
open WordBoundary (isWhitespace)

/-- A text that both take for the same number or the same clock, of which the sum is exact and fits in
64 bits, or that neither takes for a number or a clock that is not negative. -/
def ReadAlike (text : List Char) : Prop :=
  (∃ n : ℕ, parseI64 (trimmed isWhitespace text) = some (n : ℤ) ∧
    pythonScript.int (trimmed Writer.isSpace text) = some (n : ℤ)) ∨
  (∃ h m s : ℕ, rustClock text = some ⟨h,m,s⟩ ∧
    pythonClock text = some ⟨h,m,nearest false s⟩ ∧
      InI64 ((h * 3600 + m * 60 + s : ℕ) : ℤ) ∧ ExactSum (h * 3600 + m * 60) s) ∨
  (∀ n : ℕ, parseI64 (trimmed isWhitespace text) ≠ some (n : ℤ)) ∧
    (∀ n : ℕ, pythonScript.int (trimmed Writer.isSpace text) ≠ some (n : ℤ)) ∧
    (∀ h m s : ℕ, rustClock text ≠ some ⟨h,m,s⟩) ∧
    ∀ clock, pythonClock text = some clock → ¬clock.Forward

section
variable {text : List Char} {n : ℤ}

/-- The characters of the numbers and clocks that the sidecar reads. -/
def IsPlain (c : Char) : Prop := isWhitespace c = true ∨ isNumeral c = true ∨ c = ':'

theorem isSpace_eq_of_plain {c : Char} (h : IsPlain c) : Writer.isSpace c = isWhitespace c := by
  rcases h with h | h | rfl
  · rw [h]
    simp only [isWhitespace,Bool.or_eq_true,Bool.and_eq_true,decide_eq_true_eq] at h
    simp only [Writer.isSpace,Bool.or_eq_true,Bool.and_eq_true,decide_eq_true_eq]
    omega
  · have hspace := not_isSpace_of_isNumeral h
    rw [hspace]
    simp only [Writer.isSpace,Bool.or_eq_false_iff,Bool.and_eq_false_iff,
      decide_eq_false_iff_not] at hspace
    symm
    simp only [isWhitespace,Bool.or_eq_false_iff,Bool.and_eq_false_iff,decide_eq_false_iff_not]
    omega
  · decide

theorem strip_eq_trim {xs : List Char} (h : ∀ c ∈ xs, IsPlain c) :
    trimmed Writer.isSpace xs = trimmed isWhitespace xs :=
  trimmed_congr (fun c hc => isSpace_eq_of_plain (h c hc))

theorem isPlain_of_trimmed {xs : List Char} (h : ∀ c ∈ trimmed isWhitespace xs, IsPlain c) :
    ∀ c ∈ xs, IsPlain c := by
  intro c hc
  by_cases hspace : isWhitespace c
  · exact .inl hspace
  · exact h c (mem_trimmed hc (eq_false_of_ne_true hspace))

theorem isPlain_of_parseI64 {xs : List Char} (h : parseI64 xs = some n) : ∀ c ∈ xs, IsPlain c :=
  fun c hc => .inr (.inl (List.all_eq_true.mp
    (integer_isNumeral (parseI64_eq_some.mp h).1) c hc))

/-- The parts of a clock that the sidecar reads are whole numbers. -/
theorem isPlain_of_rustClock {clock : Clock ℤ} (h : rustClock text = some clock) :
    ∀ c ∈ text, IsPlain c := by
  obtain ⟨-,hparts⟩ := readClock_eq_some h
  have hread : ∀ part ∈ ((trimmed isWhitespace text).splitOn ':').map (trimmed isWhitespace),
      ∃ n, parseI64 part = some n := by
    rcases hparts with ⟨m,s,hparts,-,hm,hs⟩ | ⟨h',m,s,hparts,hh,hm,hs⟩
    · rw [hparts]
      simp only [List.forall_mem_cons,List.not_mem_nil,false_implies,implies_true,and_true]
      exact ⟨⟨_,hm⟩,_,hs⟩
    · rw [hparts]
      simp only [List.forall_mem_cons,List.not_mem_nil,false_implies,implies_true,and_true]
      exact ⟨⟨_,hh⟩,⟨_,hm⟩,_,hs⟩
  apply isPlain_of_trimmed
  intro c hc
  by_cases hcolon : c = ':'
  · exact .inr (.inr hcolon)
  · obtain ⟨part,hpart,hmem⟩ := mem_splitOn.mpr ⟨hc,hcolon⟩
    obtain ⟨n,hn⟩ := hread _ (List.mem_map_of_mem hpart)
    exact isPlain_of_trimmed (isPlain_of_parseI64 hn) c hmem

/-- A whole number of the sidecar is one to Python, unless it is too long. -/
theorem pythonInt_of_parseI64 {xs : List Char} (h : parseI64 xs = some n) :
    pythonScript.int xs = some n ∨ pythonScript.int xs = none := by
  obtain ⟨hint,-⟩ := parseI64_eq_some.mp h
  rw [Script.int_of_isNumeral (integer_isNumeral hint),hint]
  split
  · exact .inl rfl
  · exact .inr rfl

theorem pythonFloat_of_parseI64 {xs : List Char} (h : parseI64 xs = some n) :
    pythonScript.float xs = some (nearest (n < 0) n.natAbs) :=
  Script.float_of_decimal (decimal_of_integer (parseI64_eq_some.mp h).1)

/-- A text that the sidecar takes for a number is the number or too long for Python. -/
theorem python_of_rustNumber (h : parseI64 (trimmed isWhitespace text) = some n) :
    rustClock text = none ∧ pythonClock text = none ∧
      (pythonScript.int (trimmed Writer.isSpace text) = some n ∨
        pythonScript.int (trimmed Writer.isSpace text) = none) := by
  have hplain := isPlain_of_trimmed (isPlain_of_parseI64 h)
  have hstrip := strip_eq_trim hplain
  have hcolon : ':' ∉ trimmed isWhitespace text := by
    intro hmem
    have hnumeral := List.all_eq_true.mp (integer_isNumeral (parseI64_eq_some.mp h).1) _ hmem
    exact absurd hnumeral (by decide)
  refine ⟨?_,?_,hstrip ▸ pythonInt_of_parseI64 h⟩
  · exact Option.eq_none_iff_forall_ne_some.mpr (fun clock hc => hcolon (colon_of_readClock hc))
  · refine Option.eq_none_iff_forall_ne_some.mpr (fun clock hc => hcolon ?_)
    rw [← hstrip]
    exact colon_of_readClock hc

/-- A text that the sidecar takes for a clock is the clock or too long for Python. -/
theorem python_of_rustClock {clock : Clock ℤ} (h : rustClock text = some clock) :
    pythonClock text = some ⟨clock.hours,clock.minutes,
      nearest (clock.seconds < 0) clock.seconds.natAbs⟩ ∨ pythonClock text = none := by
  have hplain := isPlain_of_rustClock h
  have hstrip := strip_eq_trim hplain
  obtain ⟨hblank,hparts⟩ := readClock_eq_some h
  have hsame : ((trimmed Writer.isSpace text).splitOn ':').map (trimmed Writer.isSpace) =
      ((trimmed isWhitespace text).splitOn ':').map (trimmed isWhitespace) := by
    rw [hstrip]
    apply List.map_congr_left
    intro part hpart
    apply strip_eq_trim
    intro c hc
    have hmem : c ∈ trimmed isWhitespace text := (mem_splitOn.mp ⟨part,hpart,hc⟩).1
    exact hplain c (mem_of_mem_trimmed hmem)
  rw [pythonClock,readClock,hsame,if_neg (mt any_isEmpty.mp hblank)]
  rcases hparts with ⟨m,s,hparts,hhours,hm,hs⟩ | ⟨h',m,s,hparts,hh,hm,hs⟩
  · rw [hparts]
    dsimp only
    rw [pythonFloat_of_parseI64 hs,hhours]
    rcases pythonInt_of_parseI64 hm with hint | hint
    · rw [hint]
      exact .inl rfl
    · rw [hint]
      exact .inr rfl
  · rw [hparts]
    dsimp only
    rw [pythonFloat_of_parseI64 hs]
    rcases pythonInt_of_parseI64 hh with hint | hint
    · rcases pythonInt_of_parseI64 hm with hint' | hint'
      · rw [hint,hint']
        exact .inl rfl
      · rw [hint,hint']
        exact .inr rfl
    · rw [hint]
      exact .inr rfl

end

section Overflow
variable {a b : ℕ} {p q t : ℚ}

theorem ofRat_ge {x r : ℚ} (hx : x = 0 ∨ 1 ≤ x) (h : Floats.ofRat x = some r) :
    15 / 16 * x ≤ r := by
  rcases hx with rfl | hx
  · rw [mul_zero]
    exact ofRat_nonneg le_rfl h
  · have hnear := (abs_le.mp (ofRat_near hx h)).1
    have hunit : x / 2 ^ 53 ≤ x / 16 := by
      gcongr
      norm_num
    linarith

theorem natCast_cases (n : ℕ) : (n : ℚ) = 0 ∨ 1 ≤ (n : ℚ) := by
  rcases Nat.eq_zero_or_pos n with rfl | h
  · exact .inl Nat.cast_zero
  · exact .inr (by exact_mod_cast h)

/-- A sum beyond 64 bits wraps around to less than the sum of the doubles. -/
theorem floor_ne_wrapI64 (hp : Floats.ofRat a = some p) (hq : Floats.ofRat b = some q)
    (ht : Floats.ofRat (p + q) = some t) (hbig : ¬InI64 ((a + b : ℕ) : ℤ)) :
    ⌊t⌋ ≠ wrapI64 ((a + b : ℕ) : ℤ) := by
  have hlarge : 9223372036854775808 ≤ a + b := by
    by_contra hlt
    exact hbig ⟨by omega,by omega⟩
  have hlargeRat : (9223372036854775808 : ℚ) ≤ (a : ℚ) + b := by exact_mod_cast hlarge
  have hpa := ofRat_ge (natCast_cases a) hp
  have hqb := ofRat_ge (natCast_cases b) hq
  have hsum : 15 / 16 * (p + q) ≤ t := ofRat_ge (.inr (by linarith)) ht
  have hless : wrapI64 ((a + b : ℕ) : ℤ) < 9223372036854775808 := by
    have h := Int.bmod_lt (x := ((a + b : ℕ) : ℤ)) (by norm_num : 0 < 2 ^ 64)
    exact h
  have hwrap : wrapI64 ((a + b : ℕ) : ℤ) ≤ ((a + b : ℕ) : ℤ) - 18446744073709551616 := by
    obtain ⟨k,hk⟩ := Int.dvd_bmod_sub_self (x := ((a + b : ℕ) : ℤ)) (m := 2 ^ 64)
    have hk' : wrapI64 ((a + b : ℕ) : ℤ) - ((a + b : ℕ) : ℤ) = 18446744073709551616 * k := hk
    omega
  have hwrapRat : (wrapI64 ((a + b : ℕ) : ℤ) : ℚ) ≤ (a : ℚ) + b - 18446744073709551616 := by
    exact_mod_cast hwrap
  have hlessRat : (wrapI64 ((a + b : ℕ) : ℤ) : ℚ) + 1 ≤ 9223372036854775808 := by
    exact_mod_cast hless
  intro heq
  have hfloor : t < (wrapI64 ((a + b : ℕ) : ℤ) : ℚ) + 1 := by
    rw [← heq]
    exact Int.lt_floor_add_one t
  linarith

end Overflow

section
variable {text : List Char}

theorem rust_of_number {n : ℤ} (h : parseI64 (trimmed isWhitespace text) = some n) :
    parseDurationSecondsString text = if 0 ≤ n then some n else none := by
  have hne : trimmed isWhitespace text ≠ [] := by
    intro hnil
    rw [hnil] at h
    cases h
  rw [parseDurationSecondsString,if_neg hne,h]

theorem rust_of_clock {clock : Clock ℤ} (h : rustClock text = some clock) :
    parseDurationSecondsString text =
      if 0 ≤ clock.hours ∧ 0 ≤ clock.minutes ∧ 0 ≤ clock.seconds then
        some (wrapI64 (clock.hours * 3600 + clock.minutes * 60 + clock.seconds))
      else none := by
  have hne : trimmed isWhitespace text ≠ [] := List.ne_nil_of_mem (colon_of_readClock h)
  have hnumber : parseI64 (trimmed isWhitespace text) = none := by
    refine Option.eq_none_iff_forall_ne_some.mpr (fun n hn => ?_)
    rw [(python_of_rustNumber hn).1] at h
    cases h
  rw [parseDurationSecondsString,if_neg hne,hnumber,h]

theorem rust_of_neither (hnumber : parseI64 (trimmed isWhitespace text) = none)
    (hclock : rustClock text = none) : parseDurationSecondsString text = none := by
  rw [parseDurationSecondsString,hnumber,hclock]
  split <;> rfl

/-- The sidecar finds no duration exactly if it reads no number and no clock that are not negative. -/
theorem rust_eq_none : parseDurationSecondsString text = none ↔
    (∀ n : ℕ, parseI64 (trimmed isWhitespace text) ≠ some (n : ℤ)) ∧
      ∀ h m s : ℕ, rustClock text ≠ some ⟨h,m,s⟩ := by
  cases hnumber : parseI64 (trimmed isWhitespace text) with
  | some n =>
    rw [rust_of_number hnumber,(python_of_rustNumber hnumber).1]
    by_cases hn : 0 ≤ n
    · rw [if_pos hn]
      refine iff_of_false nofun (fun h => h.1 n.toNat ?_)
      rw [Int.toNat_of_nonneg hn]
    · rw [if_neg hn]
      refine iff_of_true rfl ⟨?_,fun _ _ _ => nofun⟩
      intro k hk
      have := Option.some.inj hk
      omega
  | none =>
    cases hclock : rustClock text with
    | none => exact iff_of_true (rust_of_neither hnumber hclock) ⟨fun _ => nofun,fun _ _ _ => nofun⟩
    | some clock =>
      rw [rust_of_clock hclock]
      by_cases hforward : 0 ≤ clock.hours ∧ 0 ≤ clock.minutes ∧ 0 ≤ clock.seconds
      · rw [if_pos hforward]
        obtain ⟨hh,hm,hs⟩ := hforward
        refine iff_of_false nofun
          (fun h => h.2 clock.hours.toNat clock.minutes.toNat clock.seconds.toNat ?_)
        rw [Int.toNat_of_nonneg hh,Int.toNat_of_nonneg hm,Int.toNat_of_nonneg hs]
      · rw [if_neg hforward]
        refine iff_of_true rfl ⟨fun _ => nofun,?_⟩
        intro h m s hread
        obtain rfl := Option.some.inj hread
        exact hforward ⟨Int.natCast_nonneg h,Int.natCast_nonneg m,Int.natCast_nonneg s⟩

/-- So it is with the Python module, where it does not raise. -/
theorem python_eq_none : parseText text = some none ↔
    (∀ n : ℕ, pythonScript.int (trimmed Writer.isSpace text) ≠ some (n : ℤ)) ∧
      ∀ clock, pythonClock text = some clock → ¬clock.Forward := by
  cases hint : pythonScript.int (trimmed Writer.isSpace text) with
  | some n =>
    have hclock : ∀ clock, pythonClock text = some clock → ¬clock.Forward := by
      intro clock hclock
      rw [int_of_pythonClock hclock] at hint
      cases hint
    rw [parseText_of_int hint,Option.some.injEq]
    by_cases hn : 0 ≤ n
    · rw [if_pos hn]
      refine iff_of_false nofun (fun h => h.1 n.toNat ?_)
      rw [Int.toNat_of_nonneg hn]
    · rw [if_neg hn]
      refine iff_of_true rfl ⟨?_,hclock⟩
      intro k hk
      have := Option.some.inj hk
      omega
  | none =>
    cases hclock : pythonClock text with
    | none => exact iff_of_true (parseText_of_neither hint hclock) ⟨fun _ => nofun,fun _ => nofun⟩
    | some clock =>
      obtain ⟨hforward,hback⟩ := parseText_of_clock hclock
      by_cases hf : clock.Forward
      · rw [hforward hf]
        refine iff_of_false ?_ (fun h => h.2 clock rfl hf)
        intro h
        obtain ⟨n,-,hn⟩ := Option.map_eq_some_iff.mp h
        cases hn
      · rw [hback hf]
        refine iff_of_true rfl ⟨fun _ => nofun,?_⟩
        rintro other hother
        obtain rfl := Option.some.inj hother
        exact hf

end

section
variable {text : List Char} {n : ℤ}

/-- What the sidecar reads as a number that is not negative, where Python reads the same. -/
theorem readAlike_of_number (h : parseI64 (trimmed isWhitespace text) = some n)
    (hsame : parseText text = some (parseDurationSecondsString text)) (hn : 0 ≤ n) :
    ReadAlike text := by
  obtain ⟨k,rfl⟩ := Int.eq_ofNat_of_zero_le hn
  obtain ⟨-,hclock,hint | hint⟩ := python_of_rustNumber h
  · exact .inl ⟨k,h,hint⟩
  · rw [parseText_of_neither hint hclock,rust_of_number h,if_pos hn] at hsame
    cases hsame

/-- So it is with the clocks, of which the sum must fit in 64 bits and be exact. -/
theorem readAlike_of_clock {h m s : ℕ} (hclock : rustClock text = some ⟨h,m,s⟩)
    (hsame : parseText text = some (parseDurationSecondsString text)) : ReadAlike text := by
  have hrust : parseDurationSecondsString text =
      some (wrapI64 ((h * 3600 + m * 60 + s : ℕ) : ℤ)) := by
    rw [rust_of_clock hclock,
      if_pos ⟨Int.natCast_nonneg h,Int.natCast_nonneg m,Int.natCast_nonneg s⟩]
    push_cast
    rfl
  rcases python_of_rustClock hclock with hpython | hpython
  · dsimp only at hpython
    rw [decide_eq_false (by omega),Int.natAbs_natCast] at hpython
    refine .inr (.inl ⟨h,m,s,hclock,hpython,?_⟩)
    have hexact := parseText_of_wholeClock hpython
    have hfits : InI64 ((h * 3600 + m * 60 + s : ℕ) : ℤ) := by
      by_contra hbig
      rw [hrust] at hsame
      obtain ⟨p,q,t,hp,hq,ht,hfloor⟩ := sum_of_wholeClock hpython hsame
      exact floor_ne_wrapI64 hp hq ht hbig hfloor
    refine ⟨hfits,hexact.mp ?_⟩
    rw [hsame,hrust,wrapI64_of_inI64 hfits]
  · have hcolon := colon_of_readClock hclock
    rw [← strip_eq_trim (isPlain_of_rustClock hclock)] at hcolon
    rw [parseText_of_neither (int_of_colon hcolon) hpython,hrust] at hsame
    cases hsame

/-- The sidecar reads a text like the Python module exactly if it is one that both read alike. -/
theorem parseText_eq_rust_iff (text : List Char) :
    parseText text = some (parseDurationSecondsString text) ↔ ReadAlike text := by
  constructor
  · intro hsame
    cases hrust : parseDurationSecondsString text with
    | none =>
      rw [hrust] at hsame
      obtain ⟨hnumber,hclock⟩ := rust_eq_none.mp hrust
      obtain ⟨hint,hforward⟩ := python_eq_none.mp hsame
      exact .inr (.inr ⟨hnumber,hint,hclock,hforward⟩)
    | some k =>
      have hfound : ¬((∀ n : ℕ, parseI64 (trimmed isWhitespace text) ≠ some (n : ℤ)) ∧
          ∀ h m s : ℕ, rustClock text ≠ some ⟨h,m,s⟩) := by
        rw [← rust_eq_none,hrust]
        nofun
      rw [not_and_or] at hfound
      push Not at hfound
      rcases hfound with ⟨n,hn⟩ | ⟨h,m,s,hclock⟩
      · exact readAlike_of_number hn hsame (Int.natCast_nonneg n)
      · exact readAlike_of_clock hclock hsame
  · rintro (⟨n,hnumber,hint⟩ | ⟨h,m,s,hrust,hpython,hfits,hexact⟩ | ⟨hnumber,hint,hclock,hforward⟩)
    · rw [parseText_of_int hint,rust_of_number hnumber]
    · rw [(parseText_of_wholeClock hpython).mpr hexact,rust_of_clock hrust,
        if_pos ⟨Int.natCast_nonneg h,Int.natCast_nonneg m,Int.natCast_nonneg s⟩]
      have hwrap := wrapI64_of_inI64 hfits
      push_cast at hwrap ⊢
      rw [hwrap]
    · rw [python_eq_none.mpr ⟨hint,hforward⟩,rust_eq_none.mpr ⟨hnumber,hclock⟩]

end

/-- When a value settles, when a duration is read back, and when the sidecar reads a text alike. -/
theorem durations_iff (value : Scalar) (n : ℕ) (text : List Char) :
    ((∃ result, parseDurationSeconds value = some result ∧ ∀ n ∈ result, 0 ≤ n) ↔
      Settles value) ∧
    (parseDurationSeconds (.str (formatSeconds n).toList) = some (some (n : ℤ)) ↔
      ExactSum (60 * (n / 60)) (n % 60)) ∧
    (parseDurationSeconds (.str text) = some (parseDurationSecondsString text) ↔
      ReadAlike text) :=
  ⟨parseDurationSeconds_settles value,parse_formatSeconds n,parseText_eq_rust_iff text⟩

/-- An infinite number of seconds stops the Python module; of a fraction it keeps the whole seconds,
where the sidecar finds no duration. -/
theorem infinite_not_settles : parseDurationSeconds (.str "1:inf".toList) = none ∧
    parseDurationSeconds (.str "1:30.5".toList) = some (some 90) ∧
      parseDurationSecondsString "1:30.5".toList = none := by
  decide +kernel

end Podly.Feeds.Duration
