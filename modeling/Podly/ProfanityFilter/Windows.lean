import Podly.Intervals.Hulls
import Podly.Lists.FilterMap
import Podly.Serde.Scalar
import Podly.WordBoundary.FromLlm

/-! Where profanity is bleeped out: the intervals around the matched words, padded and merged, as the
Python module and the sidecar compute them. -/
namespace Podly.ProfanityFilter
open Connectivity Floats Intervals Lists Numerals Serde Sweep WordBoundary

/-- `WordTimestamp`. -/
structure Word where
  word : Option String
  start : Option Extended
  stop : Option Extended
deriving DecidableEq

/-- `x * 1000.0`. -/
def millis : Extended → Extended
  | .number (some (some q)) => nearest (q < 0) (|q| * 1000)
  | x => x

/-- `math.floor`, which raises on what is not finite. -/
def floor (x : Extended) : Option ℤ := x.toRat.map Int.floor

/-- `math.ceil`. -/
def ceil (x : Extended) : Option ℤ := x.toRat.map Int.ceil

section
variable (T : Text) (terms : List String) (padStartMs padEndMs : ℤ)

/-- `_normalize_word`. -/
def normalizeWord (word : String) : String := T.lower (normalizeToken word)

/-- The word is one of the terms, and it has its times. -/
def Matched (word : Word) (start stop : Extended) : Prop :=
  word.start = some start ∧ word.stop = some stop ∧
    ∃ rawWord, word.word = some rawWord ∧ normalizeWord T rawWord ≠ "" ∧
      normalizeWord T rawWord ∈ terms

/-- The interval from the floor to the ceiling of the times, padded: it begins no earlier than zero
and is not empty. -/
def paddedWindow (startFloor endCeil : ℤ) : ℤ × ℤ :=
  let startMs := max 0 (startFloor - padStartMs)
  (startMs,max (startMs + 1) (endCeil + padEndMs))

/-- What the loop adds for a word; it raises where nothing is given. -/
def rawWindow (word : Word) : Option (Option (ℤ × ℤ)) :=
  match word.word, word.start, word.stop with
  | some rawWord, some start, some stop =>
    let normalized := normalizeWord T rawWord
    if normalized = "" ∨ normalized ∉ terms then some none
    else
      match floor (millis start), ceil (millis stop) with
      | some startFloor, some endCeil =>
        some (some (paddedWindow padStartMs padEndMs startFloor endCeil))
      | _, _ => none
  | _, _, _ => some none

/-- `_merge_windows`. -/
def mergeWindows (gapMs : ℤ) (windows : List (ℤ × ℤ)) : List (ℤ × ℤ) :=
  (sortByKey toLex windows).foldl (joinPush (fun prev next => next.1 ≤ prev.2 + gapMs) extend) []

/-- `extract_profanity_windows`, over the words of each segment. -/
def extractProfanityWindows (mergeGapMs : ℤ) (segments : List (List Word)) :
    Option (List (ℤ × ℤ) × Bool) :=
  (readAll (rawWindow T terms padStartMs padEndMs) segments.flatten).map
    (fun rawWindows => (mergeWindows mergeGapMs rawWindows,segments.any (· ≠ [])))

end

/-- `ProfanityWord`. -/
structure ProfanityWord where
  word : Option String
  start : Option ℚ
  stop : Option ℚ

/-- `ProfanityRequest`. -/
structure ProfanityRequest where
  words : List ProfanityWord
  profanityTerms : List String
  padStartMs : ℤ
  padEndMs : ℤ
  mergeGapMs : ℤ

/-- A rounded float as a whole number of 64 bits. -/
def asI64 (round : ℚ → ℤ) : Extended → ℤ
  | .nan => 0
  | .number none => -9223372036854775808
  | .number (some none) => 9223372036854775807
  | .number (some (some q)) => floatAsI64 (round q)

section
variable (T : Text) (request : ProfanityRequest)

/-- What the sidecar adds for a word. -/
def rustWindow (word : ProfanityWord) : Option (ℤ × ℤ) :=
  match word.word, word.start, word.stop with
  | some text, some start, some stop =>
    let normalized := normalizeWord T text
    if normalized = "" ∨ normalized ∉ request.profanityTerms.map T.lower then none
    else
      let startMs := max (wrapI64
        (asI64 Int.floor (millis (Extended.ofRat start)) - request.padStartMs)) 0
      let endMs := max (wrapI64 (asI64 Int.ceil (millis (Extended.ofRat stop)) + request.padEndMs))
        (wrapI64 (startMs + 1))
      some (startMs,endMs)
  | _, _, _ => none

/-- `run_transcript_profanity_windows`. -/
def runTranscriptProfanityWindows : List (ℤ × ℤ) :=
  (sortByKey toLex (request.words.filterMap (rustWindow T request))).foldl
    (joinPush (fun last next => next.1 ≤ wrapI64 (last.2 + request.mergeGapMs)) extend) []

end

/-- A word of a request as the Python module has it. -/
def ProfanityWord.toWord (word : ProfanityWord) : Word :=
  ⟨word.word,word.start.map Extended.ofRat,word.stop.map Extended.ofRat⟩

/-- The windows to bleep for the intervals around the matched words. -/
structure Bleeps (gapMs : ℤ) (intervals windows : List (ℤ × ℤ)) : Prop where
  sorted : windows.Pairwise (fun a b => a.1 < b.1)
  apart : windows.Pairwise (fun a b => a.2 + gapMs < b.1)
  covered : ∀ w ∈ intervals, ∃! window, window ∈ windows ∧ window.1 ≤ w.1 ∧ w.2 ≤ window.2
  /-- Each window is the hull of one of the groups that are connected by gaps of the merge gap. -/
  hulls : ∃ groups, Components (Near (· + gapMs)) (Far (· + gapMs)) intervals groups ∧
    List.Forall₂ IsHull windows groups

/-- The sums and roundings of a word's interval fit in 64 bits. -/
structure FitsI64 (padStartMs padEndMs mergeGapMs startFloor endCeil : ℤ) : Prop where
  start : InI64 startFloor
  padded : InI64 (startFloor - padStartMs)
  stop : InI64 endCeil
  reach : InI64 (endCeil + padEndMs)
  gap : InI64 ((paddedWindow padStartMs padEndMs startFloor endCeil).2 + mergeGapMs)

section Merge
variable {gapMs : ℤ} {windows : List (ℤ × ℤ)}

theorem mergeWindows_eq (gapMs : ℤ) (windows : List (ℤ × ℤ)) :
    mergeWindows gapMs windows = coalesce (· + gapMs) (sortByKey toLex windows) :=
  foldl_joinPush _ _ _

theorem startSorted_sortByKey (windows : List (ℤ × ℤ)) : StartSorted (sortByKey toLex windows) :=
  (sortByKey_sorted toLex windows).imp (fun h => by
    rcases Prod.Lex.toLex_le_toLex.mp h with h | ⟨h,-⟩
    · exact h.le
    · exact h.le)

/-- Of two windows one ends before the other starts. -/
theorem apart_of_ne (hgap : 0 ≤ gapMs) (h : windows.Pairwise (fun a b => a.2 + gapMs < b.1))
    {a b : ℤ × ℤ} (ha : a ∈ windows) (hb : b ∈ windows) (hne : a ≠ b) : a.2 < b.1 ∨ b.2 < a.1 := by
  have : Std.Symm (fun a b : ℤ × ℤ => a.2 < b.1 ∨ b.2 < a.1) := ⟨fun _ _ => Or.symm⟩
  have heither : windows.Pairwise (fun a b => a.2 < b.1 ∨ b.2 < a.1) :=
    h.imp (fun hab => .inl (by omega))
  exact heither.forall ha hb hne

/-- Merging nonempty intervals gives the windows to bleep. -/
theorem mergeWindows_bleeps (hgap : 0 ≤ gapMs) (hn : ∀ w ∈ windows, w.1 < w.2) :
    Bleeps gapMs windows (mergeWindows gapMs windows) := by
  have hs := startSorted_sortByKey windows
  have hself : ∀ a : ℤ, a ≤ a + gapMs := fun a => by omega
  have hmono : Monotone (fun a : ℤ => a + gapMs) := fun a b hab => by
    change a + gapMs ≤ b + gapMs
    omega
  have hnSorted : ∀ w ∈ sortByKey toLex windows, w.1 < w.2 :=
    fun w hw => hn w ((mem_sortByKey _ _ w).mp hw)
  have hnonempty : ∀ w ∈ mergeWindows gapMs windows, w.1 < w.2 := by
    rw [mergeWindows_eq]
    exact coalesce_nonempty hnSorted
  have hspaced : (mergeWindows gapMs windows).Pairwise (fun a b => a.2 + gapMs < b.1) := by
    rw [mergeWindows_eq]
    exact @coalesce_spaced ℤ _ (· + gapMs) _ hs
  obtain ⟨groups,hgroups,hhulls⟩ :=
    coalesce_components hself hmono hs (fun w hw => (hnSorted w hw).le)
  rw [← mergeWindows_eq] at hhulls
  refine ⟨?_,hspaced,?_,groups,hgroups.congr (sortByKey_perm toLex windows),hhulls⟩
  · refine hspaced.imp_of_mem ?_
    intro a b ha _ hab
    have := hnonempty a ha
    omega
  · intro w hw
    obtain ⟨group,hgroup,hmem⟩ := List.mem_flatten.mp
      (hgroups.perm.mem_iff.mpr ((mem_sortByKey toLex windows w).mpr hw))
    obtain ⟨window,hwindow,hhull⟩ := exists_left_of_forall₂ hhulls hgroup
    refine ⟨window,⟨hwindow,hhull.start_le hmem,hhull.le_stop hmem⟩,?_⟩
    rintro other ⟨hother,hstart,hstop⟩
    -- two windows that both hold the interval are not apart
    have hwn := hn w hw
    have hstart' := hhull.start_le hmem
    have hstop' := hhull.le_stop hmem
    by_contra hne
    rcases apart_of_ne hgap hspaced hother hwindow hne with h | h
    · omega
    · omega

end Merge

section Words
variable {T : Text} {terms : List String} {padStartMs padEndMs mergeGapMs : ℤ} {word : Word}
  {start stop : Extended} {startFloor endCeil : ℤ}

theorem paddedWindow_lt (padStartMs padEndMs startFloor endCeil : ℤ) :
    (paddedWindow padStartMs padEndMs startFloor endCeil).1 <
      (paddedWindow padStartMs padEndMs startFloor endCeil).2 :=
  Int.lt_iff_add_one_le.mpr (le_max_left _ _)

theorem rawWindow_of_matched (h : Matched T terms word start stop)
    (hstart : floor (millis start) = some startFloor) (hstop : ceil (millis stop) = some endCeil) :
    rawWindow T terms padStartMs padEndMs word =
      some (some (paddedWindow padStartMs padEndMs startFloor endCeil)) := by
  obtain ⟨hs,he,rawWord,hword,hne,hterm⟩ := h
  simp only [rawWindow,hword,hs,he]
  rw [if_neg (not_or_intro hne (not_not_intro hterm)),hstart,hstop]

/-- A word that is not matched adds nothing. -/
theorem rawWindow_of_not_matched (h : ∀ start stop, ¬Matched T terms word start stop) :
    rawWindow T terms padStartMs padEndMs word = some none := by
  unfold rawWindow
  split
  · rename_i rawWord start stop hword hstart hstop
    rw [if_pos]
    by_contra hmatch
    rw [not_or,not_not] at hmatch
    exact h start stop ⟨hstart,hstop,rawWord,hword,hmatch⟩
  · rfl

/-- What a word adds is the padded interval of a matched word. -/
theorem matched_of_rawWindow {w : ℤ × ℤ}
    (h : rawWindow T terms padStartMs padEndMs word = some (some w)) :
    ∃ start stop startFloor endCeil, Matched T terms word start stop ∧
      floor (millis start) = some startFloor ∧ ceil (millis stop) = some endCeil ∧
      w = paddedWindow padStartMs padEndMs startFloor endCeil := by
  by_cases hmatch : ∃ start stop, Matched T terms word start stop
  · obtain ⟨start,stop,hmatch⟩ := hmatch
    obtain ⟨hs,he,rawWord,hword,hne,hterm⟩ := id hmatch
    simp only [rawWindow,hword,hs,he] at h
    rw [if_neg (not_or_intro hne (not_not_intro hterm))] at h
    split at h
    · rename_i startFloor endCeil hstart hstop
      exact ⟨start,stop,startFloor,endCeil,hmatch,hstart,hstop,
        (Option.some.inj (Option.some.inj h)).symm⟩
    · cases h
  · rw [rawWindow_of_not_matched (fun start stop hm => hmatch ⟨start,stop,hm⟩)] at h
    cases h

theorem truncate_intCast (n : ℤ) : truncate (n : ℚ) = n := by
  simp [truncate]

theorem asI64_of_inI64 {round : ℚ → ℤ} {x : Extended} {n : ℤ} (h : x.toRat.map round = some n)
    (hn : InI64 n) : asI64 round x = n := by
  obtain ⟨q,hq,rfl⟩ := Option.map_eq_some_iff.mp h
  rw [Extended.toRat_eq_some.mp hq]
  change floatAsI64 (round q : ℚ) = round q
  obtain ⟨hlo,hhi⟩ := hn
  rw [floatAsI64,truncate_intCast,min_eq_left hhi,max_eq_right hlo]

theorem exists_round (round : ℚ → ℤ) {x : Extended} (h : x.toRat.isSome) :
    ∃ n, x.toRat.map round = some n := by
  obtain ⟨q,hq⟩ := Option.isSome_iff_exists.mp h
  exact ⟨round q,by rw [hq,Option.map_some]⟩

/-- With the sum for the merge the forced end fits as well. -/
theorem FitsI64.next (h : FitsI64 padStartMs padEndMs mergeGapMs startFloor endCeil)
    (hgap : 0 ≤ mergeGapMs) : InI64 (max (startFloor - padStartMs) 0 + 1) := by
  obtain ⟨-,hhi⟩ := h.gap
  simp only [paddedWindow] at hhi
  constructor
  · omega
  · omega

/-- In 64 bits the sidecar adds for a word what the Python module adds. -/
theorem rustWindow_eq (hlower : ∀ term ∈ terms, T.lower term = term) {words : List ProfanityWord}
    (word : ProfanityWord) (hgap : 0 ≤ mergeGapMs)
    (hfits : ∀ start stop startFloor endCeil, Matched T terms word.toWord start stop →
      floor (millis start) = some startFloor → ceil (millis stop) = some endCeil →
        FitsI64 padStartMs padEndMs mergeGapMs startFloor endCeil)
    (hfinite : ∀ start stop, Matched T terms word.toWord start stop →
      (millis start).toRat.isSome ∧ (millis stop).toRat.isSome) :
    rustWindow T ⟨words,terms,padStartMs,padEndMs,mergeGapMs⟩ word =
      (rawWindow T terms padStartMs padEndMs word.toWord).join := by
  have hterms : terms.map T.lower = terms := by
    conv_rhs => rw [← List.map_id terms]
    exact List.map_congr_left hlower
  obtain ⟨text,start,stop⟩ := word
  cases text with
  | none => rfl
  | some text =>
    cases start with
    | none => rfl
    | some start =>
      cases stop with
      | none => rfl
      | some stop =>
        rw [rustWindow]
        dsimp only
        rw [hterms]
        by_cases hskip : normalizeWord T text = "" ∨ normalizeWord T text ∉ terms
        · rw [if_pos hskip,rawWindow_of_not_matched]
          · rfl
          · rintro start' stop' ⟨-,-,rawWord,hword,hne,hterm⟩
            obtain rfl : text = rawWord := Option.some.inj hword
            exact hskip.elim hne (fun h => h hterm)
        · rw [if_neg hskip]
          rw [not_or,not_not] at hskip
          have hmatch : Matched T terms (ProfanityWord.toWord ⟨some text,some start,some stop⟩)
              (Extended.ofRat start) (Extended.ofRat stop) := ⟨rfl,rfl,text,rfl,hskip⟩
          obtain ⟨hs,he⟩ := hfinite _ _ hmatch
          obtain ⟨startFloor,hfloor⟩ := exists_round Int.floor hs
          obtain ⟨endCeil,hceil⟩ := exists_round Int.ceil he
          have hfit := hfits _ _ _ _ hmatch hfloor hceil
          rw [rawWindow_of_matched hmatch hfloor hceil,asI64_of_inI64 hfloor hfit.start,
            asI64_of_inI64 hceil hfit.stop,wrapI64_of_inI64 hfit.padded,
            wrapI64_of_inI64 hfit.reach,wrapI64_of_inI64 (hfit.next hgap)]
          change some _ = some _
          rw [paddedWindow,max_comm (startFloor - padStartMs) 0,max_comm (endCeil + padEndMs)]

end Words

section Extraction
variable {T : Text} {terms : List String} {padStartMs padEndMs mergeGapMs : ℤ}

/-- The loop raises for no word if the matched ones have finite times, and adds their intervals. -/
theorem exists_intervals (padStartMs padEndMs : ℤ) {words : List Word} (hfinite : ∀ word ∈ words, ∀ start stop,
    Matched T terms word start stop → (millis start).toRat.isSome ∧ (millis stop).toRat.isSome) :
    ∃ intervals, readAll (rawWindow T terms padStartMs padEndMs) words = some intervals ∧
      ∀ w, w ∈ intervals ↔ ∃ word ∈ words, ∃ start stop startFloor endCeil,
        Matched T terms word start stop ∧ floor (millis start) = some startFloor ∧
          ceil (millis stop) = some endCeil ∧
            w = paddedWindow padStartMs padEndMs startFloor endCeil := by
  have hsome : ∀ word ∈ words, (rawWindow T terms padStartMs padEndMs word).isSome := by
    intro word hword
    by_cases hmatch : ∃ start stop, Matched T terms word start stop
    · obtain ⟨start,stop,hmatch⟩ := hmatch
      obtain ⟨hs,he⟩ := hfinite word hword start stop hmatch
      obtain ⟨startFloor,hfloor⟩ := exists_round Int.floor hs
      obtain ⟨endCeil,hceil⟩ := exists_round Int.ceil he
      rw [rawWindow_of_matched hmatch hfloor hceil]
      rfl
    · rw [rawWindow_of_not_matched (fun start stop h => hmatch ⟨start,stop,h⟩)]
      rfl
  refine ⟨_,readAll_eq_some_iff.mpr ⟨hsome,rfl⟩,?_⟩
  intro w
  rw [List.mem_filterMap]
  constructor
  · rintro ⟨word,hword,hread⟩
    exact ⟨word,hword,matched_of_rawWindow (Option.join_eq_some_iff.mp hread)⟩
  · rintro ⟨word,hword,start,stop,startFloor,endCeil,hmatch,hfloor,hceil,rfl⟩
    refine ⟨word,hword,?_⟩
    rw [rawWindow_of_matched hmatch hfloor hceil]
    rfl

/-- The sidecar merges like the Python module where no sum leaves 64 bits. -/
theorem foldl_wrapI64 {intervals : List (ℤ × ℤ)} (hfits : ∀ w ∈ intervals, InI64 (w.2 + mergeGapMs)) :
    (sortByKey toLex intervals).foldl
        (joinPush (fun last next => next.1 ≤ wrapI64 (last.2 + mergeGapMs)) extend) [] =
      mergeWindows mergeGapMs intervals := by
  rw [mergeWindows,foldl_joinPush,foldl_joinPush]
  apply joinAll_congr (P := fun w => InI64 (w.2 + mergeGapMs))
  · intro a b ha
    rw [wrapI64_of_inI64 ha]
  · intro a b ha hb
    rcases max_choice a.2 b.2 with h | h
    · rw [extend,h]
      exact ha
    · rw [extend,h]
      exact hb
  · intro w hw
    exact hfits w ((mem_sortByKey toLex intervals w).mp hw)

end Extraction

/-- The windows to bleep are the hulls of the components of the padded intervals of the matched
words, and the sidecar finds the same ones in 64 bits. -/
theorem extractProfanityWindows_bleeps (T : Text) (terms : List String)
    (padStartMs padEndMs mergeGapMs : ℤ) (hgap : 0 ≤ mergeGapMs) (segments : List (List Word))
    (hfinite : ∀ word ∈ segments.flatten, ∀ start stop, Matched T terms word start stop →
      (millis start).toRat.isSome ∧ (millis stop).toRat.isSome) :
    ∃ intervals windows, extractProfanityWindows T terms padStartMs padEndMs mergeGapMs segments =
        some (windows,segments.any (· ≠ [])) ∧
      (∀ w, w ∈ intervals ↔ ∃ word ∈ segments.flatten, ∃ start stop startFloor endCeil,
        Matched T terms word start stop ∧ floor (millis start) = some startFloor ∧
          ceil (millis stop) = some endCeil ∧
            w = paddedWindow padStartMs padEndMs startFloor endCeil) ∧
      Bleeps mergeGapMs intervals windows ∧
      ∀ words : List ProfanityWord, words.map ProfanityWord.toWord = segments.flatten →
        (∀ term ∈ terms, T.lower term = term) →
        (∀ word ∈ segments.flatten, ∀ start stop startFloor endCeil,
          Matched T terms word start stop → floor (millis start) = some startFloor →
            ceil (millis stop) = some endCeil →
              FitsI64 padStartMs padEndMs mergeGapMs startFloor endCeil) →
        runTranscriptProfanityWindows T ⟨words,terms,padStartMs,padEndMs,mergeGapMs⟩ = windows := by
  obtain ⟨intervals,hintervals,hmem⟩ :=
    exists_intervals padStartMs padEndMs hfinite
  refine ⟨intervals,mergeWindows mergeGapMs intervals,?_,hmem,?_,?_⟩
  · rw [extractProfanityWindows,hintervals]
    rfl
  · apply mergeWindows_bleeps hgap
    intro w hw
    obtain ⟨-,-,-,-,startFloor,endCeil,-,-,-,rfl⟩ := (hmem w).mp hw
    exact paddedWindow_lt _ _ startFloor endCeil
  · intro words hwords hlower hfits
    have hrust : words.filterMap (rustWindow T ⟨words,terms,padStartMs,padEndMs,mergeGapMs⟩) =
        intervals := by
      rw [(readAll_eq_some_iff.mp hintervals).2,← hwords,List.filterMap_map]
      apply List.filterMap_congr
      intro word hword
      have hword' : word.toWord ∈ segments.flatten := hwords ▸ List.mem_map_of_mem hword
      exact rustWindow_eq hlower word hgap (hfits _ hword') (hfinite _ hword')
    rw [runTranscriptProfanityWindows,hrust]
    apply foldl_wrapI64
    intro w hw
    obtain ⟨word,hword,start,stop,startFloor,endCeil,hmatch,hfloor,hceil,rfl⟩ := (hmem w).mp hw
    exact (hfits word hword start stop startFloor endCeil hmatch hfloor hceil).gap

/-- The white space and the lower case of ASCII. -/
def plainText : Text := ⟨isWhitespace,String.toLower⟩

/-- Words with one time, in seconds. -/
def timedWord (text : String) (start stop : ℚ) : Word :=
  ⟨some text,some (Extended.ofRat start),some (Extended.ofRat stop)⟩

/-- Two words a tenth of a second apart, one of them in another case, around one that stays. -/
theorem extractProfanityWindows_bleeps_damn :
    ∃ intervals windows, extractProfanityWindows plainText ["damn"] 150 150 80
        [[timedWord "Damn," 1 (3 / 2),timedWord "nice" (3 / 2) 2],[timedWord "damn" 2 3]] =
          some (windows,true) ∧ Bleeps 80 intervals windows := by
  obtain ⟨intervals,windows,hextract,-,hbleeps,-⟩ := extractProfanityWindows_bleeps plainText ["damn"]
    150 150 80 (by decide) [[timedWord "Damn," 1 (3 / 2),timedWord "nice" (3 / 2) 2],
      [timedWord "damn" 2 3]] (by
        intro word hword start stop hmatch
        obtain ⟨hstart,hstop,-⟩ := hmatch
        simp only [List.flatten_cons,List.flatten_nil,List.append_nil,List.mem_append,List.mem_cons,
          List.not_mem_nil,or_false] at hword
        rcases hword with (rfl | rfl) | rfl
        all_goals
          cases hstart
          cases hstop
          decide +kernel)
  exact ⟨intervals,windows,hextract,hbleeps⟩

/-- A time too large for its milliseconds stops the Python module, and one too large for 64 bits gives
another window in the sidecar. -/
theorem not_extracted_huge :
    extractProfanityWindows plainText ["damn"] 150 150 80
        [[timedWord "damn" (10 ^ 306) (10 ^ 306)]] = none ∧
      (extractProfanityWindows plainText ["damn"] 150 150 80
        [[timedWord "damn" (10 ^ 17) (10 ^ 17)]]).map Prod.fst ≠
          some (runTranscriptProfanityWindows plainText
            ⟨[⟨some "damn",some (10 ^ 17),some (10 ^ 17)⟩],["damn"],150,150,80⟩) := by
  decide +kernel

end Podly.ProfanityFilter
