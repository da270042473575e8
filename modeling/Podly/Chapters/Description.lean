import Podly.Chapters.Retime
import Podly.Lists.BestChain

/-! Chapters from the timestamps of an episode description: a longest list of lines whose timestamps
increase, as a table of best lists that end at each line finds it. -/
namespace Podly.Chapters

/-- A line with a timestamp. -/
structure Candidate where
  lineNo : ℤ
  startMs : ℤ
  title : String
deriving DecidableEq

/-- The candidates come in the order of their lines, one for a line. -/
structure CandidateList where
  entries : List Candidate
  lines : entries.Pairwise (fun a b => a.lineNo < b.lineNo)

/-! The selection -/

/-- An entry of the tables `lengths` and `prev_idx`; no previous entry stands for -1. -/
structure Slot where
  candidate : Candidate
  length : ℕ
  prevIdx : Option ℕ

/-- `_reconstruct_candidate_sequence`, over the slots with the latest one first: the index of a slot
is the number of slots behind it, and the previous entry is always an earlier one. -/
def reconstructCandidateSequence : List Slot → Option ℕ → List Candidate
  | [], _ => []
  | slot::slots, endIdx =>
    if endIdx = some slots.length then
      reconstructCandidateSequence slots slot.prevIdx ++ [slot.candidate]
    else reconstructCandidateSequence slots endIdx

/-- `_candidate_line_span`. -/
def candidateLineSpan (candidates : List Candidate) : ℤ :=
  match candidates.head?, candidates.getLast? with
  | some first, some last => last.lineNo - first.lineNo
  | _, _ => 0

/-- The loop over the candidates before a candidate: its length and its previous entry. -/
def bestPrevious (c : Candidate) : List Slot → ℕ × Option ℕ
  | [] => (1,none)
  | slot::slots =>
    let best := bestPrevious c slots
    if c.startMs ≤ slot.candidate.startMs then best
    else
      let nextLen := slot.length + 1
      if best.1 < nextLen then (nextLen,some slots.length)
      else if nextLen < best.1 then best
      else
        let currentChain := reconstructCandidateSequence slots best.2 ++ [c]
        let challengerChain :=
          reconstructCandidateSequence (slot::slots) (some slots.length) ++ [c]
        if candidateLineSpan challengerChain < candidateLineSpan currentChain then
          (best.1,some slots.length)
        else best

/-- The tables of the candidates, the latest one first. -/
def slotsOf (candidates : List Candidate) : List Slot :=
  candidates.foldl (fun slots c =>
    ⟨c,(bestPrevious c slots).1,(bestPrevious c slots).2⟩::slots) []

/-- The first slot of largest length, on the earliest line, with its index. -/
def bestSlot : List Slot → Option (ℕ × Slot)
  | [] => none
  | slot::slots =>
    match bestSlot slots with
    | none => some (slots.length,slot)
    | some best =>
      if best.2.length < slot.length ∨ best.2.length = slot.length ∧
          slot.candidate.lineNo < best.2.candidate.lineNo then
        some (slots.length,slot)
      else some best

/-- The candidates without those whose start was seen. -/
def dedupeStarts : List ℤ → List Candidate → List Candidate
  | _, [] => []
  | seen, c::candidates =>
    if c.startMs ∈ seen then dedupeStarts seen candidates
    else c::dedupeStarts (c.startMs::seen) candidates

/-- `_select_monotonic_candidates`. -/
def selectMonotonicCandidates (candidates : List Candidate) : List Candidate :=
  let slots := slotsOf candidates
  match bestSlot slots with
  | none => []
  | some best => dedupeStarts [] (reconstructCandidateSequence slots (some best.1))

/-! The timestamps -/

/-- What the parser takes from the language and from its patterns for markup: the decimal value of a
digit, the lines of a description, and the title that is left of a fragment. -/
structure Markup where
  digit : Char → Option ℕ
  descriptionLines : String → List String
  cleanTitleFragment : List Char → String

section
variable (M : Markup)

/-- One or two digits and a colon. -/
def timestampField : List Char → Option (List ℕ × List Char)
  | a::b::rest =>
    match M.digit a with
    | none => none
    | some x =>
      if b = ':' then some ([x],rest)
      else
        match M.digit b, rest with
        | some y, ':'::rest => some ([x,y],rest)
        | _, _ => none
  | _ => none

/-- Two digits without one behind them. -/
def timestampSeconds : List Char → Option (List ℕ × List Char)
  | a::b::rest =>
    match M.digit a, M.digit b with
    | some x, some y =>
      if rest.head?.any (fun c => (M.digit c).isSome) then none else some ([x,y],rest)
    | _, _ => none
  | _ => none

/-- A timestamp at the front, with its hours if it can. -/
def matchTimestamp (cs : List Char) : Option (List (List ℕ) × List Char) :=
  let short := fun cs => do
    let (minutes,rest) ← timestampField M cs
    let (seconds,rest) ← timestampSeconds M rest
    return ([minutes,seconds],rest)
  let long := do
    let (hours,rest) ← timestampField M cs
    let (parts,rest) ← short rest
    return (hours::parts,rest)
  long <|> short cs

/-- `_TIMESTAMP_RE.search`: the text before the first timestamp, its parts, and the text after. -/
def searchTimestamp (before : List Char) : List Char →
    Option (List Char × List (List ℕ) × List Char)
  | [] => none
  | c::cs =>
    let behindDigit := before.getLast?.any (fun c => (M.digit c).isSome)
    match if behindDigit then none else matchTimestamp M (c::cs) with
    | some (parts,after) => some (before,parts,after)
    | none => searchTimestamp (before ++ [c]) cs

/-- The number that digits write. -/
def digitsValue (digits : List ℕ) : ℤ := digits.foldl (fun value d => 10 * value + d) 0

/-- `_parse_timestamp_ms`. -/
def parseTimestampMs : List (List ℕ) → Option ℤ
  | [minutes,seconds] =>
    if 60 ≤ digitsValue seconds then none
    else some ((digitsValue minutes * 60 + digitsValue seconds) * 1000)
  | [hours,minutes,seconds] =>
    if 60 ≤ digitsValue seconds ∨ 60 ≤ digitsValue minutes then none
    else some ((digitsValue hours * 3600 + digitsValue minutes * 60 + digitsValue seconds) * 1000)
  | _ => none

/-- `_extract_title`: from the text after the timestamp, else from the text before it. -/
def extractTitle (before after : List Char) : String :=
  let trailing := M.cleanTitleFragment after
  if trailing = "" then M.cleanTitleFragment before else trailing

/-- The candidate of a line, given how many there are before it. -/
def lineCandidate (count : ℕ) (lineNo : ℤ) (line : String) : Option Candidate :=
  match searchTimestamp M [] line.toList with
  | none => none
  | some (before,parts,after) =>
    (parseTimestampMs parts).map fun startMs =>
      let title := extractTitle M before after
      ⟨lineNo,startMs,if title = "" then "Chapter " ++ toString (count + 1) else title⟩

/-- The candidates of lines that are numbered from a number on. -/
def lineCandidates (count : ℕ) (lineNo : ℤ) : List String → List Candidate
  | [] => []
  | line::lines =>
    match lineCandidate M count lineNo line with
    | none => lineCandidates count (lineNo + 1) lines
    | some c => c::lineCandidates (count + 1) (lineNo + 1) lines

/-- The chapters of candidates that are numbered from a number on. -/
def descriptionChapters (totalDurationMs : Option ℤ) : ℕ → List Candidate → List Chapter
  | _, [] => []
  | index, c::candidates =>
    let endMs := match candidates with
      | next::_ => next.startMs
      | [] => totalDurationMs.getD c.startMs
    Chapter.make ("desc" ++ toString index) c.title c.startMs (max c.startMs endMs)::
      descriptionChapters totalDurationMs (index + 1) candidates

/-- `parse_chapters_from_description` behind the loop over the lines. -/
def chaptersFromCandidates (totalDurationMs : Option ℤ) (minChapters : ℤ)
    (candidates : List Candidate) : List Chapter :=
  if candidates = [] then []
  else
    let uniqueCandidates := selectMonotonicCandidates candidates
    if (uniqueCandidates.length : ℤ) < minChapters then []
    else if ∃ total ∈ totalDurationMs, ∃ last ∈ uniqueCandidates.getLast?, total ≤ last.startMs then
      []
    else descriptionChapters totalDurationMs 0 uniqueCandidates

/-- `parse_chapters_from_description`. -/
def parseChaptersFromDescription (description : String) (totalDurationMs : Option ℤ)
    (minChapters : ℤ) : List Chapter :=
  if description = "" then []
  else chaptersFromCandidates totalDurationMs minChapters
    (lineCandidates M 0 0 (M.descriptionLines description))

end

section Selection
open BestChain
variable {slots : List Slot} {c : Candidate} {candidates : List Candidate}

/-- The candidates of the slots, in order. -/
def candidatesOf (slots : List Slot) : List Candidate := (slots.map Slot.candidate).reverse

/-- The chain that a slot stands for, given the slots before it. -/
def chainOf (slot : Slot) (slots : List Slot) : List Candidate :=
  reconstructCandidateSequence slots slot.prevIdx ++ [slot.candidate]

/-- Candidates may follow each other where their starts increase. -/
def Precedes (a c : Candidate) : Prop := a.startMs < c.startMs

/-- Each slot stands for a best chain that ends at its candidate: a longest one, and among those one
with the latest first line. -/
def Good : List Slot → Prop
  | [] => True
  | slot::slots => Good slots ∧ slot.length = (chainOf slot slots).length ∧
      Best Precedes Candidate.lineNo (candidatesOf slots) slot.candidate (chainOf slot slots)

theorem candidatesOf_cons (slot : Slot) (slots : List Slot) :
    candidatesOf (slot::slots) = candidatesOf slots ++ [slot.candidate] := by
  rw [candidatesOf,List.map_cons,List.reverse_cons]
  rfl

theorem reconstructCandidateSequence_length (slot : Slot) (slots : List Slot) :
    reconstructCandidateSequence (slot::slots) (some slots.length) = chainOf slot slots := by
  rw [reconstructCandidateSequence,if_pos rfl]
  rfl

theorem reconstructCandidateSequence_cons (slot : Slot) {endIdx : Option ℕ}
    (h : ∀ k ∈ endIdx, k < slots.length) :
    reconstructCandidateSequence (slot::slots) endIdx =
      reconstructCandidateSequence slots endIdx := by
  rw [reconstructCandidateSequence,if_neg]
  rintro rfl
  exact lt_irrefl _ (h _ rfl)

theorem reconstructCandidateSequence_append (later : List Slot) (slot : Slot) (slots : List Slot) :
    reconstructCandidateSequence (later ++ slot::slots) (some slots.length) =
      chainOf slot slots := by
  induction later with
  | nil => exact reconstructCandidateSequence_length slot slots
  | cons first later ih =>
    rw [List.cons_append,reconstructCandidateSequence_cons first,ih]
    intro k hk
    obtain rfl := Option.some.inj hk
    simp
    omega

theorem candidateLineSpan_cons {x : Candidate} {xs : List Candidate}
    (h : (x::xs).getLast? = some c) : candidateLineSpan (x::xs) = c.lineNo - x.lineNo := by
  rw [candidateLineSpan,h]
  rfl

/-- Of two chains of one length that end alike, the more compact one is the heavier one. -/
theorem weight_le_of_span_le {chain other : List Candidate} (hne : chain ≠ [])
    (hchain : chain.getLast? = some c) (hother : other.getLast? = some c)
    (hlength : other.length = chain.length)
    (hspan : candidateLineSpan chain ≤ candidateLineSpan other) :
    weight Candidate.lineNo other ≤ weight Candidate.lineNo chain := by
  refine weight_le_iff.mpr (.inr ⟨hlength,?_⟩)
  obtain ⟨x,xs,rfl⟩ := List.exists_cons_of_ne_nil hne
  cases other with
  | nil => cases hother
  | cons y ys =>
    rw [candidateLineSpan_cons hchain,candidateLineSpan_cons hother] at hspan
    apply WithBot.coe_le_coe.mpr
    omega

/-- The loop over the candidates before `c` finds a best chain that ends at `c`. -/
theorem bestPrevious_spec (hgood : Good slots) :
    (∀ k ∈ (bestPrevious c slots).2, k < slots.length) ∧
      (bestPrevious c slots).1 =
        (reconstructCandidateSequence slots (bestPrevious c slots).2 ++ [c]).length ∧
      Best Precedes Candidate.lineNo (candidatesOf slots) c
        (reconstructCandidateSequence slots (bestPrevious c slots).2 ++ [c]) := by
  induction slots with
  | nil => exact ⟨nofun,rfl,best_nil⟩
  | cons slot slots ih =>
    obtain ⟨hgood,hslotLength,hslot⟩ := hgood
    obtain ⟨hearlier,hlength,hbest⟩ := ih hgood
    generalize hb : bestPrevious c slots = best at hearlier hlength hbest
    -- the loop keeps its best chain, or goes through the slot
    have hkept : ∀ k ∈ best.2, k < (slot::slots).length := fun k hk =>
      (hearlier k hk).trans (Nat.lt_succ_self _)
    have hkeep := reconstructCandidateSequence_cons slot hearlier
    have hthrough := reconstructCandidateSequence_length slot slots
    have hlatest : ∀ k ∈ some slots.length, k < (slot::slots).length := by
      intro k hk
      obtain rfl := Option.some.inj hk
      exact Nat.lt_succ_self _
    have hthroughLength : (chainOf slot slots ++ [c]).length = slot.length + 1 := by
      rw [hslotLength,List.length_append]
      rfl
    have hlast : ∀ chain : List Candidate, (chain ++ [c]).getLast? = some c :=
      fun _ => List.getLast?_concat
    rw [candidatesOf_cons]
    simp only [bestPrevious,hb,hthrough]
    split
    · rename_i hstart
      exact ⟨hkept,by rw [hkeep,hlength],by rw [hkeep]; exact hbest.skip (not_lt.mpr hstart)⟩
    · rename_i hstart
      have hprecedes : Precedes slot.candidate c := not_le.mp hstart
      split
      · rename_i hlonger
        refine ⟨hlatest,by rw [hthrough,hthroughLength],?_⟩
        rw [hthrough]
        apply hbest.replace hslot hprecedes
        exact weight_le_iff.mpr (.inl (by omega))
      · split
        · rename_i hshorter
          refine ⟨hkept,by rw [hkeep,hlength],?_⟩
          rw [hkeep]
          apply hbest.keep hslot
          exact weight_le_iff.mpr (.inl (by omega))
        · split
          · rename_i hspan
            refine ⟨hlatest,by rw [hthrough,hthroughLength]; omega,?_⟩
            rw [hthrough]
            apply hbest.replace hslot hprecedes
            exact weight_le_of_span_le (List.concat_ne_nil c _) (hlast _) (hlast _) (by omega)
              hspan.le
          · rename_i hspan
            refine ⟨hkept,by rw [hkeep,hlength],?_⟩
            rw [hkeep]
            apply hbest.keep hslot
            exact weight_le_of_span_le (List.concat_ne_nil c _) (hlast _) (hlast _) (by omega)
              (not_lt.mp hspan)

theorem foldl_slots_good (candidates : List Candidate) (slots : List Slot) (hgood : Good slots) :
    let all := candidates.foldl (fun slots c =>
      ⟨c,(bestPrevious c slots).1,(bestPrevious c slots).2⟩::slots) slots
    Good all ∧ candidatesOf all = candidatesOf slots ++ candidates := by
  induction candidates generalizing slots with
  | nil => exact ⟨hgood,(List.append_nil _).symm⟩
  | cons c candidates ih =>
    obtain ⟨-,hlength,hbest⟩ := bestPrevious_spec (c := c) hgood
    have h := ih (⟨c,(bestPrevious c slots).1,(bestPrevious c slots).2⟩::slots)
      ⟨hgood,hlength,hbest⟩
    rw [candidatesOf_cons,List.append_assoc] at h
    exact h

theorem slotsOf_good (candidates : List Candidate) :
    Good (slotsOf candidates) ∧ candidatesOf (slotsOf candidates) = candidates :=
  foldl_slots_good candidates [] trivial

theorem Good.of_append {later : List Slot} (h : Good (later ++ slots)) : Good slots := by
  induction later with
  | nil => exact h
  | cons slot later ih => exact ih h.1

/-- The best slot is a longest one, and on the earliest line among those. -/
theorem bestSlot_spec {best : ℕ × Slot} (h : bestSlot slots = some best) :
    (∃ later earlier, slots = later ++ best.2::earlier ∧ best.1 = earlier.length) ∧
      ∀ slot ∈ slots, slot.length < best.2.length ∨ slot.length = best.2.length ∧
        best.2.candidate.lineNo ≤ slot.candidate.lineNo := by
  induction slots generalizing best with
  | nil => cases h
  | cons slot slots ih =>
    rw [bestSlot] at h
    cases hrest : bestSlot slots with
    | none =>
      rw [hrest] at h
      obtain rfl := Option.some.inj h
      cases slots with
      | nil =>
        refine ⟨⟨[],[],rfl,rfl⟩,?_⟩
        intro slot' hslot'
        rw [List.mem_singleton.mp hslot']
        exact .inr ⟨rfl,le_rfl⟩
      | cons next slots =>
        rw [bestSlot] at hrest
        split at hrest
        · cases hrest
        · split at hrest <;> cases hrest
    | some before =>
      obtain ⟨⟨later,earlier,hslots,hindex⟩,hbest⟩ := ih hrest
      rw [hrest] at h
      simp only at h
      split at h
      · rename_i hbetter
        obtain rfl := Option.some.inj h
        refine ⟨⟨[],slots,rfl,rfl⟩,?_⟩
        refine List.forall_mem_cons.mpr ⟨.inr ⟨rfl,le_rfl⟩,?_⟩
        intro slot' hslot'
        have := hbest slot' hslot'
        simp only
        omega
      · rename_i hbetter
        obtain rfl := Option.some.inj h
        refine ⟨⟨slot::later,earlier,by rw [hslots]; rfl,hindex⟩,?_⟩
        exact List.forall_mem_cons.mpr ⟨by omega,hbest⟩

theorem bestSlot_eq_none (h : bestSlot slots = none) : slots = [] := by
  cases slots with
  | nil => rfl
  | cons slot slots =>
    rw [bestSlot] at h
    split at h
    · cases h
    · split at h <;> cases h

theorem dedupeStarts_eq_self {seen : List ℤ} (hnew : ∀ c ∈ candidates, c.startMs ∉ seen)
    (hstarts : candidates.Pairwise (fun a b => a.startMs < b.startMs)) :
    dedupeStarts seen candidates = candidates := by
  induction candidates generalizing seen with
  | nil => rfl
  | cons c candidates ih =>
    obtain ⟨hlt,hstarts⟩ := List.pairwise_cons.mp hstarts
    obtain ⟨hc,hnew⟩ := List.forall_mem_cons.mp hnew
    rw [dedupeStarts,if_neg hc,ih _ hstarts]
    intro d hd hmem
    rcases List.mem_cons.mp hmem with heq | hseen
    · exact (hlt d hd).ne heq.symm
    · exact hnew d hd hseen

theorem pairwise_of_isChain (h : candidates.IsChain Precedes) :
    candidates.Pairwise (fun a b => a.startMs < b.startMs) := by
  have : IsTrans Candidate Precedes := ⟨fun _ _ _ hab hbc => lt_trans hab hbc⟩
  exact List.isChain_iff_pairwise.mp h

/-- In line order a line tells what is before it. -/
theorem before_eq_takeWhile {before rest : List Candidate}
    (hlines : (before ++ c::rest).Pairwise (fun a b => a.lineNo < b.lineNo)) :
    before = (before ++ c::rest).takeWhile (fun a => decide (a.lineNo < c.lineNo)) := by
  rw [List.takeWhile_append_of_pos]
  · rw [List.takeWhile_cons_of_neg (by simp),List.append_nil]
  · intro a ha
    have := (List.pairwise_append.mp hlines).2.2 a ha c List.mem_cons_self
    simpa using this

end Selection

/-- A longest list of candidates whose starts increase, which ends on the earliest line that such a
list can end on and spans the fewest lines of those that end there. -/
structure Longest (candidates selected : List Candidate) : Prop where
  sublist : selected.Sublist candidates
  increasing : selected.Pairwise (fun a b => a.startMs < b.startMs)
  longest : ∀ other : List Candidate, other.Sublist candidates →
    other.Pairwise (fun a b => a.startMs < b.startMs) → other.length ≤ selected.length
  earliest : ∀ other : List Candidate, other.Sublist candidates →
    other.Pairwise (fun a b => a.startMs < b.startMs) → other.length = selected.length →
      ∀ last ∈ selected.getLast?, ∀ otherLast ∈ other.getLast?, last.lineNo ≤ otherLast.lineNo
  compact : ∀ other : List Candidate, other.Sublist candidates →
    other.Pairwise (fun a b => a.startMs < b.startMs) → other.length = selected.length →
      other.getLast?.map Candidate.lineNo = selected.getLast?.map Candidate.lineNo →
        candidateLineSpan selected ≤ candidateLineSpan other

section Longest
open BestChain

/-- A list of increasing candidates is a chain to a slot of its last one. -/
theorem exists_slot {slots : List Slot} {candidates other : List Candidate}
    (hslots : candidatesOf slots = candidates) (hne : other ≠ [])
    (hsublist : other.Sublist candidates)
    (hincreasing : other.Pairwise (fun a b => a.startMs < b.startMs)) :
    ∃ later slot earlier, slots = later ++ slot::earlier ∧
      EndsAt Precedes (candidatesOf earlier) slot.candidate other := by
  obtain ⟨before,c,rest,hcandidates,hends⟩ :=
    exists_endsAt (r := Precedes) hne hsublist hincreasing.isChain
  have hmap : slots.map Slot.candidate = rest.reverse ++ c::before.reverse := by
    rw [← hslots,candidatesOf] at hcandidates
    rw [← List.reverse_reverse (slots.map Slot.candidate),hcandidates]
    simp
  obtain ⟨later,tail,rfl,-,htail⟩ := List.map_eq_append_iff.mp hmap
  obtain ⟨slot,earlier,rfl,rfl,hearlier⟩ := List.map_eq_cons_iff.mp htail
  refine ⟨later,slot,earlier,rfl,?_⟩
  rwa [candidatesOf,hearlier,List.reverse_reverse]

/-- The slots around a slot are those of the candidates around its candidate. -/
theorem candidatesOf_split {slots later earlier : List Slot} {slot : Slot}
    (h : slots = later ++ slot::earlier) :
    candidatesOf slots = candidatesOf earlier ++ slot.candidate::candidatesOf later := by
  rw [h,candidatesOf,List.map_append,List.reverse_append,List.map_cons,List.reverse_cons,
    List.append_assoc]
  rfl

/-- On one line there is one candidate, with what is before it. -/
theorem eq_of_lineNo_eq {candidates before before' rest rest' : List Candidate} {c c' : Candidate}
    (hlines : candidates.Pairwise (fun a b => a.lineNo < b.lineNo))
    (h : candidates = before ++ c::rest) (h' : candidates = before' ++ c'::rest')
    (hline : c'.lineNo = c.lineNo) : before' = before ∧ c' = c := by
  have hbefore := before_eq_takeWhile (h ▸ hlines)
  have hbefore' := before_eq_takeWhile (h' ▸ hlines)
  rw [← h] at hbefore
  rw [← h',hline,← hbefore] at hbefore'
  rw [hbefore'] at h'
  exact ⟨hbefore',(List.cons.inj (List.append_cancel_left (h'.symm.trans h))).1⟩

/-- A list of increasing candidates is no longer than the chain of a slot of its last one, which is no
better than the best slot. -/
theorem exists_slot_le {candidates other : List Candidate} {best : ℕ × Slot}
    (hbest : bestSlot (slotsOf candidates) = some best) (hne : other ≠ [])
    (hsublist : other.Sublist candidates)
    (hincreasing : other.Pairwise (fun a b => a.startMs < b.startMs)) :
    ∃ later slot earlier, slotsOf candidates = later ++ slot::earlier ∧
      EndsAt Precedes (candidatesOf earlier) slot.candidate other ∧ other.length ≤ slot.length ∧
        (slot.length < best.2.length ∨ slot.length = best.2.length ∧
          best.2.candidate.lineNo ≤ slot.candidate.lineNo) := by
  obtain ⟨hgood,hcandidates⟩ := slotsOf_good candidates
  obtain ⟨later,slot,earlier,hslots,hends⟩ := exists_slot hcandidates hne hsublist hincreasing
  obtain ⟨-,hlength,hheaviest⟩ : Good (slot::earlier) := (hslots ▸ hgood).of_append
  refine ⟨later,slot,earlier,hslots,hends,?_,(bestSlot_spec hbest).2 slot (by rw [hslots]; simp)⟩
  rw [hlength]
  exact length_le_of_weight_le (hheaviest.heaviest other hends)

/-- The selection of candidates in line order. -/
theorem selectMonotonicCandidates_longest (C : CandidateList) :
    Longest C.entries (selectMonotonicCandidates C.entries) := by
  obtain ⟨hgood,hcandidates⟩ := slotsOf_good C.entries
  rw [selectMonotonicCandidates]
  cases hbest : bestSlot (slotsOf C.entries) with
  | none =>
    rw [bestSlot_eq_none hbest] at hcandidates
    rw [← hcandidates]
    refine ⟨List.nil_sublist _,List.Pairwise.nil,?_,fun _ _ _ _ => nofun,?_⟩
    · intro other hother _
      exact hother.length_le
    · intro other hother _ _ _
      rw [List.sublist_nil.mp hother]
  | some best =>
    obtain ⟨later,earlier,hslots,hindex⟩ := (bestSlot_spec hbest).1
    obtain ⟨-,hlength,hchain⟩ : Good (best.2::earlier) := (hslots ▸ hgood).of_append
    have hstarts := pairwise_of_isChain hchain.isChain
    have hselected : dedupeStarts [] (reconstructCandidateSequence (slotsOf C.entries)
        (some best.1)) = chainOf best.2 earlier := by
      rw [hslots,hindex,reconstructCandidateSequence_append]
      exact dedupeStarts_eq_self (fun _ _ => List.not_mem_nil) hstarts
    simp only [hselected]
    have hentries := hcandidates.symm.trans (candidatesOf_split hslots)
    have hlast := hchain.getLast?
    refine ⟨?_,hstarts,?_,?_,?_⟩
    · obtain ⟨q,hq,hchainOf⟩ := hchain.front
      rw [hentries,hchainOf]
      exact hq.append ((List.nil_sublist _).cons_cons _)
    · intro other hsublist hincreasing
      rcases List.eq_nil_or_concat' other with rfl | ⟨front,last,rfl⟩
      · exact Nat.zero_le _
      · obtain ⟨_,slot,_,_,_,hle,hlarge⟩ :=
          exists_slot_le hbest (List.concat_ne_nil last front) hsublist hincreasing
        omega
    · intro other hsublist hincreasing hsame last hmem otherLast hotherMem
      have hne : other ≠ [] := List.ne_nil_of_mem (List.mem_of_getLast? hotherMem)
      obtain ⟨_,slot,_,_,hends,hle,hlarge⟩ := exists_slot_le hbest hne hsublist hincreasing
      obtain rfl := Option.some.inj (hlast.symm.trans hmem)
      obtain rfl := Option.some.inj (hends.getLast?.symm.trans hotherMem)
      omega
    · intro other hsublist hincreasing hsame hend
      have hne : other ≠ [] := by
        rintro rfl
        rw [hlast] at hend
        cases hend
      obtain ⟨later',slot,earlier',hslots',hends,-,-⟩ :=
        exists_slot_le hbest hne hsublist hincreasing
      rw [hlast,hends.getLast?] at hend
      have hentries' := hcandidates.symm.trans (candidatesOf_split hslots')
      obtain ⟨hbefore,hcandidate⟩ :=
        eq_of_lineNo_eq C.lines hentries hentries' (Option.some.inj hend)
      rw [hbefore,hcandidate] at hends
      have hweight := hchain.heaviest other hends
      obtain ⟨x,xs,hx⟩ := List.exists_cons_of_ne_nil hchain.ne_nil
      obtain ⟨y,ys,rfl⟩ := List.exists_cons_of_ne_nil hne
      rw [hx] at hweight hlast hsame ⊢
      have hkey := key_le_of_weight_le hweight (Nat.succ.inj hsame)
      rw [candidateLineSpan_cons hlast,candidateLineSpan_cons hends.getLast?]
      omega

end Longest

/-- The chapters of a description: in order, each ends where the next one starts, and the last one
with the episode, or at its own start where the duration is not known. -/
structure Listing (totalDurationMs : Option ℤ) (chapters : List Chapter) : Prop where
  increasing : chapters.Pairwise (fun a b => a.startTimeMs < b.startTimeMs)
  contiguous : chapters.IsChain (fun a b => a.endTimeMs = b.startTimeMs)
  lastEnds : ∀ c ∈ chapters.getLast?, c.endTimeMs = totalDurationMs.getD c.startTimeMs

section Parsed
variable {M : Markup} {totalDurationMs : Option ℤ} {index count : ℕ} {lineNo : ℤ}
  {lines : List String} {candidates : List Candidate}

theorem lineCandidate_lineNo {c : Candidate} {line : String}
    (h : lineCandidate M count lineNo line = some c) : c.lineNo = lineNo := by
  rw [lineCandidate] at h
  split at h
  · cases h
  · obtain ⟨startMs,-,rfl⟩ := Option.map_eq_some_iff.mp h
    rfl

theorem lineCandidates_increasing :
    (∀ c ∈ lineCandidates M count lineNo lines, lineNo ≤ c.lineNo) ∧
      (lineCandidates M count lineNo lines).Pairwise (fun a b => a.lineNo < b.lineNo) := by
  induction lines generalizing count lineNo with
  | nil => exact ⟨nofun,List.Pairwise.nil⟩
  | cons line lines ih =>
    rw [lineCandidates]
    split
    · obtain ⟨hle,hlt⟩ := @ih count (lineNo + 1)
      refine ⟨?_,hlt⟩
      intro c hc
      have := hle c hc
      omega
    · rename_i c hc
      obtain ⟨hle,hlt⟩ := @ih (count + 1) (lineNo + 1)
      have hfirst := lineCandidate_lineNo hc
      refine ⟨?_,List.pairwise_cons.mpr ⟨?_,hlt⟩⟩
      · refine List.forall_mem_cons.mpr ⟨hfirst.ge,?_⟩
        intro d hd
        have := hle d hd
        omega
      · intro d hd
        have := hle d hd
        omega

theorem descriptionChapters_startTimeMs :
    (descriptionChapters totalDurationMs index candidates).map Chapter.startTimeMs =
      candidates.map Candidate.startMs := by
  induction candidates generalizing index with
  | nil => rfl
  | cons c candidates ih =>
    rw [descriptionChapters.eq_def,List.map_cons,List.map_cons,ih,Chapter.make_startTimeMs]

theorem descriptionChapters_endTimeMs {last : Candidate} (hlast : candidates.getLast? = some last) :
    (descriptionChapters totalDurationMs index candidates).map Chapter.endTimeMs =
      followingEnds (totalDurationMs.getD last.startMs) (candidates.map Candidate.startMs) := by
  induction candidates generalizing index with
  | nil => rfl
  | cons c candidates ih =>
    rw [descriptionChapters.eq_def,List.map_cons,Chapter.make_endTimeMs,← max_assoc,max_self]
    cases candidates with
    | nil =>
      obtain rfl := Option.some.inj hlast
      rfl
    | cons next candidates =>
      rw [ih hlast]
      rfl

end Parsed

/-- The candidates of a description. -/
def descriptionCandidates (M : Markup) (description : String) : CandidateList :=
  ⟨lineCandidates M 0 0 (M.descriptionLines description),lineCandidates_increasing.2⟩

theorem listing_nil {totalDurationMs : Option ℤ} : Listing totalDurationMs [] :=
  ⟨List.Pairwise.nil,List.isChain_nil,nofun⟩

theorem descriptionChapters_titled {totalDurationMs : Option ℤ} {index : ℕ}
    {candidates : List Candidate} :
    (descriptionChapters totalDurationMs index candidates).map
        (fun chapter => (chapter.startTimeMs,chapter.title)) =
      candidates.map (fun c => (c.startMs,c.title)) := by
  induction candidates generalizing index with
  | nil => rfl
  | cons c candidates ih =>
    rw [descriptionChapters.eq_def,List.map_cons,List.map_cons,ih,Chapter.make_startTimeMs,
      Chapter.make_title]

/-- A list with a candidate has a selection. -/
theorem selectMonotonicCandidates_ne_nil {C : CandidateList} (h : C.entries ≠ []) :
    selectMonotonicCandidates C.entries ≠ [] := by
  intro hnil
  obtain ⟨c,cs,hc⟩ := List.exists_cons_of_ne_nil h
  have hlongest := (selectMonotonicCandidates_longest C).longest [c]
    (by rw [hc]; exact (List.nil_sublist _).cons_cons _) (List.pairwise_singleton _ _)
  rw [hnil] at hlongest
  exact absurd hlongest (by simp)

/-- What candidates are not made chapters of: none, too few that can be selected, and those whose
last selected one starts no earlier than the episode ends. -/
def Rejected (totalDurationMs : Option ℤ) (minChapters : ℤ) (candidates : List Candidate) : Prop :=
  candidates = [] ∨ ((selectMonotonicCandidates candidates).length : ℤ) < minChapters ∨
    ∃ total ∈ totalDurationMs, ∃ last ∈ (selectMonotonicCandidates candidates).getLast?,
      total ≤ last.startMs

/-- The code's three tests, one after the other. -/
theorem chaptersFromCandidates_eq (totalDurationMs : Option ℤ) (minChapters : ℤ)
    (candidates : List Candidate) :
    (Rejected totalDurationMs minChapters candidates →
        chaptersFromCandidates totalDurationMs minChapters candidates = []) ∧
      (¬ Rejected totalDurationMs minChapters candidates →
        chaptersFromCandidates totalDurationMs minChapters candidates =
          descriptionChapters totalDurationMs 0 (selectMonotonicCandidates candidates)) := by
  rw [chaptersFromCandidates,Rejected]
  simp only
  split_ifs with hcandidates hfew hlater
  · exact ⟨fun _ => rfl,fun h => absurd (.inl hcandidates) h⟩
  · exact ⟨fun _ => rfl,fun h => absurd (.inr (.inl hfew)) h⟩
  · exact ⟨fun _ => rfl,fun h => absurd (.inr (.inr hlater)) h⟩
  · refine ⟨?_,fun _ => rfl⟩
    rintro (h | h | h)
    · exact absurd h hcandidates
    · exact absurd h hfew
    · exact absurd h hlater

/-- The chapters of a selection that the code accepts. -/
theorem descriptionChapters_listing (C : CandidateList) {totalDurationMs : Option ℤ}
    {minChapters : ℤ} (h : ¬ Rejected totalDurationMs minChapters C.entries) :
    Listing totalDurationMs
      (descriptionChapters totalDurationMs 0 (selectMonotonicCandidates C.entries)) := by
  have hincreasing := (selectMonotonicCandidates_longest C).increasing
  have hstarts : (descriptionChapters totalDurationMs 0
      (selectMonotonicCandidates C.entries)).map Chapter.startTimeMs =
        (selectMonotonicCandidates C.entries).map Candidate.startMs :=
    descriptionChapters_startTimeMs
  rcases List.eq_nil_or_concat' (selectMonotonicCandidates C.entries) with hnil | ⟨front,last,heq⟩
  · rw [hnil]
    exact listing_nil
  have hlast : (selectMonotonicCandidates C.entries).getLast? = some last := by
    rw [heq,List.getLast?_concat]
  obtain ⟨hcontiguous,hends⟩ := contiguous_of_followingEnds hstarts
    (descriptionChapters_endTimeMs hlast) (List.pairwise_map.mpr hincreasing)
  refine ⟨?_,hcontiguous,?_⟩
  · rw [← List.pairwise_map (f := Chapter.startTimeMs),hstarts]
    exact List.pairwise_map.mpr hincreasing
  · intro c hc
    have hstart : c.startTimeMs = last.startMs := by
      have h := congrArg List.getLast? hstarts
      rw [List.getLast?_map,List.getLast?_map,hc,hlast] at h
      exact Option.some.inj h
    rw [hends c hc,hstart]
    cases totalDurationMs with
    | none => exact max_self _
    | some total =>
      -- an episode that ends by the last chapter has no chapters
      have hlong : last.startMs < total := by
        by_contra hshort
        exact h (.inr (.inr ⟨total,rfl,last,hlast,not_lt.mp hshort⟩))
      exact max_eq_right hlong.le

/-- The chapters of candidates: none where the code rejects them, and else those of the selection. -/
theorem chaptersFromCandidates_listing (C : CandidateList) (totalDurationMs : Option ℤ)
    (minChapters : ℤ) :
    Listing totalDurationMs (chaptersFromCandidates totalDurationMs minChapters C.entries) ∧
      (chaptersFromCandidates totalDurationMs minChapters C.entries = [] ↔
        Rejected totalDurationMs minChapters C.entries) ∧
      (¬ Rejected totalDurationMs minChapters C.entries →
        (chaptersFromCandidates totalDurationMs minChapters C.entries).map
            (fun chapter => (chapter.startTimeMs,chapter.title)) =
          (selectMonotonicCandidates C.entries).map (fun c => (c.startMs,c.title))) := by
  obtain ⟨hnone,hsome⟩ := chaptersFromCandidates_eq totalDurationMs minChapters C.entries
  by_cases hrejected : Rejected totalDurationMs minChapters C.entries
  · rw [hnone hrejected]
    exact ⟨listing_nil,iff_of_true rfl hrejected,fun h => absurd hrejected h⟩
  · rw [hsome hrejected]
    refine ⟨descriptionChapters_listing C hrejected,iff_of_false ?_ hrejected,
      fun _ => descriptionChapters_titled⟩
    intro hnil
    apply selectMonotonicCandidates_ne_nil (fun h => hrejected (.inl h))
    have htitled := @descriptionChapters_titled totalDurationMs 0 (selectMonotonicCandidates C.entries)
    rw [hnil,List.map_nil] at htitled
    exact List.map_eq_nil_iff.mp htitled.symm

/-- The selection is a longest list of increasing timestamps for all candidates in line order, and
the chapters of every description follow each other to its end: those of the selection, unless the
description is empty or its candidates are rejected. -/
theorem descriptionChapters_longest (M : Markup) :
    (∀ C : CandidateList, Longest C.entries (selectMonotonicCandidates C.entries)) ∧
      ∀ (description : String) (totalDurationMs : Option ℤ) (minChapters : ℤ),
        let candidates := (descriptionCandidates M description).entries
        let chapters := parseChaptersFromDescription M description totalDurationMs minChapters
        Listing totalDurationMs chapters ∧
          (chapters = [] ↔ description = "" ∨ Rejected totalDurationMs minChapters candidates) ∧
          (description ≠ "" → ¬ Rejected totalDurationMs minChapters candidates →
            chapters.map (fun chapter => (chapter.startTimeMs,chapter.title)) =
              (selectMonotonicCandidates candidates).map (fun c => (c.startMs,c.title))) := by
  refine ⟨selectMonotonicCandidates_longest,?_⟩
  intro description totalDurationMs minChapters
  simp only [parseChaptersFromDescription]
  split
  · rename_i hempty
    exact ⟨listing_nil,iff_of_true rfl (.inl hempty),fun h => absurd hempty h⟩
  · rename_i hsome
    obtain ⟨hlisting,hnil,htitled⟩ := chaptersFromCandidates_listing
      (descriptionCandidates M description) totalDurationMs minChapters
    exact ⟨hlisting,hnil.trans (or_iff_right hsome).symm,fun _ => htitled⟩

/-- Lines as they are, with the spaces and dashes around a title taken off. -/
def plainMarkup : Markup where
  digit c := if c.isDigit then some (c.toNat - '0'.toNat) else none
  descriptionLines description := (description.toList.splitOn '\n').map String.ofList
  cleanTitleFragment cs :=
    let trim := List.dropWhile (fun c => c = ' ' ∨ c = '-')
    String.ofList (trim (trim cs).reverse).reverse

/-- A timestamp that does not increase is left out, and too few lines give no chapters. -/
example :
    parseChaptersFromDescription plainMarkup
        "00:00 - Intro\nsee 90:00 below\n02:30 News\n1:00:05 Talk" (some 4000000) 3 =
      [⟨"desc0","Intro",0,150000,by decide⟩,⟨"desc1","News",150000,3605000,by decide⟩,
        ⟨"desc2","Talk",3605000,4000000,by decide⟩] ∧
    parseChaptersFromDescription plainMarkup "00:00 Intro\n02:30 News" none 3 = [] := by
  decide +kernel

end Podly.Chapters
