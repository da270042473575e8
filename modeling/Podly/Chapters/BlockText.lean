import Mathlib.Algebra.Order.Group.Int
import Mathlib.Data.List.Infix
import Mathlib.Tactic.Tauto
import Podly.Strings.Trimmed
import Podly.WordBoundary.Tokens
import Podly.Writer.ProcessedPaths

/-! The text of a block in the prompt for chapters, cut to its opening and its middle. -/
namespace Podly.Chapters
open Strings

/-- `_BLOCK_TEXT_TRUNCATION_SEPARATOR`. -/
def blockTextTruncationSeparator : List Char := " ... ".toList

/-- `text[start:stop]` between bounds that are not negative. -/
def slice (text : List Char) (start stop : ℤ) : List Char :=
  (text.drop start.toNat).take (stop - start).toNat

/-- `_truncate_block_text`. -/
def truncateBlockText (text : List Char) (maxChars : ℤ) : List Char :=
  let length : ℤ := text.length
  let sep := blockTextTruncationSeparator
  let sepLen : ℤ := sep.length
  if maxChars ≤ 0 ∨ length ≤ maxChars then text
  else if maxChars ≤ sepLen + 4 then slice text 0 maxChars
  else
    let available := maxChars - sepLen
    let headChars := available / 2
    let midChars := available - headChars
    let midStart := max headChars (length / 2 - midChars / 2)
    let midEnd := min length (midStart + midChars)
    let midStart := max headChars (midEnd - midChars)
    slice text 0 headChars ++ sep ++ slice text midStart midEnd

/-- `chapter_truncate_block_text`. -/
def chapterTruncateBlockText (text : List Char) (maxChars : ℕ) : List Char :=
  let totalChars := text.length
  let sep := blockTextTruncationSeparator
  let sepLen := sep.length
  if maxChars = 0 ∨ totalChars ≤ maxChars then text
  else if maxChars ≤ sepLen + 4 then text.take maxChars
  else
    let available := maxChars - sepLen
    let headChars := available / 2
    let midChars := available - headChars
    let midStart := max headChars (totalChars / 2 - midChars / 2)
    let midEnd := min totalChars (midStart + midChars)
    let midStart := max headChars (midEnd - midChars)
    text.take headChars ++ sep ++ (text.drop midStart).take (midEnd - midStart)

/-- Parts joined by blanks. -/
def joinParts (parts : List (List Char)) : List Char := [' '].intercalate parts

/-- The loop that takes parts while they fit a budget, and the first one in any case: what it takes
and what that uses of the budget. -/
def takeParts (budget : ℕ) : List (List Char) → List (List Char) → ℕ → List (List Char) × ℕ
  | [],taken,used => (taken,used)
  | part::parts,taken,used =>
    let cost := part.length + if taken = [] then 0 else 1
    if taken ≠ [] ∧ budget < used + cost then (taken,used)
    else takeParts budget parts (taken ++ [part]) (used + cost)

/-- `take_run`, which `_truncate_block_parts` writes out twice: a single part is cut to the budget. -/
def takeRun (budget : ℕ) (parts : List (List Char)) : List (List Char) :=
  let (taken,used) := takeParts budget parts [] 0
  if taken.length = 1 ∧ budget < used then taken.modifyHead (List.take budget) else taken

/-- `_truncate_block_parts`. -/
def truncateBlockParts (parts : List (List Char)) (maxChars : ℤ) : List Char :=
  let joined := Writer.strip (joinParts parts)
  if maxChars ≤ 0 ∨ (joined.length : ℤ) ≤ maxChars then joined
  else
    let sep := blockTextTruncationSeparator
    let available := (maxChars - sep.length).toNat
    let headBudget := available / 2
    let midBudget := available - headBudget
    let headParts := takeRun headBudget parts
    let midAnchor := max headParts.length (parts.length / 2)
    let midParts := takeRun midBudget (parts.drop midAnchor)
    let head := joinParts headParts
    let middle := joinParts midParts
    if middle = [] then head.take maxChars.toNat else head ++ sep ++ middle

/-- `chapter_truncate_block_parts`. -/
def chapterTruncateBlockParts (parts : List (List Char)) (maxChars : ℕ) : List Char :=
  let joined := trimmed WordBoundary.isWhitespace (joinParts parts)
  if maxChars = 0 ∨ joined.length ≤ maxChars then joined
  else
    let sep := blockTextTruncationSeparator
    let available := maxChars - sep.length
    let headBudget := available / 2
    let midBudget := available - headBudget
    let headParts := takeRun headBudget parts
    let midAnchor := max headParts.length (parts.length / 2)
    let midParts := if midAnchor < parts.length then takeRun midBudget (parts.drop midAnchor) else []
    let head := joinParts headParts
    let middle := joinParts midParts
    if middle = [] then head.take maxChars else head ++ sep ++ middle

section Text
variable {text : List Char}

theorem length_slice (start stop : ℤ) (hstart : 0 ≤ start) (hle : start ≤ stop)
    (hstop : stop ≤ text.length) : ((slice text start stop).length : ℤ) = stop - start := by
  rw [slice,List.length_take,List.length_drop]
  omega

/-- A text that is cut fills the budget. -/
theorem length_truncateBlockText {maxChars : ℤ} (hpos : 0 < maxChars)
    (hlong : maxChars < text.length) : ((truncateBlockText text maxChars).length : ℤ) = maxChars := by
  have hsep : blockTextTruncationSeparator.length = 5 := rfl
  simp only [truncateBlockText,hsep]
  rw [if_neg (by omega)]
  split
  · rw [length_slice] <;> omega
  · rw [List.length_append,List.length_append,hsep]
    push_cast
    rw [length_slice,length_slice] <;> omega

/-- A lower bound of a difference takes the place of the zero it is cut at. -/
theorem max_sub_natCast (a b c : ℕ) : max (a : ℤ) (b - c) = (max a (b - c) : ℕ) := by
  omega

/-- The two languages cut a text alike. -/
theorem chapterTruncateBlockText_eq (text : List Char) (maxChars : ℕ) :
    chapterTruncateBlockText text maxChars = truncateBlockText text maxChars := by
  have hsep : blockTextTruncationSeparator.length = 5 := rfl
  simp only [truncateBlockText,chapterTruncateBlockText,hsep,slice]
  by_cases hfits : maxChars = 0 ∨ text.length ≤ maxChars
  · have hint : (maxChars : ℤ) ≤ 0 ∨ (text.length : ℤ) ≤ maxChars := by omega
    rw [if_pos hfits,if_pos hint]
  · have hint : ¬((maxChars : ℤ) ≤ 0 ∨ (text.length : ℤ) ≤ maxChars) := by omega
    rw [if_neg hfits,if_neg hint]
    by_cases hsmall : maxChars ≤ 5 + 4
    · have hint : (maxChars : ℤ) ≤ (5 : ℕ) + 4 := by omega
      rw [if_pos hsmall,if_pos hint]
      simp
    · have hint : ¬(maxChars : ℤ) ≤ (5 : ℕ) + 4 := by omega
      have havailable : (maxChars : ℤ) - (5 : ℕ) = (maxChars - 5 : ℕ) := by omega
      have hhead : ((maxChars - 5 : ℕ) : ℤ) / 2 = ((maxChars - 5) / 2 : ℕ) := by omega
      have hmid : ((maxChars - 5 : ℕ) : ℤ) - ((maxChars - 5) / 2 : ℕ) =
          (maxChars - 5 - (maxChars - 5) / 2 : ℕ) := by omega
      have hhalf : ∀ n : ℕ, (n : ℤ) / 2 = (n / 2 : ℕ) := by omega
      have hmin : ∀ m n : ℕ, min (m : ℤ) n = (min m n : ℕ) := by omega
      rw [if_neg hsmall,if_neg hint,havailable,hhead,hmid,hhalf,hhalf,max_sub_natCast,← Nat.cast_add,
        hmin,max_sub_natCast,Int.sub_zero,Int.toNat_sub,Int.toNat_natCast,Int.toNat_natCast,
        Int.toNat_zero,List.drop_zero]

end Text

/-- A part of a block: the marker of a segment, `[sN] `, and the segment's text. -/
structure Part where
  number : List Char
  text : List Char

namespace Part

def marker (part : Part) : List Char := '[' :: 's' :: part.number ++ [']',' ']

def chars (part : Part) : List Char := part.marker ++ part.text

end Part

/-- A run of parts as it stands in a text. -/
def joinRun (run : List Part) : List Char := joinParts (run.map Part.chars)

/-- The length of the longest marker. -/
def longestMarker (parts : List Part) : ℕ := (parts.map (fun part => part.marker.length)).foldr max 0

/-- What is kept of a run of parts: all of it, or of a single part an opening with its marker. -/
inductive KeptText : List Part → List Char → Prop
  | whole (run : List Part) : KeptText run (joinRun run)
  | clipped (part : Part) {opening : List Char} (h : opening <+: part.text) :
    KeptText [part] (part.marker ++ opening)

/-- What is kept of the first parts, and perhaps of parts further on. -/
inductive Shortened (parts : List Part) : List Char → Prop
  | opening {run rest : List Part} {text : List Char} (hparts : parts = run ++ rest)
    (hrun : parts ≠ [] → run ≠ []) (hkept : KeptText run text) : Shortened parts text
  | openingAndMiddle {run skipped later rest : List Part} {text text' : List Char}
    (hparts : parts = run ++ skipped ++ later ++ rest) (hrun : run ≠ []) (hkept : KeptText run text)
    (hlater : later ≠ []) (hkept' : KeptText later text') :
    Shortened parts (text ++ blockTextTruncationSeparator ++ text')

section Run
variable {budget : ℕ}

theorem length_joinParts_concat (parts : List (List Char)) (part : List Char) :
    (joinParts (parts ++ [part])).length =
      (joinParts parts).length + (part.length + if parts = [] then 0 else 1) := by
  induction parts with
  | nil => simp [joinParts]
  | cons first parts ih =>
    cases parts with
    | nil => simp [joinParts]
    | cons second parts =>
      simp only [joinParts,List.cons_append,List.intercalate_cons_cons,List.length_append] at ih ⊢
      simp only [reduceCtorEq,if_false] at ih ⊢
      omega

/-- What the loop takes is a run, of which it knows the length; more than one part fits. -/
theorem takeParts_spec {parts taken : List (List Char)}
    (hfits : taken.length ≤ 1 ∨ (joinParts taken).length ≤ budget) :
    ∃ run rest, parts = run ++ rest ∧
      takeParts budget parts taken (joinParts taken).length =
        (taken ++ run,(joinParts (taken ++ run)).length) ∧
      ((taken ++ run).length ≤ 1 ∨ (joinParts (taken ++ run)).length ≤ budget) ∧
      (taken = [] → parts ≠ [] → run ≠ []) := by
  induction parts generalizing taken with
  | nil => exact ⟨[],[],rfl,by simp [takeParts],by simpa using hfits,by simp⟩
  | cons part parts ih =>
    have hcost := length_joinParts_concat taken part
    rw [takeParts]
    rw [← hcost]
    split
    · rename_i hstop
      exact ⟨[],part::parts,rfl,by simp,by simpa using hfits,fun h => absurd h hstop.1⟩
    · rename_i hgo
      have hnext : (taken ++ [part]).length ≤ 1 ∨ (joinParts (taken ++ [part])).length ≤ budget := by
        by_cases htaken : taken = []
        · left
          simp [htaken]
        · right
          exact Nat.le_of_not_lt (fun h => hgo ⟨htaken,h⟩)
      obtain ⟨run,rest,rfl,htake,hrun,-⟩ := ih hnext
      refine ⟨part::run,rest,rfl,?_,?_,?_⟩
      · simpa using htake
      · simpa using hrun
      · simp

/-- A run keeps within the budget if every marker does. -/
theorem takeRun_kept {parts : List Part} (hmarker : ∀ part ∈ parts, part.marker.length ≤ budget) :
    ∃ run rest, parts = run ++ rest ∧ (takeRun budget (parts.map Part.chars)).length = run.length ∧
      KeptText run (joinParts (takeRun budget (parts.map Part.chars))) ∧
      (joinParts (takeRun budget (parts.map Part.chars))).length ≤ budget ∧
      (parts ≠ [] → run ≠ []) := by
  obtain ⟨run,rest,hparts,htake,hfits,hrun⟩ :=
    @takeParts_spec budget (parts.map Part.chars) [] (.inl (by simp))
  obtain ⟨run,rest,rfl,rfl,rfl⟩ := List.map_eq_append_iff.mp hparts
  simp only [List.nil_append] at htake hfits
  have hzero : (joinParts []).length = 0 := rfl
  rw [hzero] at htake
  rw [takeRun,htake]
  dsimp only
  split
  · rename_i hclip
    obtain ⟨part,hsingle⟩ := List.length_eq_one_iff.mp hclip.1
    obtain ⟨part,rfl,rfl⟩ : ∃ part', run = [part'] ∧ part'.chars = part := by
      simpa [List.map_eq_singleton_iff] using hsingle
    have hmark : part.marker.length ≤ budget := hmarker part (by simp)
    have hopening : (part.chars.take budget) =
        part.marker ++ part.text.take (budget - part.marker.length) := by
      rw [Part.chars,List.take_append,List.take_of_length_le hmark]
    refine ⟨[part],rest,rfl,by simp,?_,?_,by simp⟩
    · simp only [List.map_cons,List.map_nil,List.modifyHead,joinParts,List.intercalate_singleton]
      rw [hopening]
      exact .clipped part (List.take_prefix _ _)
    · simp only [List.map_cons,List.map_nil,List.modifyHead,joinParts,List.intercalate_singleton]
      exact List.length_take_le _ _
  · rename_i hwhole
    refine ⟨run,rest,rfl,by simp,.whole run,?_,?_⟩
    · rcases hfits with hfew | hfits
      · rcases Nat.le_one_iff_eq_zero_or_eq_one.mp hfew with hnone | hone
        · rw [List.length_eq_zero_iff.mp hnone]
          exact Nat.zero_le _
        · exact Nat.le_of_not_lt (fun h => hwhole ⟨hone,h⟩)
      · exact hfits
    · simpa using hrun

end Run

/-- The text of a block: all parts without the white space at their end if that fits the budget, and
a shortened text otherwise. -/
structure FitsBudget (parts : List Part) (maxChars : ℤ) (text : List Char) : Prop where
  length_le : (text.length : ℤ) ≤ maxChars
  complete : ((Writer.strip (joinRun parts)).length : ℤ) ≤ maxChars →
    text = Writer.strip (joinRun parts) ∧
      ∃ blanks, joinRun parts = text ++ blanks ∧ ∀ c ∈ blanks, Writer.isSpace c
  shortened : maxChars < ((Writer.strip (joinRun parts)).length : ℤ) → Shortened parts text

/-- The text of a block if every part were kept as it is. -/
structure KeepsWhole (parts : List Part) (maxChars : ℤ) (text : List Char) : Prop where
  length_le : (text.length : ℤ) ≤ maxChars
  complete : ((joinRun parts).length : ℤ) ≤ maxChars → text = joinRun parts
  shortened : Shortened parts text

section Fits
variable {parts : List Part}

theorem joinRun_cons (part : Part) (parts : List Part) :
    ∃ text, joinRun (part::parts) = '[' :: text := by
  cases parts with
  | nil => exact ⟨_,by simp [joinRun,joinParts,Part.chars,Part.marker]; rfl⟩
  | cons second parts =>
    simp only [joinRun,joinParts,List.map_cons,List.intercalate_cons_cons]
    exact ⟨_,rfl⟩

theorem KeptText.eq_nil {text : List Char} (h : KeptText [] text) : text = [] := by
  cases h with
  | whole => rfl

/-- Only the end of the parts can be white space. -/
theorem strip_joinRun (parts : List Part) :
    ∃ blanks, joinRun parts = Writer.strip (joinRun parts) ++ blanks ∧
      ∀ c ∈ blanks, Writer.isSpace c := by
  have hstart : (joinRun parts).dropWhile Writer.isSpace = joinRun parts := by
    cases parts with
    | nil => rfl
    | cons part parts =>
      obtain ⟨text,htext⟩ := joinRun_cons part parts
      rw [htext,List.dropWhile_cons_of_neg (by decide)]
  refine ⟨(joinRun parts).rtakeWhile Writer.isSpace,?_,fun c hc => List.mem_rtakeWhile_imp hc⟩
  have hstrip : Writer.strip (joinRun parts) = (joinRun parts).rdropWhile Writer.isSpace := by
    rw [Writer.strip,hstart,List.rdropWhile]
  rw [hstrip,List.rdropWhile_append_rtakeWhile]

theorem le_longestMarker {part : Part} (h : part ∈ parts) :
    part.marker.length ≤ longestMarker parts := by
  induction parts with
  | nil => cases h
  | cons first parts ih =>
    simp only [longestMarker,List.map_cons,List.foldr_cons] at ih ⊢
    rcases List.mem_cons.mp h with rfl | h
    · exact Nat.le_max_left _ _
    · exact le_trans (ih h) (Nat.le_max_right _ _)

/-- The parts that are left and the middle of the block are kept apart. -/
theorem truncateBlockParts_shortened {maxChars : ℤ}
    (hmax : (longestMarker parts : ℤ) ≤ (maxChars - 5) / 2)
    (hlong : maxChars < ((Writer.strip (joinRun parts)).length : ℤ)) :
    ((truncateBlockParts (parts.map Part.chars) maxChars).length : ℤ) ≤ maxChars ∧
      Shortened parts (truncateBlockParts (parts.map Part.chars) maxChars) := by
  have hsep : blockTextTruncationSeparator.length = 5 := rfl
  have hfits : ¬(maxChars ≤ 0 ∨ ((Writer.strip (joinRun parts)).length : ℤ) ≤ maxChars) := by omega
  simp only [truncateBlockParts,hsep]
  rw [← joinRun,if_neg hfits,List.length_map]
  have hhalf : longestMarker parts ≤ (maxChars - (5 : ℕ)).toNat / 2 := by omega
  generalize havailable : (maxChars - (5 : ℕ)).toNat = available at hhalf ⊢
  obtain ⟨run,rest,hparts,hcount,hkept,hlength,hrun⟩ := @takeRun_kept (available / 2) parts
    (fun part hpart => le_trans (le_longestMarker hpart) hhalf)
  obtain ⟨later,last,hlater,-,hkept',hlength',-⟩ := @takeRun_kept (available - available / 2)
    (parts.drop (max (takeRun (available / 2) (parts.map Part.chars)).length (parts.length / 2)))
    (fun part hpart => le_trans (le_longestMarker (List.mem_of_mem_drop hpart)) (by omega))
  rw [hcount] at hlater hkept' hlength' ⊢
  rw [List.map_drop] at hkept' hlength'
  split
  · rw [List.take_of_length_le (by omega)]
    exact ⟨by omega,.opening hparts hrun hkept⟩
  · rename_i hmiddle
    refine ⟨?_,?_⟩
    · simp only [List.length_append,hsep]
      omega
    · have hsplit : parts = run ++ (parts.take (max run.length (parts.length / 2))).drop run.length ++
          later ++ last := by
        have hrun : (parts.take (max run.length (parts.length / 2))).take run.length = run := by
          rw [List.take_take,Nat.min_eq_left (Nat.le_max_left _ _),hparts,List.take_left']
          rfl
        conv_lhs => rw [← List.take_append_drop (max run.length (parts.length / 2)) parts,hlater,
          ← List.take_append_drop run.length (parts.take _),hrun]
        simp only [List.append_assoc]
      have hlater : later ≠ [] := by
        rintro rfl
        exact hmiddle hkept'.eq_nil
      have hne : parts ≠ [] := by
        rw [hsplit]
        simp [hlater]
      exact .openingAndMiddle hsplit (hrun hne) hkept hlater hkept'

theorem fitsBudget_truncateBlockParts {maxChars : ℤ}
    (hmax : (longestMarker parts : ℤ) ≤ (maxChars - 5) / 2) :
    FitsBudget parts maxChars (truncateBlockParts (parts.map Part.chars) maxChars) := by
  by_cases hlong : maxChars < ((Writer.strip (joinRun parts)).length : ℤ)
  · obtain ⟨hlength,hshortened⟩ := truncateBlockParts_shortened hmax hlong
    exact ⟨hlength,fun h => absurd hlong (Int.not_lt.mpr h),fun _ => hshortened⟩
  · have htext : truncateBlockParts (parts.map Part.chars) maxChars =
        Writer.strip (joinRun parts) := if_pos (.inr (Int.not_lt.mp hlong))
    rw [htext]
    exact ⟨Int.not_lt.mp hlong,fun _ => ⟨rfl,strip_joinRun parts⟩,fun h => absurd h hlong⟩

/-- The two languages cut the parts alike where they see the same white space at the ends. -/
theorem chapterTruncateBlockParts_eq {parts : List (List Char)} (maxChars : ℕ)
    (hspace : trimmed WordBoundary.isWhitespace (joinParts parts) = Writer.strip (joinParts parts)) :
    chapterTruncateBlockParts parts maxChars = truncateBlockParts parts maxChars := by
  have hfits : ((maxChars : ℤ) ≤ 0 ∨ ((Writer.strip (joinParts parts)).length : ℤ) ≤ maxChars) ↔
      (maxChars = 0 ∨ (Writer.strip (joinParts parts)).length ≤ maxChars) := by omega
  have havailable : ((maxChars : ℤ) - (blockTextTruncationSeparator.length : ℕ)).toNat =
      maxChars - blockTextTruncationSeparator.length := by omega
  have hmiddle : ∀ budget anchor, (if anchor < parts.length then takeRun budget (parts.drop anchor)
      else []) = takeRun budget (parts.drop anchor) := by
    intro budget anchor
    split
    · rfl
    · rename_i hanchor
      rw [List.drop_eq_nil_of_le (Nat.le_of_not_lt hanchor)]
      rfl
  simp only [chapterTruncateBlockParts,truncateBlockParts,hspace,hfits,havailable,hmiddle,
    Int.toNat_natCast]

/-- Shortened blocks keep within their budget with whole markers, and a text that is cut fills it. -/
theorem truncateBlock_fits (parts : List Part) (maxChars : ℤ)
    (hmax : (longestMarker parts : ℤ) ≤ (maxChars - 5) / 2) :
    FitsBudget parts maxChars (truncateBlockParts (parts.map Part.chars) maxChars) ∧
      (trimmed WordBoundary.isWhitespace (joinRun parts) = Writer.strip (joinRun parts) →
        chapterTruncateBlockParts (parts.map Part.chars) maxChars.toNat =
          truncateBlockParts (parts.map Part.chars) maxChars) ∧
      ∀ (text : List Char) (maxChars : ℤ), 0 < maxChars → maxChars < text.length →
        ((truncateBlockText text maxChars).length : ℤ) = maxChars := by
  refine ⟨fitsBudget_truncateBlockParts hmax,?_,fun text maxChars => length_truncateBlockText⟩
  intro hspace
  rw [chapterTruncateBlockParts_eq maxChars.toNat hspace,Int.toNat_of_nonneg (by omega)]

/-- Two segments that share a budget of five characters each with the separator. -/
theorem truncateBlock_fits_fifteen :
    FitsBudget [⟨['1'],"to begin".toList⟩,⟨['2'],"to end".toList⟩] 15 "[s1]  ... [s2] ".toList ∧
      chapterTruncateBlockParts ["[s1] to begin".toList,"[s2] to end".toList] 15 =
        "[s1]  ... [s2] ".toList := by
  obtain ⟨hfits,hsame,-⟩ := truncateBlock_fits
    [⟨['1'],"to begin".toList⟩,⟨['2'],"to end".toList⟩] 15 (by decide)
  exact ⟨hfits,hsame (by decide)⟩

end Fits

section White
variable {text : List Char}

/-- A block whose last segment ends in a blank. -/
def blankAtEnd : List Part := [⟨['1'],['a']⟩,⟨['2'],['b',' ']⟩]

theorem blankAtEnd_whole (h : Shortened blankAtEnd text) : text ≠ "[s1] a [s2] b".toList := by
  cases h with
  | @opening run _ _ hparts _ hkept =>
    cases hkept with
    | whole =>
      have hrun : run ∈ blankAtEnd.inits := (List.mem_inits _ _).mpr ⟨_,hparts.symm⟩
      have hall : ∀ run ∈ blankAtEnd.inits, joinRun run ≠ "[s1] a [s2] b".toList := by
        simp only [blankAtEnd,List.inits]
        decide
      exact hall run hrun
    | clipped part h =>
      obtain ⟨rfl,-⟩ := List.cons_eq_cons.mp hparts
      intro heq
      have hlength := congrArg List.length heq
      have hshort : _ ≤ 1 := h.length_le
      simp only [List.length_append] at hlength
      have hmarker : Part.marker ⟨['1'],['a']⟩ = "[s1] ".toList := by decide
      rw [hmarker,show "[s1] ".toList.length = 5 from rfl,
        show "[s1] a [s2] b".toList.length = 13 from rfl] at hlength
      omega
  | openingAndMiddle =>
    intro heq
    have hdot : '.' ∈ "[s1] a [s2] b".toList := by
      rw [← heq]
      simp [blockTextTruncationSeparator]
    exact absurd hdot (by decide)

/-- White space at the end is dropped although everything fits, and where it is a separator of ASCII
only one of the languages drops it. -/
theorem blankAtEnd_not_keepsWhole :
    (longestMarker blankAtEnd : ℤ) ≤ (100 - 5) / 2 ∧
      ¬KeepsWhole blankAtEnd 100 (truncateBlockParts (blankAtEnd.map Part.chars) 100) ∧
      chapterTruncateBlockParts ["[s1] a\x1c".toList] 100 ≠
        truncateBlockParts ["[s1] a\x1c".toList] 100 := by
  exact ⟨by decide,fun h => blankAtEnd_whole h.shortened (by decide),by decide⟩

end White

end Podly.Chapters
