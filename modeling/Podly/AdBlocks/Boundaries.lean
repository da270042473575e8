import Mathlib.Algebra.Order.Group.MinMax
import Mathlib.Tactic.Linarith
import Mathlib.Tactic.NormNum
import Mathlib.Tactic.Ring
import Podly.AdBlocks.Groups
import Podly.Lists.FirstBest

/-! Cut windows of ad groups: atomic blocks, the stored boundary that matches a block best, and the
window a group is cut at. The match tolerance is where the two implementations differ. -/
namespace Podly.AdBlocks
open Intervals Sweep FirstBest

/-- An item of `refined_ad_boundaries`; a missing or null number is `none`. -/
structure StoredBoundary where
  origStart : Option ℚ
  origEnd : Option ℚ
  refinedStart : Option ℚ
  refinedEnd : Option ℚ

/-- `RefinedBoundaryRow`, `RefinedBoundary`: both of its windows are nonempty. -/
structure RefinedBoundary where
  origStart : ℚ
  origEnd : ℚ
  refinedStart : ℚ
  refinedEnd : ℚ
  orig_lt : origStart < origEnd
  refined_lt : refinedStart < refinedEnd
deriving DecidableEq

/-- The boundary of a stored item, if it has all four numbers and they are in order. -/
def StoredBoundary.parse (item : StoredBoundary) : Option RefinedBoundary :=
  match item.origStart, item.origEnd, item.refinedStart, item.refinedEnd with
  | some origStart, some origEnd, some refinedStart, some refinedEnd =>
    if h : origStart < origEnd ∧ refinedStart < refinedEnd then
      some ⟨origStart,origEnd,refinedStart,refinedEnd,h.1,h.2⟩
    else none
  | _, _, _, _ => none

/-- `parse_refined_boundaries_full`, `_parse_refined_boundaries`. -/
def parseRefinedBoundaries (stored : List StoredBoundary) : List RefinedBoundary :=
  stored.filterMap StoredBoundary.parse

/-- `atomic_ad_blocks_for_group`, `_atomic_ad_blocks_for_group`. -/
def atomicAdBlocksForGroup (group : AdGroup) : List (ℚ × ℚ) :=
  joinAll (fun cur next => next.1 - cur.2 ≤ 10) extend
    ((sortByKey TranscriptSegment.startTime group.segments).map
      (fun s => (s.startTime,s.endTime)))

/-- `overlap`: how far a block and the original window of a boundary overlap, both widened by the
tolerance. -/
def matchOverlap (tolerance : ℚ) (block : ℚ × ℚ) (b : RefinedBoundary) : ℚ :=
  min (block.2 + tolerance) (b.origEnd + tolerance) -
    max (block.1 - tolerance) (b.origStart - tolerance)

/-- `_best_refined_boundary_match`, and the loop of `project_atomic_block`. -/
def bestRefinedBoundaryMatch (tolerance : ℚ) (block : ℚ × ℚ) (refined : List RefinedBoundary) :
    Option RefinedBoundary :=
  firstBest (matchOverlap tolerance block) refined

/-- The refined window of the best match, else the block itself. -/
def projectBlock (tolerance : ℚ) (refined : List RefinedBoundary) (block : ℚ × ℚ) : ℚ × ℚ :=
  match bestRefinedBoundaryMatch tolerance block refined with
  | none => block
  | some b => (b.refinedStart,b.refinedEnd)

/-- From the least start to the greatest end of the projected blocks. -/
def cutWindowWith (project : ℚ × ℚ → ℚ × ℚ) (group : AdGroup) : ℚ × ℚ :=
  match (atomicAdBlocksForGroup group).map project with
  | [] => (group.startTime,group.endTime)
  | p::ps => (ps.foldl (fun m w => min m w.1) p.1,ps.foldl (fun m w => max m w.2) p.2)

/-- The tolerance in Rust's `project_atomic_block`. -/
def rustMatchTolerance : ℚ := 3/2

/-- Python's `REFINED_BOUNDARY_MATCH_TOLERANCE_SECONDS`. -/
def refinedBoundaryMatchTolerance : ℚ := 3/4

/-- Rust's `project_atomic_block`. -/
def projectAtomicBlockRust : List RefinedBoundary → ℚ × ℚ → ℚ × ℚ :=
  projectBlock rustMatchTolerance

/-- Python's `_project_atomic_block`. -/
def projectAtomicBlock : List RefinedBoundary → ℚ × ℚ → ℚ × ℚ :=
  projectBlock refinedBoundaryMatchTolerance

/-- Rust's `cut_window_for_stats_ad_group`. -/
def cutWindowForStatsAdGroup (group : AdGroup) (refined : List RefinedBoundary) : ℚ × ℚ :=
  cutWindowWith (projectAtomicBlockRust refined) group

/-- Python's `_cut_window_for_ad_group`. -/
def cutWindowForAdGroup (group : AdGroup) (refined : List RefinedBoundary) : ℚ × ℚ :=
  cutWindowWith (projectAtomicBlock refined) group

/-- Widening both windows widens the overlap by twice as much. -/
theorem matchOverlap_eq (tolerance : ℚ) (block : ℚ × ℚ) (b : RefinedBoundary) :
    matchOverlap tolerance block b = matchOverlap 0 block b + 2 * tolerance := by
  rw [matchOverlap,matchOverlap,min_add_add_right,max_sub_sub_right,min_add_add_right,max_sub_sub_right]
  ring

/-- Two tolerances match a block alike exactly when some boundary matches at the smaller one or
none does at the larger one. -/
theorem bestRefinedBoundaryMatch_eq_iff {small large : ℚ} (h : small ≤ large) (block : ℚ × ℚ)
    (refined : List RefinedBoundary) :
    bestRefinedBoundaryMatch small block refined = bestRefinedBoundaryMatch large block refined ↔
      (∃ b ∈ refined, 0 < matchOverlap small block b) ∨
        ∀ b ∈ refined, matchOverlap large block b ≤ 0 := by
  let raise : ℚ → ℚ := fun y => y + 2 * (large - small)
  have hraise : matchOverlap large block = fun b => raise (matchOverlap small block b) := by
    funext b
    rw [matchOverlap_eq large,matchOverlap_eq small]
    dsimp only [raise]
    ring
  have hmono : StrictMono raise := fun a b hab => by
    dsimp only [raise]
    linarith
  have hzero : 0 ≤ raise 0 := by
    dsimp only [raise]
    linarith
  rw [bestRefinedBoundaryMatch,bestRefinedBoundaryMatch,hraise]
  exact firstBest_raised_iff hmono hzero refined

/-- The block is not one that only the Rust tolerance matches. -/
def MatchedAlike (refined : List RefinedBoundary) (block : ℚ × ℚ) : Prop :=
  (∃ b ∈ refined, 0 < matchOverlap refinedBoundaryMatchTolerance block b) ∨
    ∀ b ∈ refined, matchOverlap rustMatchTolerance block b ≤ 0

instance (refined : List RefinedBoundary) (block : ℚ × ℚ) :
    Decidable (MatchedAlike refined block) := inferInstanceAs (Decidable (_ ∨ _))

theorem bestRefinedBoundaryMatch_alike_iff (refined : List RefinedBoundary) (block : ℚ × ℚ) :
    bestRefinedBoundaryMatch refinedBoundaryMatchTolerance block refined =
      bestRefinedBoundaryMatch rustMatchTolerance block refined ↔ MatchedAlike refined block := by
  apply bestRefinedBoundaryMatch_eq_iff
  norm_num [refinedBoundaryMatchTolerance,rustMatchTolerance]

/-- Where only the Rust tolerance matches a block, the projections agree just in case the block was
refined to itself. -/
theorem projectAtomicBlock_eq_iff (refined : List RefinedBoundary) (block : ℚ × ℚ) :
    projectAtomicBlockRust refined block = projectAtomicBlock refined block ↔
      MatchedAlike refined block ∨
        ∃ b, bestRefinedBoundaryMatch rustMatchTolerance block refined = some b ∧
          (b.refinedStart,b.refinedEnd) = block := by
  have halike := bestRefinedBoundaryMatch_alike_iff refined block
  rw [projectAtomicBlockRust,projectAtomicBlock,projectBlock,projectBlock]
  by_cases h : MatchedAlike refined block
  · rw [halike.mpr h]
    exact iff_of_true rfl (.inl h)
  · have hnone : bestRefinedBoundaryMatch refinedBoundaryMatchTolerance block refined = none := by
      rw [bestRefinedBoundaryMatch,← Option.not_isSome_iff_eq_none,firstBest_isSome_iff]
      exact fun hpos => h (.inl hpos)
    rw [hnone] at halike ⊢
    cases hrust : bestRefinedBoundaryMatch rustMatchTolerance block refined with
    | none => exact absurd (halike.mp hrust.symm) h
    | some b => simp [h]

theorem atomicAdBlocksForGroup_agree {a b : AdGroup} (h : a.Agree b) :
    atomicAdBlocksForGroup a = atomicAdBlocksForGroup b := by
  rw [atomicAdBlocksForGroup,atomicAdBlocksForGroup,h.segments]

/-- Agreeing groups are cut at the same window when their blocks are matched alike. -/
theorem cutWindow_agree {a b : AdGroup} {refined : List RefinedBoundary} (h : a.Agree b)
    (hblocks : ∀ block ∈ atomicAdBlocksForGroup a, MatchedAlike refined block) :
    cutWindowForStatsAdGroup a refined = cutWindowForAdGroup b refined := by
  have hmap : (atomicAdBlocksForGroup a).map (projectAtomicBlockRust refined) =
      (atomicAdBlocksForGroup b).map (projectAtomicBlock refined) := by
    rw [← atomicAdBlocksForGroup_agree h]
    apply List.map_congr_left
    intro block hblock
    exact (projectAtomicBlock_eq_iff refined block).mpr (.inl (hblocks block hblock))
  rw [cutWindowForStatsAdGroup,cutWindowForAdGroup,cutWindowWith,cutWindowWith,hmap,h.startTime,
    h.endTime]

end Podly.AdBlocks
