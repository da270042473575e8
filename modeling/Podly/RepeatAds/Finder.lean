import Mathlib.Data.Finset.Basic
import Podly.Floats.Double
import Podly.Intervals.Coalesce
import Podly.Lists.CommonSubsequence
import Podly.Loops.While
import Podly.WordBoundary.Tokens

/-! Repeats of a detected ad: other spans of the transcript whose words match the words of the ad,
found by a scan that grows a window from each segment that looks like the first one of the ad. -/
namespace Podly.RepeatAds
open Intervals Lists

/-- A segment of the transcript. -/
structure Segment where
  sequenceNum : ℤ
  startTime : ℚ
  endTime : ℚ
  text : String
deriving DecidableEq

/-- `RepeatAdCandidate`, `RepeatAdCandidateRow`. -/
structure Candidate where
  firstSeq : ℤ
  lastSeq : ℤ
  startTime : ℚ
  endTime : ℚ
  similarity : ℚ
deriving DecidableEq

/-- `_normalize_token`, of a token in lower case. -/
def normalizeToken (T : WordBoundary.Text) (token : String) : String :=
  WordBoundary.trimBoth (fun c => !(c.isLower || c.isDigit || c.toNat = 39)) (T.lower token)

/-- `tokenize`. The sidecar splits with `WordBoundary.splitWordsLower`. -/
def tokenize (T : WordBoundary.Text) (text : String) : List String :=
  let rawTokens := (text.toList.splitOnP T.isSpace).filter (· ≠ [])
  (rawTokens.map (fun t => normalizeToken T (String.ofList t))).filter (· ≠ "")

/-- `_lcs_length`, `repeat_ad_lcs_length`. -/
def lcsLength (a b : List String) : ℕ :=
  if a = [] ∨ b = [] then 0 else (lastRow a b)[b.length]?.getD 0

/-- The quotient of two counts as a double. -/
def ratio (n d : ℕ) : ℚ := (Floats.ofRat (n / d)).getD 0

/-- `similarity`, `repeat_ad_similarity`. -/
def similarity (a b : List String) : ℚ :=
  if a = [] ∧ b = [] then 1
  else if a = [] ∨ b = [] then 0
  else ratio (2 * lcsLength a b) (a.length + b.length)

/-- `ANCHOR_SIMILARITY_THRESHOLD`. -/
def anchorSimilarityThreshold : ℚ := ratio 70 100

/-- `MIN_TARGET_TOKENS`. -/
def minTargetTokens : ℕ := 6

/-- `MAX_WINDOW_SEGMENT_SLACK`. -/
def maxWindowSegmentSlack : ℕ := 2

section
variable (tokenize : String → List String)

/-- `_accumulate_window`, over the segments from the start of the window: the window and its
tokens. -/
def accumulateWindow (excluded : Finset ℤ) (targetTokenCount : ℕ) :
    ℕ → List String → List Segment → List Segment × List String
  | 0, accTokens, _ => ([],accTokens)
  | _, accTokens, [] => ([],accTokens)
  | room + 1, accTokens, segment::rest =>
    if segment.sequenceNum ∈ excluded then ([],accTokens)
    else
      let accTokens := accTokens ++ tokenize segment.text
      if targetTokenCount ≤ accTokens.length then ([segment],accTokens)
      else
        let window := accumulateWindow excluded targetTokenCount room accTokens rest
        (segment::window.1,window.2)

/-- What the scan is about: the transcript in order, the segments of the ad and the threshold. -/
structure Search where
  segs : List Segment
  targetSegs : List Segment
  targetTokens : List String
  targetFirstTokens : List String
  similarityThreshold : ℚ

/-- `max_window_segments`. -/
def Search.maxWindowSegments (search : Search) : ℕ :=
  search.targetSegs.length + maxWindowSegmentSlack

/-- The state of the scan. -/
structure ScanState where
  position : ℕ
  excluded : Finset ℤ
  candidates : List Candidate

/-- One round of the scan. -/
def scanStep (search : Search) (state : ScanState) : ScanState ⊕ List Candidate :=
  match search.segs[state.position]? with
  | none => .inr state.candidates
  | some segment =>
    let skipped := { state with position := state.position + 1 }
    if segment.sequenceNum ∈ state.excluded ∨
        similarity (tokenize segment.text) search.targetFirstTokens < anchorSimilarityThreshold then
      .inl skipped
    else
      let window := accumulateWindow tokenize state.excluded search.targetTokens.length
        search.maxWindowSegments [] (search.segs.drop state.position)
      let windowSimilarity := similarity window.2 search.targetTokens
      match window.1.head?, window.1.getLast? with
      | some first, some last =>
        if search.similarityThreshold ≤ windowSimilarity then
          .inl { position := state.position + window.1.length
                 excluded := state.excluded ∪ (window.1.map Segment.sequenceNum).toFinset
                 candidates := state.candidates ++ [⟨first.sequenceNum,last.sequenceNum,
                   first.startTime,last.endTime,windowSimilarity⟩] }
        else .inl skipped
      | _, _ => .inl skipped

/-- The sequence numbers of a range, its last one included. -/
def seqRange (firstSeq lastSeq : ℤ) : Finset ℤ :=
  ((List.range (lastSeq + 1 - firstSeq).toNat).map (fun n : ℕ => firstSeq + n)).toFinset

theorem mem_seqRange {firstSeq lastSeq seq : ℤ} :
    seq ∈ seqRange firstSeq lastSeq ↔ firstSeq ≤ seq ∧ seq ≤ lastSeq := by
  simp only [seqRange,List.mem_toFinset,List.mem_map,List.mem_range]
  constructor
  · rintro ⟨n,hn,rfl⟩
    omega
  · intro h
    exact ⟨(seq - firstSeq).toNat,by omega,by omega⟩

/-- The sequence numbers of the ad and of the ranges to skip. -/
def excludedSeqs (targetFirstSeq targetLastSeq : ℤ) (excludeRanges : List (ℤ × ℤ)) : Finset ℤ :=
  excludeRanges.foldl (fun excluded range => excluded ∪ seqRange range.1 range.2)
    (seqRange targetFirstSeq targetLastSeq)

/-- What is searched for in a transcript. -/
def searchOf (segments : List Segment) (targetFirstSeq targetLastSeq : ℤ)
    (similarityThreshold : ℚ) : Search :=
  let segs := sortByKey Segment.sequenceNum segments
  let targetSegs := segs.filter
    (fun s => targetFirstSeq ≤ s.sequenceNum ∧ s.sequenceNum ≤ targetLastSeq)
  { segs
    targetSegs
    targetTokens := tokenize (" ".intercalate (targetSegs.map Segment.text))
    targetFirstTokens := (targetSegs.head?.map (fun s => tokenize s.text)).getD []
    similarityThreshold }

/-- `find_repeat_candidates`, `find_repeat_ad_candidates`, given how many rounds the scan may
take. -/
def findRepeatCandidates (fuel : ℕ) (segments : List Segment) (targetFirstSeq targetLastSeq : ℤ)
    (excludeRanges : List (ℤ × ℤ)) (similarityThreshold : ℚ) : Option (List Candidate) :=
  let search := searchOf tokenize segments targetFirstSeq targetLastSeq similarityThreshold
  if search.targetSegs = [] ∨ search.targetTokens.length < minTargetTokens then some []
  else Loops.run (scanStep tokenize search) fuel
    ⟨0,excludedSeqs targetFirstSeq targetLastSeq excludeRanges,[]⟩

end

end Podly.RepeatAds
