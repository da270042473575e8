import Podly.Chapters.Retime
import Podly.WordBoundary.FromLlm

/-! Chapters from a plan of topics: the blocks of the transcript, the entries of the plan that name
one, those that are kept, and the chapters that start at them. -/
namespace Podly.Chapters
open Intervals WordBoundary

/-- The characters that a language takes for white space and for parts of a word. -/
structure Letters where
  isSpace : Char → Bool
  isWord : Char → Bool

/-- `_chapter_title_from_text`, `chapter_title_from_text`. -/
def chapterTitleFromText (L : Letters) (text : String) (index : ℕ) : String :=
  let fallback := "Chapter " ++ toString index
  let pieces := (text.toList.splitOnP L.isSpace).filter (· ≠ [])
  let normalized := ([' '].intercalate pieces).dropWhile (fun c => !L.isWord c)
  if normalized = [] then fallback
  else
    let words := normalized.splitOn ' '
    let title := trimBoth (fun c => " -:,.".toList.contains c)
      (String.ofList ([' '].intercalate (words.take 8)))
    if title = "" then fallback
    else if 8 < words.length then title ++ "..." else title

/-! The blocks of a transcript -/

/-- A block of the transcript. -/
structure TopicBlock where
  blockIndex : ℤ
  startMs : ℤ
  endMs : ℤ
  text : String
deriving DecidableEq

/-- The blocks of a transcript come in order of their indices and of their starts. -/
structure TopicBlocks where
  blocks : List TopicBlock
  index_nonneg : ∀ b ∈ blocks, 0 ≤ b.blockIndex
  indices : blocks.Pairwise (fun a b => a.blockIndex < b.blockIndex)
  starts : blocks.Pairwise (fun a b => a.startMs < b.startMs)

/-- The length of a block, in whole half minutes. -/
def blockWindowMs (totalDurationMs targetBlockCount minBlockSeconds maxBlockSeconds : ℤ) : ℤ :=
  let rawWindowMs := max 1 (totalDurationMs / max 1 targetBlockCount)
  let minBlockMs := max 1 (minBlockSeconds * 1000)
  let maxBlockMs := max minBlockMs (maxBlockSeconds * 1000)
  let windowMs := min maxBlockMs (max minBlockMs rawWindowMs)
  min maxBlockMs (max 30000 ((windowMs + 30000 - 1) / 30000 * 30000))

/-- The block that is being filled. -/
structure OpenBlock where
  startMs : ℤ
  endMs : ℤ
  textParts : List String

/-- The bounds of a segment, and what its text adds to a block. -/
def segStartMs (s : WbSegment) : ℤ := truncate (s.startTime * 1000)

def segEndMs (s : WbSegment) : ℤ := max (segStartMs s) (truncate (s.endTime * 1000))

def segPart (L : Letters) (includeSegmentMarkers : Bool) (s : WbSegment) : List String :=
  let segText := String.ofList
    ([' '].intercalate ((s.text.toList.splitOnP L.isSpace).filter (· ≠ [])))
  if segText = "" then []
  else if includeSegmentMarkers then ["[s" ++ toString s.sequenceNum ++ "] " ++ segText]
  else [segText]

section
variable (L : Letters) (includeSegmentMarkers : Bool) (windowMs : ℤ)

def openBlock (s : WbSegment) : OpenBlock :=
  ⟨segStartMs s,segEndMs s,segPart L includeSegmentMarkers s⟩

/-- The loop of `_build_topic_blocks` behind its first segment: the blocks that are flushed. -/
def flushBlocks : OpenBlock → List WbSegment → List OpenBlock
  | current, [] => [current]
  | current, s::segments =>
    if windowMs ≤ segStartMs s - current.startMs then
      current::flushBlocks (openBlock L includeSegmentMarkers s) segments
    else
      -- an end of zero counts as none
      let endMs := if current.endMs = 0 then segEndMs s else current.endMs
      flushBlocks ⟨current.startMs,max endMs (segEndMs s),
        current.textParts ++ segPart L includeSegmentMarkers s⟩ segments

/-- The blocks that are flushed for a transcript. -/
def flushedBlocks : List WbSegment → List OpenBlock
  | [] => []
  | s::segments => flushBlocks L includeSegmentMarkers windowMs (openBlock L includeSegmentMarkers s)
      segments

/-- The blocks are numbered as they are flushed, given how their text is cut to its length. -/
def numberBlocks (render : List String → String) (first : ℤ) : List OpenBlock → List TopicBlock
  | [] => []
  | block::rest =>
    ⟨first,block.startMs,max block.startMs block.endMs,render block.textParts⟩::
      numberBlocks render (first + 1) rest

/-- Blocks without text are dropped, unless all are. -/
def dropEmptyBlocks (blocks : List TopicBlock) : List TopicBlock :=
  let nonempty := blocks.filter (fun b => b.text.toList.any (fun c => !L.isSpace c))
  if nonempty = [] then blocks.take 1 else nonempty

end

/-! The plan -/

/-- An entry of a plan that names a block, with its title. -/
abbrev PlanEntry := TopicBlock × String

/-- The block under an index, the last one if there are several. -/
def blockAt (blocks : List TopicBlock) (blockIndex : ℤ) : Option TopicBlock :=
  (blocks.filter (fun b => b.blockIndex = blockIndex)).getLast?

/-- The first entry for each block, given the indices that were seen. -/
def validEntries (blocks : List TopicBlock) : List ℤ → List (ℤ × String) → List PlanEntry
  | _, [] => []
  | seen, (blockIndex,title)::plan =>
    match blockAt blocks blockIndex with
    | none => validEntries blocks seen plan
    | some block =>
      if blockIndex ∈ seen then validEntries blocks seen plan
      else (block,title)::validEntries blocks (blockIndex::seen) plan

section
variable (L : Letters) (sidecar : Bool)

/-- `_normalize_topic_plan_entries`, `normalize_topic_plan_entries`. A plan that does not begin with
block 0 is given one. Where there is no such block, the application raises and the sidecar goes on
without. -/
def normalizeTopicPlanEntries (blocks : List TopicBlock) (plan : List (ℤ × String)) :
    Option (List PlanEntry) :=
  match validEntries blocks [] (sortByKey Prod.fst plan) with
  | [] => some []
  | first::rest =>
    if first.1.blockIndex = 0 then some (first::rest)
    else
      match blockAt blocks 0 with
      | some block => some ((block,chapterTitleFromText L block.text 1)::first::rest)
      | none => if sidecar then some (first::rest) else none

/-- The entries behind a kept one that start late enough; the last one is kept anyway. -/
def filterEntries (lastIndex minChapterGapMs : ℤ) : ℤ → List PlanEntry → List PlanEntry
  | _, [] => []
  | lastStartMs, entry::entries =>
    if entry.1.startMs - lastStartMs < minChapterGapMs ∧ entry.1.blockIndex ≠ lastIndex then
      filterEntries lastIndex minChapterGapMs lastStartMs entries
    else entry::filterEntries lastIndex minChapterGapMs entry.1.startMs entries

/-- `_filter_topic_plan_entries`, `filter_topic_plan_entries`. -/
def filterTopicPlanEntries (minChapterGapMs : ℤ) (normalized : List PlanEntry) : List PlanEntry :=
  match normalized, normalized.getLast? with
  | first::rest, some last =>
    first::filterEntries last.1.blockIndex minChapterGapMs first.1.startMs rest
  | _, _ => []

/-- `_build_chapters_from_filtered_topic_plan`, `build_chapters_from_filtered_topic_plan`, from a
number on. -/
def buildChapters (totalDurationMs : ℤ) : ℕ → List PlanEntry → List Chapter
  | _, [] => []
  | idx, (block,title)::entries =>
    let nextStartMs := match entries with
      | [] => totalDurationMs
      | next::_ => next.1.startMs
    let stripped := trimBoth L.isSpace title
    let titleValue := if stripped = "" then chapterTitleFromText L block.text (idx + 1) else stripped
    Chapter.make ("tgen" ++ toString idx) titleValue (max 0 block.startMs)
        (max block.startMs nextStartMs)::buildChapters totalDurationMs (idx + 1) entries

/-- `_chapters_from_topic_plan`, as the application or the sidecar computes it. -/
def chaptersFromTopicPlan (blocks : List TopicBlock) (plan : List (ℤ × String))
    (totalDurationMs minChapterGapMs : ℤ) : Option (List Chapter) :=
  if plan = [] ∨ blocks = [] then some []
  else
    (normalizeTopicPlanEntries L sidecar blocks plan).map fun normalized =>
      let filtered := filterTopicPlanEntries minChapterGapMs normalized
      -- one chapter for a long episode counts as a failure
      if filtered.length = 1 ∧ 20 * 60 * 1000 ≤ totalDurationMs then []
      else buildChapters L totalDurationMs 0 filtered

end

section Blocks
variable {L : Letters} {includeSegmentMarkers : Bool} {windowMs : ℤ}

theorem blockWindowMs_pos (totalDurationMs targetBlockCount minBlockSeconds maxBlockSeconds : ℤ) :
    0 < blockWindowMs totalDurationMs targetBlockCount minBlockSeconds maxBlockSeconds := by
  simp only [blockWindowMs]
  omega

/-- Every block starts later than the one before it. -/
theorem flushBlocks_increasing (hwindow : 0 < windowMs) (current : OpenBlock)
    (segments : List WbSegment) :
    (∀ b ∈ flushBlocks L includeSegmentMarkers windowMs current segments,
        current.startMs ≤ b.startMs) ∧
      (flushBlocks L includeSegmentMarkers windowMs current segments).Pairwise
        (fun a b => a.startMs < b.startMs) := by
  induction segments generalizing current with
  | nil => simp [flushBlocks]
  | cons s segments ih =>
    rw [flushBlocks]
    split
    · rename_i hfull
      obtain ⟨hle,hlt⟩ := ih (openBlock L includeSegmentMarkers s)
      have hlater : ∀ b ∈ flushBlocks L includeSegmentMarkers windowMs
          (openBlock L includeSegmentMarkers s) segments, current.startMs < b.startMs := by
        intro b hb
        have : segStartMs s ≤ b.startMs := hle b hb
        omega
      refine ⟨List.forall_mem_cons.mpr ⟨le_rfl,fun b hb => (hlater b hb).le⟩,?_⟩
      exact List.pairwise_cons.mpr ⟨hlater,hlt⟩
    · exact ih _

theorem flushedBlocks_increasing (hwindow : 0 < windowMs) (segments : List WbSegment) :
    (flushedBlocks L includeSegmentMarkers windowMs segments).Pairwise
      (fun a b => a.startMs < b.startMs) := by
  cases segments with
  | nil => exact List.Pairwise.nil
  | cons s segments => exact (flushBlocks_increasing hwindow _ segments).2

theorem mem_numberBlocks {render : List String → String} {first : ℤ} {blocks : List OpenBlock}
    {b : TopicBlock} (hb : b ∈ numberBlocks render first blocks) :
    first ≤ b.blockIndex ∧ ∃ a ∈ blocks, b.startMs = a.startMs := by
  induction blocks generalizing first with
  | nil => cases hb
  | cons a blocks ih =>
    rcases List.mem_cons.mp hb with rfl | hb
    · exact ⟨le_rfl,a,List.mem_cons_self,rfl⟩
    · obtain ⟨hle,a',ha',hstart⟩ := ih hb
      exact ⟨by omega,a',List.mem_cons_of_mem a ha',hstart⟩

theorem numberBlocks_increasing (render : List String → String) (first : ℤ)
    {blocks : List OpenBlock} (h : blocks.Pairwise (fun a b => a.startMs < b.startMs)) :
    (numberBlocks render first blocks).Pairwise
      (fun a b => a.blockIndex < b.blockIndex ∧ a.startMs < b.startMs) := by
  induction blocks generalizing first with
  | nil => exact List.Pairwise.nil
  | cons a blocks ih =>
    obtain ⟨ha,h⟩ := List.pairwise_cons.mp h
    refine List.pairwise_cons.mpr ⟨?_,ih _ h⟩
    intro b hb
    obtain ⟨hle,a',ha',hstart⟩ := mem_numberBlocks hb
    refine ⟨by simp only; omega,?_⟩
    rw [hstart]
    exact ha a' ha'

theorem dropEmptyBlocks_sublist (blocks : List TopicBlock) :
    (dropEmptyBlocks L blocks).Sublist blocks := by
  simp only [dropEmptyBlocks]
  split
  · exact List.take_sublist 1 blocks
  · exact List.filter_sublist

end Blocks

/-- `_build_topic_blocks`. -/
def buildTopicBlocks (L : Letters) (includeSegmentMarkers : Bool) (render : List String → String)
    (totalDurationMs : ℤ) (segments : List WbSegment) : TopicBlocks :=
  have hwindow := blockWindowMs_pos totalDurationMs 60 60 120
  have hflushed : (flushedBlocks L includeSegmentMarkers (blockWindowMs totalDurationMs 60 60 120)
      segments).Pairwise (fun a b => a.startMs < b.startMs) :=
    flushedBlocks_increasing hwindow segments
  have hincreasing := (numberBlocks_increasing render 0 hflushed).sublist
    (dropEmptyBlocks_sublist (L := L) _)
  { blocks := dropEmptyBlocks L (numberBlocks render 0
      (flushedBlocks L includeSegmentMarkers (blockWindowMs totalDurationMs 60 60 120) segments))
    index_nonneg := fun _ hb => (mem_numberBlocks ((dropEmptyBlocks_sublist _).mem hb)).1
    indices := hincreasing.imp (fun h => h.1)
    starts := hincreasing.imp (fun h => h.2) }

section Entries
variable {blocks : List TopicBlock} {plan : List (ℤ × String)} {seen : List ℤ} {i : ℤ}
  {b : TopicBlock} {entry : PlanEntry}

theorem blockAt_eq_some (h : blockAt blocks i = some b) : b ∈ blocks ∧ b.blockIndex = i := by
  obtain ⟨hmem,hindex⟩ := List.mem_filter.mp (List.mem_of_getLast? h)
  exact ⟨hmem,by simpa using hindex⟩

theorem blockAt_eq_none : blockAt blocks i = none ↔ ∀ b ∈ blocks, b.blockIndex ≠ i := by
  rw [blockAt,List.getLast?_eq_none_iff,List.filter_eq_nil_iff]
  simp

/-- An entry that is kept names a block, for the first time. -/
theorem mem_validEntries (h : entry ∈ validEntries blocks seen plan) :
    entry.1 ∈ blocks ∧ entry.1.blockIndex ∉ seen ∧ ∃ e ∈ plan, e.1 = entry.1.blockIndex := by
  induction plan generalizing seen with
  | nil => cases h
  | cons e plan ih =>
    rw [validEntries] at h
    split at h
    · obtain ⟨hmem,hseen,e',he',hindex⟩ := ih h
      exact ⟨hmem,hseen,e',List.mem_cons_of_mem e he',hindex⟩
    · rename_i block hblock
      obtain ⟨hmem,hindex⟩ := blockAt_eq_some hblock
      split at h
      · obtain ⟨hmem,hseen,e',he',hindex⟩ := ih h
        exact ⟨hmem,hseen,e',List.mem_cons_of_mem e he',hindex⟩
      · rename_i hnew
        rcases List.mem_cons.mp h with rfl | h
        · exact ⟨hmem,hindex ▸ hnew,e,List.mem_cons_self,hindex.symm⟩
        · obtain ⟨hmem,hseen,e',he',hindex⟩ := ih h
          exact ⟨hmem,fun h => hseen (List.mem_cons_of_mem _ h),e',List.mem_cons_of_mem e he',hindex⟩

/-- A block that the plan names and that was not seen has an entry. -/
theorem exists_mem_validEntries {e : ℤ × String} (he : e ∈ plan) (hb : b ∈ blocks)
    (hindex : b.blockIndex = e.1) (hseen : e.1 ∉ seen) :
    ∃ entry ∈ validEntries blocks seen plan, entry.1.blockIndex = e.1 := by
  induction plan generalizing seen with
  | nil => cases he
  | cons e' plan ih =>
    rw [validEntries]
    cases hblock : blockAt blocks e'.1 with
    | none =>
      rcases List.mem_cons.mp he with rfl | he
      · exact absurd hindex (blockAt_eq_none.mp hblock b hb)
      · exact ih he hseen
    | some block =>
      simp only
      split
      · rename_i hold
        rcases List.mem_cons.mp he with rfl | he
        · exact absurd hold hseen
        · exact ih he hseen
      · by_cases heq : e.1 = e'.1
        · exact ⟨(block,e'.2),List.mem_cons_self,(blockAt_eq_some hblock).2.trans heq.symm⟩
        · rcases List.mem_cons.mp he with rfl | he
          · exact absurd rfl heq
          · obtain ⟨entry,hentry,hindex⟩ := ih he (List.not_mem_cons_of_ne_of_not_mem heq hseen)
            exact ⟨entry,List.mem_cons_of_mem _ hentry,hindex⟩

/-- In a plan in order every entry that is kept names a later block. -/
theorem validEntries_increasing (hplan : plan.Pairwise (fun a b => a.1 ≤ b.1)) :
    (validEntries blocks seen plan).Pairwise (fun a b => a.1.blockIndex < b.1.blockIndex) := by
  induction plan generalizing seen with
  | nil => exact List.Pairwise.nil
  | cons e plan ih =>
    obtain ⟨hfirst,hplan⟩ := List.pairwise_cons.mp hplan
    rw [validEntries]
    split
    · exact ih hplan
    · rename_i block hblock
      split
      · exact ih hplan
      · refine List.pairwise_cons.mpr ⟨?_,ih hplan⟩
        intro entry hentry
        obtain ⟨-,hseen,e',he',hindex⟩ := mem_validEntries hentry
        have hle := hfirst e' he'
        have hne : entry.1.blockIndex ≠ e.1 := fun h => hseen (h ▸ List.mem_cons_self)
        simp only [(blockAt_eq_some hblock).2]
        omega

end Entries

end Podly.Chapters
