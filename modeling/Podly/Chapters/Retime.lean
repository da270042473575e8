import Mathlib.Data.Rat.Floor
import Podly.Intervals.Length

/-! Chapter times after ads have been removed: `recalculate_chapter_times` and its helpers. -/
namespace Podly.Chapters
open Intervals Sweep

/-- A chapter of an audio file. Its `__post_init__` leaves no chapter that ends before it starts. -/
structure Chapter where
  elementId : String
  title : String
  startTimeMs : ℤ
  endTimeMs : ℤ
  le : startTimeMs ≤ endTimeMs
deriving DecidableEq

/-- The constructor with the clamp of `__post_init__`. -/
def Chapter.make (elementId title : String) (startTimeMs endTimeMs : ℤ) : Chapter :=
  if h : endTimeMs < startTimeMs then ⟨elementId,title,startTimeMs,startTimeMs,le_rfl⟩
  else ⟨elementId,title,startTimeMs,endTimeMs,not_lt.mp h⟩

@[simp] theorem Chapter.make_startTimeMs (elementId title : String) (startTimeMs endTimeMs : ℤ) :
    (Chapter.make elementId title startTimeMs endTimeMs).startTimeMs = startTimeMs := by
  unfold Chapter.make
  split <;> rfl

@[simp] theorem Chapter.make_title (elementId title : String) (startTimeMs endTimeMs : ℤ) :
    (Chapter.make elementId title startTimeMs endTimeMs).title = title := by
  unfold Chapter.make
  split <;> rfl

@[simp] theorem Chapter.make_endTimeMs (elementId title : String) (startTimeMs endTimeMs : ℤ) :
    (Chapter.make elementId title startTimeMs endTimeMs).endTimeMs = max startTimeMs endTimeMs := by
  unfold Chapter.make
  split
  · rename_i h
    exact (max_eq_left h.le).symm
  · rename_i h
    exact (max_eq_right (not_lt.mp h)).symm

/-- The ends of chapters that follow each other, given their starts and the end of the audio. -/
def followingEnds (lastEndMs : ℤ) : List ℤ → List ℤ
  | [] => []
  | [start] => [max start lastEndMs]
  | start::next::starts => max start next::followingEnds lastEndMs (next::starts)

/-- With increasing starts each such chapter ends where the next one starts, and the last one with
the audio, unless it starts later. -/
theorem contiguous_of_followingEnds {lastEndMs : ℤ} {chapters : List Chapter} {starts : List ℤ}
    (hstarts : chapters.map Chapter.startTimeMs = starts)
    (hends : chapters.map Chapter.endTimeMs = followingEnds lastEndMs starts)
    (hincreasing : starts.Pairwise (· < ·)) :
    chapters.IsChain (fun a b => a.endTimeMs = b.startTimeMs) ∧
      ∀ c ∈ chapters.getLast?, c.endTimeMs = max c.startTimeMs lastEndMs := by
  subst hstarts
  induction chapters with
  | nil => exact ⟨List.isChain_nil,nofun⟩
  | cons a chapters ih =>
    obtain ⟨hlater,hincreasing⟩ := List.pairwise_cons.mp hincreasing
    cases chapters with
    | nil =>
      refine ⟨List.isChain_singleton a,?_⟩
      intro c hc
      obtain rfl := Option.some.inj hc
      exact (List.cons.inj hends).1
    | cons b chapters =>
      obtain ⟨hend,hends⟩ := List.cons.inj hends
      obtain ⟨hchain,hlast⟩ := ih hends hincreasing
      refine ⟨List.isChain_cons_cons.mpr ⟨?_,hchain⟩,hlast⟩
      rw [hend]
      exact max_eq_right (hlater _ List.mem_cons_self).le

/-- Python's `round` to an integer: to the nearest one, ties to even. -/
def roundHalfEven (x : ℚ) : ℤ :=
  if x - ⌊x⌋ < 1 / 2 then ⌊x⌋
  else if x - ⌊x⌋ > 1 / 2 then ⌊x⌋ + 1
  else if ⌊x⌋ % 2 = 0 then ⌊x⌋ else ⌊x⌋ + 1

/-- The removed windows in whole milliseconds. -/
def roundedMs (removedSegments : List (ℚ × ℚ)) : List (ℤ × ℤ) :=
  removedSegments.map (fun w => (roundHalfEven (w.1 * 1000),roundHalfEven (w.2 * 1000)))

/-- `_normalize_removed_segments_ms`. -/
def normalizeRemovedSegmentsMs (removedSegments : List (ℚ × ℚ)) : List (ℤ × ℤ) :=
  let windowsMs := (roundedMs removedSegments).filter (fun w => ¬ w.2 ≤ w.1)
  match sortByKey Prod.fst windowsMs with
  | [] => []
  | w::ws => ws.foldl (joinPush (fun last w => w.1 ≤ last.2) extend) [w]

/-- `_removed_offset_ms_at_time`, with the early break of its loop. -/
def removedOffsetMsAtTime (timeMs : ℤ) : List (ℤ × ℤ) → ℤ
  | [] => 0
  | w::ws =>
    if w.2 ≤ timeMs then max 0 (w.2 - w.1) + removedOffsetMsAtTime timeMs ws
    else if w.1 < timeMs then max 0 (timeMs - w.1)
    else 0

/-- The adjustment of one chapter. -/
def adjustChapter (sortedSegmentsMs : List (ℤ × ℤ)) (chapter : Chapter) : Chapter :=
  let startOffsetMs := removedOffsetMsAtTime chapter.startTimeMs sortedSegmentsMs
  let endOffsetMs := max (removedOffsetMsAtTime chapter.endTimeMs sortedSegmentsMs) startOffsetMs
  let newStartMs := max 0 (chapter.startTimeMs - startOffsetMs)
  let newEndMs := max newStartMs (chapter.endTimeMs - endOffsetMs)
  Chapter.make chapter.elementId chapter.title newStartMs newEndMs

/-- `recalculate_chapter_times`. -/
def recalculateChapterTimes (chapters : List Chapter) (removedSegments : List (ℚ × ℚ)) :
    List Chapter :=
  if chapters.isEmpty then []
  else if removedSegments.isEmpty then chapters
  else chapters.map (adjustChapter (normalizeRemovedSegmentsMs removedSegments))

/-- The normaliser computes the canonical form of the rounded windows. -/
theorem normalizeRemovedSegmentsMs_eq (removedSegments : List (ℚ × ℚ)) :
    normalizeRemovedSegmentsMs removedSegments =
      Intervals.normalize (roundedMs removedSegments) := by
  unfold normalizeRemovedSegmentsMs Intervals.normalize
  simp only [not_le]
  cases sortByKey Prod.fst ((roundedMs removedSegments).filter (fun w => w.1 < w.2)) with
  | nil => rfl
  | cons w ws => exact foldl_joinPush_append _ _ [] w ws

/-- The offset loop adds up the removed cells from `a` to the time: the windows it passes are
covered in full, and past the window it breaks at nothing more is covered before the time. -/
theorem removedOffsetMsAtTime_eq {ws : List (ℤ × ℤ)} (h : Separated ws) {a t : ℤ}
    (ha : ∀ w ∈ ws, a ≤ w.1) (hat : a ≤ t) :
    removedOffsetMsAtTime t ws = coveredCells ws a t := by
  induction ws generalizing a with
  | nil => exact (coveredCells_empty (fun _ _ _ => covers_nil _)).symm
  | cons w ws ih =>
    obtain ⟨hw,hb,hs⟩ := Separated.cons_iff.mp h
    have haw : a ≤ w.1 := ha w (by simp)
    -- Before the window nothing is covered, inside it everything is.
    have hbefore : coveredCells (w::ws) a (min w.1 t) = 0 := by
      apply coveredCells_empty
      intro s _ hst hcov
      have := h.head_le_of_covers hcov
      omega
    have hinside : coveredCells (w::ws) (min w.1 t) (min w.2 t) = min w.2 t - min w.1 t := by
      apply coveredCells_full
      · omega
      · intro s hs hst
        exact (covers_cons w ws s).mpr (.inl ⟨by omega,by omega⟩)
    have hsplit := coveredCells_add (w::ws) (by omega : a ≤ min w.1 t)
      (by omega : min w.1 t ≤ min w.2 t)
    rw [removedOffsetMsAtTime]
    split
    · rename_i hpast
      have hrest : coveredCells (w::ws) w.2 t = coveredCells ws w.2 t := by
        apply coveredCells_congr
        intro s hws _
        rw [h.covers_tail_iff]
        simp [hws]
      have hadd := coveredCells_add (w::ws) (by omega : a ≤ w.2) hpast
      rw [ih hs (fun b hb' => (hb b hb').le) hpast]
      rw [min_eq_left hpast] at hsplit hinside
      omega
    · rename_i hbreak
      rw [min_eq_right (by omega : t ≤ w.2)] at hsplit hinside
      split <;> omega

/-- One offset of a marker, in terms of the windows as given. -/
theorem sub_removedOffset_eq_retime {removedSegments : List (ℚ × ℚ)}
    (hpos : ∀ t, Covers (roundedMs removedSegments) t → 0 ≤ t) {t : ℤ} (ht : 0 ≤ t) :
    t - removedOffsetMsAtTime t (normalizeRemovedSegmentsMs removedSegments) =
      retime (roundedMs removedSegments) t := by
  have hsep := normalize_separated (roundedMs removedSegments)
  have hstart : ∀ w ∈ Intervals.normalize (roundedMs removedSegments), 0 ≤ w.1 := by
    intro w hw
    have hcov := Covers.of_mem hw le_rfl (hsep.nonempty w hw)
    exact hpos w.1 ((covers_normalize _ w.1).mp hcov)
  have hcells := @coveredCells_congr (Intervals.normalize (roundedMs removedSegments))
    (roundedMs removedSegments) 0 t (fun s _ _ => covers_normalize _ s)
  rw [normalizeRemovedSegmentsMs_eq,removedOffsetMsAtTime_eq hsep hstart ht,retime,hcells]

/-- A chapter moved by the removed windows: both markers are retimed, and its new length is the
length of what is kept of it. -/
structure RetimedChapter (removedMs : List (ℤ × ℤ)) (chapter new : Chapter) : Prop where
  elementId : new.elementId = chapter.elementId
  title : new.title = chapter.title
  start : new.startTimeMs = retime removedMs chapter.startTimeMs
  finish : new.endTimeMs = retime removedMs chapter.endTimeMs
  le : new.startTimeMs ≤ new.endTimeMs
  length : new.endTimeMs - new.startTimeMs =
    keptCells removedMs chapter.startTimeMs chapter.endTimeMs

theorem adjustChapter_retimed {removedSegments : List (ℚ × ℚ)}
    (hpos : ∀ t, Covers (roundedMs removedSegments) t → 0 ≤ t) {chapter : Chapter}
    (hstart : 0 ≤ chapter.startTimeMs) :
    RetimedChapter (roundedMs removedSegments) chapter
      (adjustChapter (normalizeRemovedSegmentsMs removedSegments) chapter) := by
  have hs := sub_removedOffset_eq_retime hpos hstart
  have he := sub_removedOffset_eq_retime hpos (hstart.trans chapter.le)
  have hmono := retime_mono (roundedMs removedSegments) hstart chapter.le
  have hnonneg := retime_nonneg (roundedMs removedSegments) hstart
  have hlength := retime_sub_retime (roundedMs removedSegments) hstart chapter.le
  have hcells := coveredCells_add (roundedMs removedSegments) hstart chapter.le
  have hinside := coveredCells_nonneg (roundedMs removedSegments) chapter.startTimeMs
    chapter.endTimeMs
  -- Neither clamp of the loop acts: offsets grow with time and never exceed it.
  unfold retime at hs he hmono hnonneg hlength
  have hnew : adjustChapter (normalizeRemovedSegmentsMs removedSegments) chapter =
      Chapter.make chapter.elementId chapter.title
        (retime (roundedMs removedSegments) chapter.startTimeMs)
        (retime (roundedMs removedSegments) chapter.endTimeMs) := by
    unfold adjustChapter retime
    dsimp only
    congr 1 <;> omega
  have hle : ¬ retime (roundedMs removedSegments) chapter.endTimeMs <
      retime (roundedMs removedSegments) chapter.startTimeMs := by
    unfold retime
    omega
  rw [hnew,Chapter.make,dif_neg hle]
  exact ⟨rfl,rfl,rfl,rfl,not_lt.mp hle,hlength⟩

/-- What retiming a list of chapters owes to the list: each chapter is moved by the one map, which
is monotone, so chapters keep their order and stay apart. -/
structure Retimed (removedMs : List (ℤ × ℤ)) (chapters new : List Chapter) : Prop where
  each : List.Forall₂ (RetimedChapter removedMs) chapters new
  monotone : ∀ s t, 0 ≤ s → s ≤ t → retime removedMs s ≤ retime removedMs t
  ordered : ∀ p ∈ chapters.zip new, ∀ q ∈ chapters.zip new,
    p.1.startTimeMs ≤ q.1.startTimeMs → p.2.startTimeMs ≤ q.2.startTimeMs
  disjoint : ∀ p ∈ chapters.zip new, ∀ q ∈ chapters.zip new,
    p.1.endTimeMs ≤ q.1.startTimeMs → p.2.endTimeMs ≤ q.2.startTimeMs

theorem retimed_of_each {removedMs : List (ℤ × ℤ)} {chapters new : List Chapter}
    (hstart : ∀ c ∈ chapters, 0 ≤ c.startTimeMs)
    (heach : List.Forall₂ (RetimedChapter removedMs) chapters new) :
    Retimed removedMs chapters new := by
  have hzip : ∀ p ∈ chapters.zip new, 0 ≤ p.1.startTimeMs ∧ RetimedChapter removedMs p.1 p.2 := by
    intro p hp
    exact ⟨hstart p.1 (List.of_mem_zip hp).1,(List.forall₂_iff_zip.mp heach).2 hp⟩
  refine ⟨heach,fun s t => retime_mono removedMs,?_,?_⟩
  · intro p hp q hq hpq
    obtain ⟨hp0,hpr⟩ := hzip p hp
    obtain ⟨-,hqr⟩ := hzip q hq
    rw [hpr.start,hqr.start]
    exact retime_mono removedMs hp0 hpq
  · intro p hp q hq hpq
    obtain ⟨hp0,hpr⟩ := hzip p hp
    obtain ⟨-,hqr⟩ := hzip q hq
    rw [hpr.finish,hqr.start]
    exact retime_mono removedMs (hp0.trans p.1.le) hpq

/-- `recalculate_chapter_times` moves every marker by the audio removed before it. -/
theorem recalculateChapterTimes_retimed {chapters : List Chapter}
    {removedSegments : List (ℚ × ℚ)} (hne : removedSegments ≠ [])
    (hpos : ∀ t, Covers (roundedMs removedSegments) t → 0 ≤ t)
    (hstart : ∀ c ∈ chapters, 0 ≤ c.startTimeMs) :
    Retimed (roundedMs removedSegments) chapters
      (recalculateChapterTimes chapters removedSegments) := by
  apply retimed_of_each hstart
  have hmap : recalculateChapterTimes chapters removedSegments =
      chapters.map (adjustChapter (normalizeRemovedSegmentsMs removedSegments)) := by
    unfold recalculateChapterTimes
    rw [if_neg (by simpa using hne : ¬ removedSegments.isEmpty = true)]
    cases chapters <;> rfl
  rw [hmap,List.forall₂_map_right_iff,List.forall₂_same]
  intro c hc
  exact adjustChapter_retimed hpos (hstart c hc)

theorem recalculateChapterTimes_retimed_nested :
    Retimed (roundedMs [(20,10),(5,8),(1,9)]) [⟨"chp0","Intro",0,4000,by decide⟩]
      (recalculateChapterTimes [⟨"chp0","Intro",0,4000,by decide⟩] [(20,10),(5,8),(1,9)]) := by
  have hrounded : roundedMs [(20,10),(5,8),(1,9)] = [(20000,10000),(5000,8000),(1000,9000)] := by
    decide +kernel
  apply recalculateChapterTimes_retimed (by simp)
  · intro t ht
    rw [hrounded] at ht
    simp only [covers_cons, covers_nil, or_false] at ht
    omega
  · simp

/-- Times before the audio are not retimed: a removed window that reaches below 0 is subtracted
with the part of it that no chapter has, and a chapter start below 0 is raised to 0. -/
theorem recalculateChapterTimes_not_retimed :
    ¬ Retimed (roundedMs [(-5,5)]) [⟨"chp0","Intro",10000,20000,by decide⟩]
        (recalculateChapterTimes [⟨"chp0","Intro",10000,20000,by decide⟩] [(-5,5)]) ∧
      ¬ Retimed (roundedMs [(1,2)]) [⟨"chp0","Intro",-500,500,by decide⟩]
        (recalculateChapterTimes [⟨"chp0","Intro",-500,500,by decide⟩] [(1,2)]) := by
  constructor
  · intro h
    have hnew : recalculateChapterTimes [⟨"chp0","Intro",10000,20000,by decide⟩] [(-5,5)] =
        [⟨"chp0","Intro",0,10000,by decide⟩] := by decide +kernel
    rw [hnew] at h
    have hstart := (List.forall₂_cons.mp h.each).1.start
    have hrounded : roundedMs [(-5,5)] = [(-5000,5000)] := by decide +kernel
    -- the window covers the first five seconds of the audio, and nothing after them
    have hinside : coveredCells [(-5000,5000)] 0 5000 = 5000 - 0 := by
      refine coveredCells_full (by decide) (fun t hle hlt => ?_)
      exact (covers_cons _ _ _).mpr (.inl ⟨by omega,hlt⟩)
    have hbehind : coveredCells [(-5000,5000)] 5000 10000 = 0 := by
      refine coveredCells_empty (fun t hle _ hcov => ?_)
      simp only [covers_cons,covers_nil,or_false] at hcov
      omega
    have hretimed : retime (roundedMs [(-5,5)]) 10000 = 5000 := by
      rw [hrounded,retime,coveredCells_add _ (by decide : (0 : ℤ) ≤ 5000) (by decide),hinside,hbehind]
      rfl
    exact absurd (hstart.trans hretimed) (by decide)
  · intro h
    have hnew : recalculateChapterTimes [⟨"chp0","Intro",-500,500,by decide⟩] [(1,2)] =
        [⟨"chp0","Intro",0,500,by decide⟩] := by decide +kernel
    rw [hnew] at h
    have hstart := (List.forall₂_cons.mp h.each).1.start
    have hretimed : retime (roundedMs [(1,2)]) (-500) = -500 := by decide +kernel
    exact absurd (hstart.trans hretimed) (by decide)

end Podly.Chapters
