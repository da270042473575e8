import Podly.Processing.AdStrategy
import Podly.Processing.ChapterFilter

/-! An episode whose ads are found by the titles of its chapters: what is cut, what the file plays
then, and where the chapters that are kept lie in it. -/
namespace Podly.Processing
open Intervals Cutter Chapters Sweep

/-- `CHAPTER_FILTER_DEFAULT_STRINGS`. -/
def chapterFilterDefaultStrings : List Char := "sponsor,advertisement,ad break,promo,brought to you by".toList

/-- The ad segments of `detect`, in seconds. -/
def adSegments (chaptersToRemove : List Chapter) : List (ℚ × ℚ) :=
  chaptersToRemove.map (fun c => (seconds c.startTimeMs,seconds c.endTimeMs))

/-- `int(s * 1000)`. -/
def truncatedMs (s : ℚ) : ℕ := (truncate (Floats.rounded (s * 1000))).toNat

/-- `ad_segments_ms`. -/
def adSegmentsMs (segments : List (ℚ × ℚ)) : List (ℕ × ℕ) :=
  segments.map (fun w => (truncatedMs w.1,truncatedMs w.2))

/-- The part of `clip_segments_exact` that makes the file. -/
inductive ExactCutter
  | sidecar
  | application
deriving DecidableEq

/-- What the file of `clip_segments_exact` plays; it raises where nothing is to be kept. -/
def clipSegmentsExact (cutter : ExactCutter) (windows : List (ℕ × ℕ)) (durationMs : ℕ) :
    Option (List ℤ) :=
  let pieces := match cutter with
    | .sidecar => cutAudioSimple (readWindowsMs windows) durationMs
    | .application => clipSegmentsSimple windows durationMs
  pieces.toOption.map (fun keep => audible durationMs (toInt keep))

/-- The processed file: without ads it is a copy. -/
def makeFile (cutter : ExactCutter) (windows : List (ℕ × ℕ)) (durationMs : ℕ) : Option (List ℤ) :=
  if windows = [] then some (Int.range 0 durationMs) else clipSegmentsExact cutter windows durationMs

/-- What becomes of the episode. -/
structure ChapterResult where
  chaptersToKeep : List Chapter
  chaptersToRemove : List Chapter
  file : List ℤ
  chaptersForOutput : List Chapter
deriving DecidableEq

/-- `_perform_chapter_based_processing`, without its progress reports. -/
def performChapterBasedProcessing (lower : List Char → List Char) (sidecar : Bool)
    (cutter : ExactCutter) (frames : List ChapterFrame) (chapterFilterStrings : List Char)
    (durationMs : ℕ) : Option ChapterResult := do
  let filterCsv := if chapterFilterStrings = [] then chapterFilterDefaultStrings
    else chapterFilterStrings
  let (chaptersToKeep,chaptersToRemove) ← detect lower sidecar frames (parseFilterStrings filterCsv)
  let file ← makeFile cutter (adSegmentsMs (adSegments chaptersToRemove)) durationMs
  some ⟨chaptersToKeep,chaptersToRemove,file,
    recalculateChapterTimes chaptersToKeep (adSegments chaptersToRemove)⟩

/-- The filters of the settings, in lower case. -/
def filtersOf (lower : List Char → List Char) (chapterFilterStrings : List Char) :
    List (List Char) :=
  (parseFilterStrings (if chapterFilterStrings = [] then chapterFilterDefaultStrings
    else chapterFilterStrings)).map lower

/-- The windows of chapters as the file has them. -/
def windowsOf (chapters : List Chapter) : List (ℤ × ℤ) :=
  chapters.map (fun c => (c.startTimeMs,c.endTimeMs))

/-- The windows that are cut for chapters. -/
def cutOf (chapters : List Chapter) : List (ℤ × ℤ) := toInt (adSegmentsMs (adSegments chapters))

/-- A chapter that is kept, as it is written: its audio lies somewhere in the file, its markers are
off by no more than a millisecond for each removed chapter, and they frame it where no cut is off. -/
structure Placed (result : ChapterResult) (durationMs : ℕ) (c new : Chapter) : Prop where
  elementId : new.elementId = c.elementId
  title : new.title = c.title
  located : result.file.extract (retime (cutOf result.chaptersToRemove) c.startTimeMs).toNat
    (retime (cutOf result.chaptersToRemove) c.endTimeMs).toNat =
      c.own (cutOf result.chaptersToRemove) durationMs
  start : |new.startTimeMs - retime (cutOf result.chaptersToRemove) c.startTimeMs| ≤
    result.chaptersToRemove.length
  finish : |new.endTimeMs - retime (cutOf result.chaptersToRemove) c.endTimeMs| ≤
    result.chaptersToRemove.length
  exact : cutOf result.chaptersToRemove = windowsOf result.chaptersToRemove →
    new.plays result.file = c.own (windowsOf result.chaptersToRemove) durationMs

/-- The episode without the chapters that the filters name: every chapter of the file is kept or
removed, those whose titles hold a filter are the removed ones, of a removed one at most the last
millisecond is played, no more than the millisecond before one is lost besides, and the kept ones are
placed. -/
structure WithoutChapters (lower : List Char → List Char) (chapterFilterStrings : List Char)
    (result : ChapterResult) (frames : List ChapterFrame) (durationMs : ℕ) : Prop where
  parted : (result.chaptersToKeep ++ result.chaptersToRemove).Perm (readChapters frames)
  keeps : result.chaptersToKeep =
    (readChapters frames).filter (fun c => ¬ IsAd lower (filtersOf lower chapterFilterStrings) c.title)
  removes : result.chaptersToRemove =
    (readChapters frames).filter (fun c => IsAd lower (filtersOf lower chapterFilterStrings) c.title)
  removed : ∀ t ∈ result.file, ∀ r ∈ result.chaptersToRemove, t < r.startTimeMs ∨ r.endTimeMs ≤ t + 1
  kept : ∀ t : ℤ, 0 ≤ t → t < durationMs →
    (∀ r ∈ result.chaptersToRemove, t + 1 < r.startTimeMs ∨ r.endTimeMs ≤ t) → t ∈ result.file
  placed : List.Forall₂ (Placed result durationMs) result.chaptersToKeep result.chaptersForOutput

/-- A chapter whose times a frame can hold. -/
def Fits (c : Chapter) : Prop := 0 ≤ c.startTimeMs ∧ c.endTimeMs < 2 ^ 50

theorem truncatedMs_seconds {n : ℕ} (hn : n < 2 ^ 50) :
    truncatedMs (seconds n) = n ∨ truncatedMs (seconds n) + 1 = n := by
  have hnonneg : 0 ≤ Floats.rounded (seconds n * 1000) := by
    have hsec : 0 ≤ seconds n := Floats.rounded_nonneg (by positivity)
    exact Floats.rounded_nonneg (by linarith)
  have hfloor := @Floats.floor_scaled 1000 n (by norm_num) (by norm_num) hn
  have hcast : Floats.rounded (seconds n * 1000) =
      Floats.rounded (Floats.rounded ((n : ℚ) / (1000 : ℕ)) * (1000 : ℕ)) := by
    simp only [seconds,Int.cast_natCast,Nat.cast_ofNat]
  rw [← hcast] at hfloor
  have hpos : 0 ≤ ⌊Floats.rounded (seconds n * 1000)⌋ := Int.floor_nonneg.mpr hnonneg
  unfold truncatedMs
  rw [truncate_of_nonneg hnonneg]
  omega

/-- A time that is cut is the one of the chapter or the millisecond before it. -/
theorem truncatedMs_near {t : ℤ} (hnonneg : 0 ≤ t) (hlt : t < 2 ^ 50) :
    (truncatedMs (seconds t) : ℤ) = t ∨ (truncatedMs (seconds t) : ℤ) = t - 1 := by
  obtain ⟨n,rfl⟩ := Int.eq_ofNat_of_zero_le hnonneg
  have h := @truncatedMs_seconds n (by exact_mod_cast hlt)
  omega

theorem mem_cutOf {chapters : List Chapter} {w : ℤ × ℤ} : w ∈ cutOf chapters ↔ ∃ c ∈ chapters,
    ((truncatedMs (seconds c.startTimeMs) : ℤ),(truncatedMs (seconds c.endTimeMs) : ℤ)) = w := by
  simp only [cutOf,adSegmentsMs,adSegments,toInt,List.map_map,List.mem_map,Function.comp_apply]

theorem mem_windowsOf {chapters : List Chapter} {w : ℤ × ℤ} :
    w ∈ windowsOf chapters ↔ ∃ c ∈ chapters, (c.startTimeMs,c.endTimeMs) = w := List.mem_map

theorem Fits.near {c : Chapter} (h : Fits c) :
    ((truncatedMs (seconds c.startTimeMs) : ℤ) = c.startTimeMs ∨
      (truncatedMs (seconds c.startTimeMs) : ℤ) = c.startTimeMs - 1) ∧
    ((truncatedMs (seconds c.endTimeMs) : ℤ) = c.endTimeMs ∨
      (truncatedMs (seconds c.endTimeMs) : ℤ) = c.endTimeMs - 1) :=
  ⟨truncatedMs_near h.1 (c.le.trans_lt h.2),truncatedMs_near (h.1.trans c.le) h.2⟩

section Cut
variable {chapters : List Chapter} (hfits : ∀ c ∈ chapters, Fits c) {t : ℤ}
include hfits

theorem covers_of_cut (h : Covers (cutOf chapters) t) :
    Covers (windowsOf chapters) t ∨ t ∈ chapters.map (fun c => c.startTimeMs - 1) := by
  obtain ⟨w,hw,hle,hlt⟩ := h
  obtain ⟨c,hc,rfl⟩ := mem_cutOf.mp hw
  obtain ⟨hstart,hend⟩ := (hfits c hc).near
  simp only at hle hlt
  by_cases hbefore : t = c.startTimeMs - 1
  · exact Or.inr (List.mem_map.mpr ⟨c,hc,hbefore.symm⟩)
  · exact Or.inl ⟨_,mem_windowsOf.mpr ⟨c,hc,rfl⟩,by simp only; omega,by simp only; omega⟩

theorem covers_cut_of (h : Covers (windowsOf chapters) t) :
    Covers (cutOf chapters) t ∨ t ∈ chapters.map (fun c => c.endTimeMs - 1) := by
  obtain ⟨w,hw,hle,hlt⟩ := h
  obtain ⟨c,hc,rfl⟩ := mem_windowsOf.mp hw
  obtain ⟨hstart,hend⟩ := (hfits c hc).near
  simp only at hle hlt
  by_cases hlast : t = c.endTimeMs - 1
  · exact Or.inr (List.mem_map.mpr ⟨c,hc,hlast.symm⟩)
  · exact Or.inl ⟨_,mem_cutOf.mpr ⟨c,hc,rfl⟩,by simp only; omega,by simp only; omega⟩

/-- The markers are off by a millisecond for each window at most. -/
theorem abs_retime_sub_le : |retime (windowsOf chapters) t - retime (cutOf chapters) t| ≤ chapters.length := by
  have hcut := @coveredCells_le_add (cutOf chapters) (windowsOf chapters)
    (chapters.map (fun c => c.startTimeMs - 1)) (fun s hs => covers_of_cut hfits hs) 0 t
  have hwindows := @coveredCells_le_add (windowsOf chapters) (cutOf chapters)
    (chapters.map (fun c => c.endTimeMs - 1)) (fun s hs => covers_cut_of hfits hs) 0 t
  rw [List.length_map] at hcut hwindows
  unfold retime
  rw [abs_le]
  omega

theorem roundedMs_adSegments : roundedMs (adSegments chapters) = windowsOf chapters := by
  have hmap : adSegments chapters =
      (windowsOf chapters).map (fun w => (seconds w.1,seconds w.2)) := by
    rw [adSegments,windowsOf,List.map_map]
    rfl
  rw [hmap]
  refine roundedMs_seconds (fun w hw => ?_)
  obtain ⟨c,hc,rfl⟩ := mem_windowsOf.mp hw
  have hc' := hfits c hc
  have hle := c.le
  unfold Fits at hc'
  simp only
  omega

end Cut

/-- What the file plays, for the order in which the application can cut. -/
theorem clipSegmentsExact_eq {cutter : ExactCutter} {windows : List (ℕ × ℕ)} {durationMs : ℕ}
    {file : List ℤ} (horder : cutter = .application → InCutOrder windows durationMs)
    (h : clipSegmentsExact cutter windows durationMs = some file) :
    file = uncovered (toInt windows) 0 durationMs := by
  rw [← audible_keepSegments windows durationMs]
  cases cutter with
  | sidecar =>
    rw [clipSegmentsExact,cutAudioSimple] at h
    cases hkeep : keepSegments (readWindowsMs windows) durationMs with
    | nil =>
      rw [hkeep] at h
      cases h
    | cons p ps =>
      rw [hkeep] at h
      exact (Option.some.inj h).symm
  | application =>
    rw [clipSegmentsExact,clipSegmentsSimple,(horder rfl).keep_same] at h
    cases hkeep : keepSegments (readWindowsMs windows) durationMs with
    | nil =>
      rw [hkeep] at h
      cases h
    | cons p ps =>
      rw [hkeep] at h
      exact (Option.some.inj h).symm

section Detect
variable {lower : List Char → List Char} {sidecar : Bool} {frames : List ChapterFrame} {csv : List Char}

/-- What is found is what the filters tell apart, whoever looks. -/
theorem detect_eq_some {lists : List Chapter × List Chapter}
    (h : detect lower sidecar frames (parseFilterStrings csv) = some lists) :
    filterChaptersByStrings lower (readChapters frames) (parseFilterStrings csv) = lists := by
  have happlication : detect lower false frames (parseFilterStrings csv) = some lists := by
    cases sidecar with
    | false => exact h
    | true => rwa [← detect_sidecar]
  rw [detect,if_neg Bool.false_ne_true] at happlication
  dsimp only at happlication
  split at happlication
  · cases happlication
  · exact Option.some.inj happlication

theorem fits_of_mem_readChapters
    (hframes : ∀ f ∈ frames, f.startTime < 2 ^ 32 ∧ f.endTime < 2 ^ 32) :
    ∀ c ∈ readChapters frames, Fits c := by
  intro c hc
  obtain ⟨f,hf,rfl⟩ := List.mem_map.mp ((mem_sortByKey _ _ c).mp hc)
  obtain ⟨hstart,hend⟩ := hframes f hf
  unfold Fits ChapterFrame.chapter Chapter.make
  split
  · simp only
    omega
  · simp only
    omega

end Detect

/-- The parts of a run that ends. -/
theorem performChapterBasedProcessing_eq_some {lower : List Char → List Char} {sidecar : Bool}
    {cutter : ExactCutter} {frames : List ChapterFrame} {chapterFilterStrings : List Char}
    {durationMs : ℕ} {result : ChapterResult}
    (horder : cutter = .application →
      InCutOrder (adSegmentsMs (adSegments result.chaptersToRemove)) durationMs)
    (h : performChapterBasedProcessing lower sidecar cutter frames chapterFilterStrings durationMs =
      some result) :
    filterChaptersByStrings lower (readChapters frames) (parseFilterStrings
        (if chapterFilterStrings = [] then chapterFilterDefaultStrings else chapterFilterStrings)) =
      (result.chaptersToKeep,result.chaptersToRemove) ∧
      result.file = uncovered (cutOf result.chaptersToRemove) 0 durationMs ∧
      result.chaptersForOutput =
        recalculateChapterTimes result.chaptersToKeep (adSegments result.chaptersToRemove) := by
  rw [performChapterBasedProcessing] at h
  obtain ⟨⟨keep,remove⟩,hdetect,h⟩ := Option.bind_eq_some_iff.mp h
  obtain ⟨file,hfile,h⟩ := Option.bind_eq_some_iff.mp h
  obtain rfl := Option.some.inj h
  refine ⟨detect_eq_some hdetect,?_,rfl⟩
  rw [makeFile] at hfile
  split at hfile
  · rename_i hnone
    rw [cutOf,hnone,toInt_nil,uncovered_of_free (fun _ _ _ => covers_nil _)]
    exact (Option.some.inj hfile).symm
  · exact clipSegmentsExact_eq horder hfile

-- A sponsor's chapter inside another one comes out of order: the application's own cutter then plays
-- most of the outer one, the sidecar nothing of either.
example : (performChapterBasedProcessing (List.map Char.toLower) false .application
      [⟨"a","Sponsor A",0,100⟩,⟨"b","Sponsor B",10,20⟩,⟨"c","Talk",100,101⟩] [] 101).map
        ChapterResult.file = some (Int.range 20 101) ∧
    (performChapterBasedProcessing (List.map Char.toLower) false .sidecar
      [⟨"a","Sponsor A",0,100⟩,⟨"b","Sponsor B",10,20⟩,⟨"c","Talk",100,101⟩] [] 101).map
        ChapterResult.file = some [100] := by decide +kernel

end Podly.Processing
