import Podly.Chapters.Retime
import Podly.Strings.Trimmed
import Podly.WordBoundary.Tokens
import Podly.Writer.ProcessedPaths

/-! Chapters of a file that are advertisements by their titles, as the application and the sidecar
find them. -/
namespace Podly.Processing
open Chapters Sweep Strings Intervals

/-- A chapter frame as it stands in a file. -/
structure ChapterFrame where
  elementId : String
  title : String
  startTime : ℕ
  endTime : ℕ

/-- `Chapter`, whose end is moved to its start where it comes before it. -/
def ChapterFrame.chapter (f : ChapterFrame) : Chapter :=
  Chapter.make f.elementId f.title f.startTime f.endTime

/-- `str.strip`. -/
def strip (text : List Char) : List Char := trimmed Writer.isSpace text

/-- `str::trim`. -/
def trim (text : List Char) : List Char := trimmed WordBoundary.isWhitespace text

/-- `parse_filter_strings`. -/
def parseFilterStrings (filterStringsCsv : List Char) : List (List Char) :=
  if filterStringsCsv = [] then []
  else ((filterStringsCsv.splitOn ',').map strip).filter (· ≠ [])

section Lower
variable (lower : List Char → List Char)

/-- Some filter occurs in the title in lower case. -/
def IsAd (filters : List (List Char)) (title : String) : Prop :=
  ∃ f ∈ filters, f <:+: lower title.toList

instance (filters : List (List Char)) (title : String) : Decidable (IsAd lower filters title) :=
  inferInstanceAs (Decidable (∃ f ∈ filters, _))

/-- `filter_chapters_by_strings`: the chapters to keep and those to remove. -/
def filterChaptersByStrings (chapters : List Chapter) (filterStrings : List (List Char)) :
    List Chapter × List Chapter :=
  if chapters = [] then ([],[])
  else if filterStrings = [] then (chapters,[])
  else
    let normalizedFilters := (filterStrings.filter (fun f => strip f ≠ [])).map (fun f => lower (strip f))
    (chapters.filter (fun c => ¬ IsAd lower normalizedFilters c.title),
      chapters.filter (fun c => IsAd lower normalizedFilters c.title))

/-- Rust's `parse_filter_strings_csv`. -/
def parseFilterStringsCsv (filterStringsCsv : List Char) : List (List Char) :=
  (((filterStringsCsv.splitOn ',').map trim).filter (· ≠ [])).map lower

/-- Rust's `filter_chapters_by_strings`. -/
def partitionByStrings (frames : List ChapterFrame) (filters : List (List Char)) :
    List ChapterFrame × List ChapterFrame :=
  if filters = [] then (frames,[])
  else frames.partition (fun f => ¬ IsAd lower filters f.title)

/-- `_is_valid_chapter_detection_payload`: no chapter ends before it starts, and each list is in the
order of its starts. -/
def ValidPayload (lists : List ChapterFrame × List ChapterFrame) : Prop :=
  (∀ f ∈ lists.1 ++ lists.2, f.startTime ≤ f.endTime) ∧
    lists.1.Pairwise (fun a b => a.startTime ≤ b.startTime) ∧
    lists.2.Pairwise (fun a b => a.startTime ≤ b.startTime)

instance (lists : List ChapterFrame × List ChapterFrame) : Decidable (ValidPayload lists) :=
  inferInstanceAs (Decidable (_ ∧ _ ∧ _))

/-- `read_chapters` without the sidecar. -/
def readChapters (frames : List ChapterFrame) : List Chapter :=
  sortByKey Chapter.startTimeMs (frames.map ChapterFrame.chapter)

/-- `try_detect_chapter_ads` with the sidecar at hand: what it answers, if the answer is valid. -/
def tryDetectChapterAds (frames : List ChapterFrame) (filterStringsCsv : List Char) :
    Option (List Chapter × List Chapter) :=
  let lists := partitionByStrings lower (sortByKey ChapterFrame.startTime frames)
    (parseFilterStringsCsv lower filterStringsCsv)
  if ValidPayload lists then
    some (lists.1.map ChapterFrame.chapter,lists.2.map ChapterFrame.chapter)
  else none

/-- The chapters that `detect` keeps and removes, with the sidecar or without it; it raises where
the file has none. -/
def detect (sidecar : Bool) (frames : List ChapterFrame) (filterStrings : List (List Char)) :
    Option (List Chapter × List Chapter) :=
  match if sidecar then tryDetectChapterAds lower frames ([','].intercalate filterStrings) else none with
  | some lists => if lists = ([],[]) then none else some lists
  | none =>
    if readChapters frames = [] then none
    else some (filterChaptersByStrings lower (readChapters frames) filterStrings)

theorem trimmed_trimmed {α : Type*} {p q : α → Bool} (hpq : ∀ x, p x → q x) (xs : List α) :
    trimmed p (trimmed q xs) = trimmed q xs := by
  have hpre : trimmed q xs <+: xs.dropWhile q := List.rdropWhile_prefix q _
  have hfirst : (trimmed q xs).dropWhile p = trimmed q xs := by
    rw [List.dropWhile_eq_self_iff]
    intro hlt hp
    have hne : trimmed q xs ≠ [] := List.length_pos_iff.mp hlt
    have hhead : (trimmed q xs).head hne = (xs.dropWhile q).head (hpre.ne_nil hne) := hpre.head hne
    have hnot := List.head_dropWhile_not q (hpre.ne_nil hne)
    rw [← hhead] at hnot
    have hq := hpq _ hp
    rw [← List.head_eq_getElem hne,hnot] at hq
    cases hq
  have hlast : (trimmed q xs).rdropWhile p = trimmed q xs := by
    rw [List.rdropWhile_eq_self_iff]
    intro hne hp
    exact List.rdropWhile_last_not q _ hne (hpq _ hp)
  rw [trimmed,hfirst,hlast]

theorem isSpace_of_isWhitespace (c : Char) (h : WordBoundary.isWhitespace c) : Writer.isSpace c := by
  unfold WordBoundary.isWhitespace at h
  unfold Writer.isSpace
  simp only [Bool.or_eq_true,Bool.and_eq_true,decide_eq_true_eq] at h ⊢
  omega

/-- What a filter of the settings is: not empty, without white space at its ends and without a
comma. -/
def Clean (filter : List Char) : Prop := strip filter = filter ∧ filter ≠ [] ∧ ',' ∉ filter

theorem clean_of_mem_parseFilterStrings {csv f : List Char} (h : f ∈ parseFilterStrings csv) : Clean f := by
  rw [parseFilterStrings] at h
  split at h
  · cases h
  · obtain ⟨hmem,hne⟩ := List.mem_filter.mp h
    obtain ⟨part,hpart,rfl⟩ := List.mem_map.mp hmem
    refine ⟨trimmed_trimmed (fun _ hc => hc) part,of_decide_eq_true hne,?_⟩
    intro hcomma
    exact (mem_splitOn.mp ⟨part,hpart,mem_of_mem_trimmed hcomma⟩).2 rfl

/-- The sidecar reads the filters back that it is handed over. -/
theorem parseFilterStringsCsv_intercalate {filters : List (List Char)} (h : ∀ f ∈ filters, Clean f) :
    parseFilterStringsCsv lower ([','].intercalate filters) = filters.map lower := by
  rcases eq_or_ne filters [] with rfl | hne
  · rfl
  · rw [parseFilterStringsCsv,List.splitOn_intercalate _ (fun f hf => (h f hf).2.2) hne]
    have htrim : filters.map trim = filters := by
      refine (List.map_congr_left (fun f hf => ?_)).trans (List.map_id filters)
      have hstrip := trimmed_trimmed isSpace_of_isWhitespace f
      change trim (strip f) = strip f at hstrip
      rwa [(h f hf).1] at hstrip
    rw [htrim,List.filter_eq_self.mpr (fun f hf => decide_eq_true (h f hf).2.1)]

/-- The application works on the same filters. -/
theorem normalizedFilters_eq {filters : List (List Char)} (h : ∀ f ∈ filters, Clean f) :
    (filters.filter (fun f => strip f ≠ [])).map (fun f => lower (strip f)) = filters.map lower := by
  have hkept : filters.filter (fun f => strip f ≠ []) = filters :=
    List.filter_eq_self.mpr (fun f hf => decide_eq_true (by rw [(h f hf).1]; exact (h f hf).2.1))
  rw [hkept]
  exact List.map_congr_left (fun f hf => by rw [(h f hf).1])

theorem sortByKey_chapter (frames : List ChapterFrame) :
    readChapters frames = (sortByKey ChapterFrame.startTime frames).map ChapterFrame.chapter := by
  have hstart : ∀ f : ChapterFrame, f.chapter.startTimeMs = f.startTime := by
    intro f
    unfold ChapterFrame.chapter Chapter.make
    split <;> rfl
  rw [readChapters,sortByKey_map]
  simp only [hstart,sortByKey,Int.ofNat_le]

theorem title_chapter (f : ChapterFrame) : f.chapter.title = f.title := by
  unfold ChapterFrame.chapter Chapter.make
  split <;> rfl

/-- What the sidecar answers is what the application finds by itself. -/
theorem tryDetectChapterAds_eq {frames : List ChapterFrame} {filters : List (List Char)}
    (h : ∀ f ∈ filters, Clean f) {lists : List Chapter × List Chapter}
    (hlists : tryDetectChapterAds lower frames ([','].intercalate filters) = some lists) :
    lists = filterChaptersByStrings lower (readChapters frames) filters := by
  rw [tryDetectChapterAds,parseFilterStringsCsv_intercalate lower h] at hlists
  split at hlists
  · obtain rfl := Option.some.inj hlists
    rw [sortByKey_chapter,filterChaptersByStrings,normalizedFilters_eq lower h,partitionByStrings]
    generalize sortByKey ChapterFrame.startTime frames = sorted
    by_cases hfilters : filters = []
    · simp only [hfilters,List.map_nil,if_true]
      split
      · rename_i hnil
        rw [hnil]
      · rfl
    by_cases hsorted : sorted = []
    · rw [hsorted]
      split <;> rfl
    have hmap : filters.map lower ≠ [] := by simpa using hfilters
    have hchapters : sorted.map ChapterFrame.chapter ≠ [] := by simpa using hsorted
    have hkeep : (fun c : Chapter => decide ¬IsAd lower (filters.map lower) c.title) ∘
        ChapterFrame.chapter = fun f => decide ¬IsAd lower (filters.map lower) f.title := by
      funext f
      rw [Function.comp_apply,title_chapter]
    have hremove : (fun c : Chapter => decide (IsAd lower (filters.map lower) c.title)) ∘
        ChapterFrame.chapter = not ∘ fun f => decide ¬IsAd lower (filters.map lower) f.title := by
      funext f
      rw [Function.comp_apply,Function.comp_apply,title_chapter,decide_not,Bool.not_not]
    simp only [if_neg hmap,if_neg hfilters,if_neg hchapters,List.partition_eq_filter_filter,
      List.filter_map,hkeep,hremove]
  · cases hlists

/-- Removed are the chapters whose titles hold a filter, kept are the others. -/
theorem filterChaptersByStrings_eq (chapters : List Chapter) {filters : List (List Char)}
    (h : ∀ f ∈ filters, Clean f) : filterChaptersByStrings lower chapters filters =
      (chapters.filter (fun c => ¬ IsAd lower (filters.map lower) c.title),
        chapters.filter (fun c => IsAd lower (filters.map lower) c.title)) := by
  rw [filterChaptersByStrings]
  split
  · rename_i hnil
    rw [hnil]
    rfl
  · split
    · rename_i hnone
      have hno : ∀ c : Chapter, ¬ IsAd lower (filters.map lower) c.title := by
        rintro c ⟨f,hf,-⟩
        rw [hnone] at hf
        cases hf
      rw [List.filter_eq_self.mpr (fun c _ => decide_eq_true (hno c)),
        List.filter_eq_nil_iff.mpr (fun c _ hc => hno c (of_decide_eq_true hc))]
    · simp only [normalizedFilters_eq lower h]

/-- Every chapter of a file is kept or removed. -/
theorem filterChaptersByStrings_perm (chapters : List Chapter) (filters : List (List Char)) :
    ((filterChaptersByStrings lower chapters filters).1 ++
      (filterChaptersByStrings lower chapters filters).2).Perm chapters := by
  rw [filterChaptersByStrings]
  split
  · rename_i hnil
    rw [hnil]
    rfl
  · split
    · rw [List.append_nil]
    · have h := List.filter_append_perm (fun c : Chapter => decide (IsAd lower
        ((filters.filter (fun f => strip f ≠ [])).map (fun f => lower (strip f))) c.title)) chapters
      refine List.perm_append_comm.trans ?_
      simpa using h

/-- Detection does not depend on the sidecar. -/
theorem detect_sidecar (frames : List ChapterFrame) (csv : List Char) :
    detect lower true frames (parseFilterStrings csv) =
      detect lower false frames (parseFilterStrings csv) := by
  have hclean : ∀ f ∈ parseFilterStrings csv, Clean f := fun f hf => clean_of_mem_parseFilterStrings hf
  rw [detect,detect,if_pos rfl,if_neg Bool.false_ne_true]
  cases hanswer : tryDetectChapterAds lower frames ([','].intercalate (parseFilterStrings csv)) with
  | none => rfl
  | some lists =>
    have heq := tryDetectChapterAds_eq lower hclean hanswer
    by_cases hnone : readChapters frames = []
    · rw [heq,hnone]
      rfl
    · have hperm := filterChaptersByStrings_perm lower (readChapters frames) (parseFilterStrings csv)
      have hboth : lists ≠ ([],[]) := by
        intro hempty
        rw [← heq,hempty] at hperm
        exact hnone hperm.nil_eq.symm
      simp only [if_neg hboth,if_neg hnone]
      rw [heq]

end Lower

end Podly.Processing
