import Podly.Chapters.Retime

/-! The chapters that are written into a file: sorted, cut off at the end of the audio and stretched
to its ends. -/
namespace Podly.Chapters
open Intervals

/-- What a frame can hold of a time. -/
def InU32 (t : ℤ) : Prop := 0 ≤ t ∧ t ≤ 4294967295

instance (t : ℤ) : Decidable (InU32 t) := inferInstanceAs (Decidable (_ ∧ _))

/-- What is left in the file: as it was, an error before anything is saved, or frames and the
length of the audio. -/
inductive Written
  | unchanged
  | failed
  | stored (frames : List Chapter) (tlen : Option ℤ)
deriving DecidableEq

/-- Drop the chapters that start past the end of the audio and end the others by then. -/
def clampToAudio (audioDurationMs : ℤ) (chapters : List Chapter) : List Chapter :=
  (chapters.filter (fun c => c.startTimeMs < audioDurationMs)).map
    (fun c => Chapter.make c.elementId c.title c.startTimeMs (min c.endTimeMs audioDurationMs))

def stretchFirst : List Chapter → List Chapter
  | [] => []
  | first::rest =>
    if 0 < first.startTimeMs then
      Chapter.make first.elementId first.title 0 (max first.endTimeMs 0)::rest
    else first::rest

def stretchLast (audioDurationMs : ℤ) : List Chapter → List Chapter
  | [] => []
  | [last] =>
    if last.endTimeMs < audioDurationMs then
      [Chapter.make last.elementId last.title last.startTimeMs audioDurationMs]
    else [last]
  | c::next::rest => c::stretchLast audioDurationMs (next::rest)

/-- `fill_chapter_gaps`. -/
def fillChapterGaps (chapters : List Chapter) (audioDurationMs : ℤ) : List Chapter :=
  let filled := stretchFirst chapters
  if 0 < audioDurationMs then stretchLast audioDurationMs filled else filled

/-- The frames are numbered. -/
def framesFrom : ℕ → List Chapter → List Chapter
  | _, [] => []
  | n, c::cs => { c with elementId := "chp" ++ toString n }::framesFrom (n + 1) cs

/-- The length of the audio, or the last end of a chapter where it is not known. -/
def totalDurationMs (audioDurationMs : ℤ) (chapters : List Chapter) : Option ℤ :=
  let total := if audioDurationMs = 0 then (chapters.map Chapter.endTimeMs).foldl max 0
    else audioDurationMs
  if 0 < total then some total else none

/-- `write_chapters` of the application. The length of the audio is 0 where it is not known. A time
that does not fit a frame fails the save. -/
def writeChapters (audioDurationMs : ℤ) (chapters : List Chapter) : Written :=
  if chapters = [] then .unchanged
  else
    let sorted := sortByKey Chapter.startTimeMs chapters
    let kept := if 0 < audioDurationMs then clampToAudio audioDurationMs sorted else sorted
    let filled := fillChapterGaps kept audioDurationMs
    if ∀ c ∈ filled, InU32 c.startTimeMs ∧ InU32 c.endTimeMs then
      .stored (framesFrom 0 filled) (totalDurationMs audioDurationMs filled)
    else .failed

/-- `write_chapters` of the sidecar. It takes 32-bit times only, and the length of the audio up to
what 32 bits hold; a file that cannot be probed has none. -/
def writeChaptersRust (probe : Option ℤ) (chapters : List Chapter) : Written :=
  if ∃ c ∈ chapters, ¬(InU32 c.startTimeMs ∧ InU32 c.endTimeMs) then .failed
  else if chapters = [] then .unchanged
  else
    let sorted := sortByKey Chapter.startTimeMs chapters
    match probe with
    | none => .stored (framesFrom 0 (stretchFirst sorted)) (totalDurationMs 0 (stretchFirst sorted))
    | some durationMs =>
      let durationU32 := min durationMs 4294967295
      let kept := clampToAudio durationU32 sorted
      if kept = [] then .unchanged
      else
        let filled := stretchLast durationU32 (stretchFirst kept)
        .stored (framesFrom 0 filled) (if 0 < durationU32 then some durationU32 else none)

/-- The frames run from the start of the audio to its end, one for each chapter that starts within
it. -/
structure FillsAudio (audioDurationMs : ℤ) (chapters frames : List Chapter) : Prop where
  sorted : frames.Pairwise (fun a b => a.startTimeMs ≤ b.startTimeMs)
  within : ∀ f ∈ frames,
    0 ≤ f.startTimeMs ∧ f.startTimeMs ≤ f.endTimeMs ∧ f.endTimeMs ≤ audioDurationMs
  starts : frames.head?.map Chapter.startTimeMs = some 0
  ends : frames.getLast?.map Chapter.endTimeMs = some audioDurationMs
  kept : frames.map Chapter.title = ((sortByKey Chapter.startTimeMs chapters).filter
    (fun c => c.startTimeMs < audioDurationMs)).map Chapter.title

theorem Chapter.make_of_le {elementId title : String} {s e : ℤ} (h : s ≤ e) :
    Chapter.make elementId title s e = ⟨elementId,title,s,e,h⟩ := dif_neg (not_lt.mpr h)

section
variable {d : ℤ} {chapters cs : List Chapter} {c : Chapter}

theorem mem_clampToAudio : c ∈ clampToAudio d cs ↔
    ∃ b ∈ cs, b.startTimeMs < d ∧
      Chapter.make b.elementId b.title b.startTimeMs (min b.endTimeMs d) = c := by
  simp [clampToAudio,and_assoc]

theorem make_min {b : Chapter} (h : b.startTimeMs < d) :
    Chapter.make b.elementId b.title b.startTimeMs (min b.endTimeMs d) =
      ⟨b.elementId,b.title,b.startTimeMs,min b.endTimeMs d,le_min b.le h.le⟩ :=
  Chapter.make_of_le _

/-- A column that the clamp does not touch. -/
theorem map_clampToAudio {β : Type*} {f : Chapter → β}
    (hf : ∀ (b : Chapter) (e : ℤ) (h : b.startTimeMs ≤ e),
      f ⟨b.elementId,b.title,b.startTimeMs,e,h⟩ = f b) :
    (clampToAudio d cs).map f = (cs.filter (fun c => c.startTimeMs < d)).map f := by
  rw [clampToAudio,List.map_map]
  refine List.map_congr_left (fun b hb => ?_)
  rw [Function.comp_apply,make_min (of_decide_eq_true (List.mem_filter.mp hb).2),hf]

theorem map_title_stretchFirst : (stretchFirst cs).map Chapter.title = cs.map Chapter.title := by
  cases cs with
  | nil => rfl
  | cons first rest =>
    rw [stretchFirst]
    split
    · rw [Chapter.make_of_le (le_max_right _ _)]
      rfl
    · rfl

/-- A column that the stretch to the end does not touch. -/
theorem map_stretchLast {β : Type*} {f : Chapter → β}
    (hf : ∀ (b : Chapter) (e : ℤ) (h : b.startTimeMs ≤ e),
      f ⟨b.elementId,b.title,b.startTimeMs,e,h⟩ = f b) :
    (stretchLast d cs).map f = cs.map f := by
  induction cs with
  | nil => rfl
  | cons c cs ih =>
    cases cs with
    | nil =>
      rw [stretchLast]
      split
      · rename_i hend
        rw [Chapter.make_of_le (c.le.trans hend.le),List.map_singleton,hf,List.map_singleton]
      · rfl
    | cons next rest => exact congrArg (List.cons (f c)) ih

theorem le_of_mem_stretchLast (h : ∀ c ∈ cs, c.endTimeMs ≤ d) :
    ∀ c ∈ stretchLast d cs, c.endTimeMs ≤ d := by
  induction cs with
  | nil =>
    intro c hc
    cases hc
  | cons c cs ih =>
    cases cs with
    | nil =>
      rw [stretchLast]
      split
      · rename_i hend
        rw [Chapter.make_of_le (c.le.trans hend.le)]
        intro b hb
        rw [List.mem_singleton.mp hb]
      · exact h
    | cons next rest =>
      rw [stretchLast]
      intro b hb
      rcases List.mem_cons.mp hb with rfl | hb
      · exact h b List.mem_cons_self
      · exact ih (fun a ha => h a (List.mem_cons_of_mem c ha)) b hb

theorem getLast?_stretchLast (hne : cs ≠ []) (h : ∀ c ∈ cs, c.endTimeMs ≤ d) :
    (stretchLast d cs).getLast?.map Chapter.endTimeMs = some d := by
  induction cs with
  | nil => exact absurd rfl hne
  | cons c cs ih =>
    cases cs with
    | nil =>
      rw [stretchLast]
      split
      · rename_i hend
        rw [Chapter.make_of_le (c.le.trans hend.le)]
        rfl
      · rename_i hend
        exact congrArg some (le_antisymm (h c List.mem_cons_self) (not_lt.mp hend))
    | cons next rest =>
      have hrest := ih (by simp) (fun a ha => h a (List.mem_cons_of_mem c ha))
      rw [stretchLast]
      cases hstretched : stretchLast d (next::rest) with
      | nil =>
        rw [hstretched] at hrest
        cases hrest
        | cons a as => rwa [List.getLast?_cons_cons,← hstretched]

theorem mem_framesFrom {n : ℕ} {f : Chapter} (h : f ∈ framesFrom n cs) :
    ∃ c ∈ cs, f = { c with elementId := f.elementId } := by
  induction cs generalizing n with
  | nil => cases h
  | cons c cs ih =>
    rcases List.mem_cons.mp h with rfl | h
    · exact ⟨c,List.mem_cons_self,rfl⟩
    · obtain ⟨b,hb,he⟩ := ih h
      exact ⟨b,List.mem_cons_of_mem c hb,he⟩

theorem map_framesFrom {β : Type*} {f : Chapter → β}
    (hf : ∀ (b : Chapter) (elementId : String), f { b with elementId := elementId } = f b)
    (n : ℕ) : (framesFrom n cs).map f = cs.map f := by
  induction cs generalizing n with
  | nil => rfl
  | cons c cs ih => rw [framesFrom,List.map_cons,List.map_cons,hf,ih]

/-- The stretch of the first chapter moves its start only. -/
theorem stretchFirst_cons (first : Chapter) (rest : List Chapter) :
    ∃ b : Chapter, stretchFirst (first::rest) = b::rest ∧
      b.startTimeMs = min first.startTimeMs 0 ∧ b.endTimeMs = first.endTimeMs := by
  rw [stretchFirst]
  split
  · rename_i hpos
    rw [Chapter.make_of_le (le_max_right _ _)]
    exact ⟨_,rfl,(min_eq_right hpos.le).symm,max_eq_left (hpos.le.trans first.le)⟩
  · rename_i hneg
    exact ⟨first,rfl,(min_eq_left (not_lt.mp hneg)).symm,rfl⟩

theorem clampToAudio_le : ∀ c ∈ clampToAudio d cs, c.endTimeMs ≤ d := by
  intro c hc
  obtain ⟨b,-,hb,rfl⟩ := mem_clampToAudio.mp hc
  rw [make_min hb]
  exact min_le_right _ _

theorem clampToAudio_sorted (chapters : List Chapter) :
    (clampToAudio d (sortByKey Chapter.startTimeMs chapters)).Pairwise
      (fun a b => a.startTimeMs ≤ b.startTimeMs) := by
  have hmap : (clampToAudio d (sortByKey Chapter.startTimeMs chapters)).map Chapter.startTimeMs =
      ((sortByKey Chapter.startTimeMs chapters).filter
        (fun c => c.startTimeMs < d)).map Chapter.startTimeMs :=
    map_clampToAudio (fun _ _ _ => rfl)
  rw [← List.pairwise_map (R := (· ≤ ·)),hmap,List.pairwise_map]
  exact (sortByKey_sorted Chapter.startTimeMs chapters).filter _

theorem clampToAudio_ne_nil (h : ∃ c ∈ chapters, c.startTimeMs < d) :
    clampToAudio d (sortByKey Chapter.startTimeMs chapters) ≠ [] := by
  obtain ⟨c,hc,hlt⟩ := h
  exact List.ne_nil_of_mem
    (mem_clampToAudio.mpr ⟨c,(mem_sortByKey _ _ c).mpr hc,hlt,rfl⟩)

/-- Frames that can be stored fill the audio. -/
theorem fillsAudio_framesFrom (hd : 0 < d) (hstart : ∃ c ∈ chapters, c.startTimeMs < d)
    (hfit : ∀ c ∈ fillChapterGaps (clampToAudio d (sortByKey Chapter.startTimeMs chapters)) d,
      0 ≤ c.startTimeMs) :
    FillsAudio d chapters (framesFrom 0
      (fillChapterGaps (clampToAudio d (sortByKey Chapter.startTimeMs chapters)) d)) := by
  have hne := clampToAudio_ne_nil hstart
  have hsorted : (clampToAudio d (sortByKey Chapter.startTimeMs chapters)).Pairwise
      (fun a b => a.startTimeMs ≤ b.startTimeMs) := clampToAudio_sorted chapters
  have hends : ∀ c ∈ clampToAudio d (sortByKey Chapter.startTimeMs chapters), c.endTimeMs ≤ d :=
    clampToAudio_le
  have htitles : (clampToAudio d (sortByKey Chapter.startTimeMs chapters)).map Chapter.title =
      ((sortByKey Chapter.startTimeMs chapters).filter
        (fun c => c.startTimeMs < d)).map Chapter.title := map_clampToAudio (fun _ _ _ => rfl)
  rw [fillChapterGaps,if_pos hd] at hfit ⊢
  generalize clampToAudio d (sortByKey Chapter.startTimeMs chapters) = kept at *
  obtain ⟨first,rest,rfl⟩ := List.exists_cons_of_ne_nil hne
  rw [List.pairwise_cons] at hsorted
  have htitle : (stretchFirst (first::rest)).map Chapter.title =
      (first::rest).map Chapter.title := map_title_stretchFirst
  obtain ⟨b,hb,hbstart,hbend⟩ := stretchFirst_cons first rest
  rw [hb] at hfit htitle ⊢
  have hbends : ∀ c ∈ b::rest, c.endTimeMs ≤ d := by
    intro c hc
    rcases List.mem_cons.mp hc with rfl | hc
    · exact hbend ▸ hends first List.mem_cons_self
    · exact hends c (List.mem_cons_of_mem first hc)
  have hframes : ∀ (n : ℕ), (framesFrom n (stretchLast d (b::rest))).map Chapter.startTimeMs =
      (b::rest).map Chapter.startTimeMs := by
    intro n
    rw [map_framesFrom (fun _ _ => rfl) n,map_stretchLast (fun _ _ _ => rfl)]
  have hzero : b.startTimeMs = 0 := by
    have hmem : b.startTimeMs ∈ (stretchLast d (b::rest)).map Chapter.startTimeMs := by
      rw [map_stretchLast (fun _ _ _ => rfl)]
      exact List.mem_cons_self
    obtain ⟨c,hc,he⟩ := List.mem_map.mp hmem
    have hnonneg := hfit c hc
    omega
  refine ⟨?_,?_,?_,?_,?_⟩
  · rw [← List.pairwise_map (R := (· ≤ ·)),hframes 0,List.pairwise_map,List.pairwise_cons]
    refine ⟨fun c hc => ?_,hsorted.2⟩
    have hle := hsorted.1 c hc
    omega
  · intro f hf
    obtain ⟨c,hc,he⟩ := mem_framesFrom hf
    have hle := le_of_mem_stretchLast hbends c hc
    have hnonneg := hfit c hc
    rw [he]
    exact ⟨hnonneg,c.le,hle⟩
  · rw [← List.head?_map,hframes 0]
    exact congrArg some hzero
  · rw [← List.getLast?_map,map_framesFrom (fun _ _ => rfl) 0,List.getLast?_map]
    exact getLast?_stretchLast (List.cons_ne_nil b rest) hbends
  · rw [map_framesFrom (fun _ _ => rfl) 0,map_stretchLast (fun _ _ _ => rfl),htitle,htitles]

theorem writeChapters_eq (hd : 0 < d) (hne : chapters ≠ []) : writeChapters d chapters =
    if ∀ c ∈ fillChapterGaps (clampToAudio d (sortByKey Chapter.startTimeMs chapters)) d,
      InU32 c.startTimeMs ∧ InU32 c.endTimeMs then
      .stored (framesFrom 0
        (fillChapterGaps (clampToAudio d (sortByKey Chapter.startTimeMs chapters)) d)) (some d)
    else .failed := by
  rw [writeChapters,if_neg hne]
  simp only [if_pos hd,totalDurationMs,if_neg (ne_of_gt hd)]

theorem writeChaptersRust_eq (hd : 0 < d) (hmax : d ≤ 4294967295)
    (hstart : ∃ c ∈ chapters, c.startTimeMs < d) : writeChaptersRust (some d) chapters =
    if ∃ c ∈ chapters, ¬(InU32 c.startTimeMs ∧ InU32 c.endTimeMs) then .failed
    else .stored (framesFrom 0
      (fillChapterGaps (clampToAudio d (sortByKey Chapter.startTimeMs chapters)) d)) (some d) := by
  have hne : chapters ≠ [] := by
    obtain ⟨c,hc,-⟩ := hstart
    exact List.ne_nil_of_mem hc
  rw [writeChaptersRust,if_neg hne]
  simp only [min_eq_left hmax,if_neg (clampToAudio_ne_nil hstart),fillChapterGaps,if_pos hd]

/-- Starts that are not negative make frames that can be stored. -/
theorem inU32_fillChapterGaps (hd : 0 < d) (hmax : d ≤ 4294967295)
    (hstart : ∃ c ∈ chapters, c.startTimeMs < d) (hnonneg : ∀ c ∈ chapters, 0 ≤ c.startTimeMs) :
    ∀ c ∈ fillChapterGaps (clampToAudio d (sortByKey Chapter.startTimeMs chapters)) d,
      InU32 c.startTimeMs ∧ InU32 c.endTimeMs := by
  have hkept : ∀ c ∈ clampToAudio d (sortByKey Chapter.startTimeMs chapters),
      0 ≤ c.startTimeMs := by
    intro c hc
    obtain ⟨b,hb,hlt,rfl⟩ := mem_clampToAudio.mp hc
    rw [make_min hlt]
    exact hnonneg b ((mem_sortByKey _ _ b).mp hb)
  have hends : ∀ c ∈ clampToAudio d (sortByKey Chapter.startTimeMs chapters), c.endTimeMs ≤ d :=
    clampToAudio_le
  obtain ⟨first,rest,hcons⟩ := List.exists_cons_of_ne_nil (clampToAudio_ne_nil hstart)
  obtain ⟨b,hb,hbstart,hbend⟩ := stretchFirst_cons first rest
  rw [fillChapterGaps,if_pos hd]
  rw [hcons] at hkept hends ⊢
  rw [hb]
  have hbends : ∀ c ∈ b::rest, c.endTimeMs ≤ d := by
    intro c hc
    rcases List.mem_cons.mp hc with rfl | hc
    · exact hbend ▸ hends first List.mem_cons_self
    · exact hends c (List.mem_cons_of_mem first hc)
  intro c hc
  have hmem : c.startTimeMs ∈ (b::rest).map Chapter.startTimeMs := by
    rw [← map_stretchLast (d := d) (fun _ _ _ => rfl)]
    exact List.mem_map_of_mem hc
  obtain ⟨a,ha,he⟩ := List.mem_map.mp hmem
  have hle := le_of_mem_stretchLast hbends c hc
  have hzero : 0 ≤ a.startTimeMs := by
    rcases List.mem_cons.mp ha with rfl | ha
    · have hfirst := hkept first List.mem_cons_self
      omega
    · exact hkept a (List.mem_cons_of_mem first ha)
  have hce := c.le
  unfold InU32
  omega

end

/-- What is stored for audio that frames can measure fills it, the sidecar stores the same, and
both do store chapters whose times are not negative, the sidecar if they also fit its frames. -/
theorem writeChapters_fillsAudio {d : ℤ} {chapters : List Chapter} (hd : 0 < d)
    (hmax : d ≤ 4294967295) (hstart : ∃ c ∈ chapters, c.startTimeMs < d) :
    (∀ frames tlen, writeChapters d chapters = .stored frames tlen →
      FillsAudio d chapters frames) ∧
    (∀ frames tlen, writeChaptersRust (some d) chapters = .stored frames tlen →
      writeChapters d chapters = .stored frames tlen) ∧
    ((∀ c ∈ chapters, 0 ≤ c.startTimeMs) → ∃ frames tlen,
      writeChapters d chapters = .stored frames tlen ∧
      ((∀ c ∈ chapters, InU32 c.startTimeMs ∧ InU32 c.endTimeMs) →
        writeChaptersRust (some d) chapters = .stored frames tlen)) := by
  have hne : chapters ≠ [] := by
    obtain ⟨c,hc,-⟩ := hstart
    exact List.ne_nil_of_mem hc
  rw [writeChapters_eq hd hne,writeChaptersRust_eq hd hmax hstart]
  refine ⟨?_,?_,?_⟩
  · intro frames tlen hstored
    split at hstored
    · rename_i hfit
      obtain ⟨rfl,-⟩ := Written.stored.inj hstored
      exact fillsAudio_framesFrom hd hstart (fun c hc => (hfit c hc).1.1)
    · cases hstored
  · intro frames tlen hstored
    split at hstored
    · cases hstored
    · rename_i hfit
      have hnonneg : ∀ c ∈ chapters, 0 ≤ c.startTimeMs :=
        fun c hc => (not_not.mp (fun h => hfit ⟨c,hc,h⟩)).1.1
      rw [if_pos (inU32_fillChapterGaps hd hmax hstart hnonneg),hstored]
  · intro hnonneg
    refine ⟨_,_,if_pos (inU32_fillChapterGaps hd hmax hstart hnonneg),fun hfit => if_neg ?_⟩
    rintro ⟨c,hc,hout⟩
    exact hout (hfit c hc)

/-- A gap before, between and after two chapters. -/
theorem writeChapters_fillsAudio_gaps : FillsAudio 100 [⟨"","B",50,60,by decide⟩,
      ⟨"","A",10,20,by decide⟩] [⟨"chp0","A",0,20,by decide⟩,⟨"chp1","B",50,100,by decide⟩] :=
  (writeChapters_fillsAudio (show 0 < 100 by decide) (by decide)
    ⟨⟨"","A",10,20,by decide⟩,by decide,by decide⟩).1 _ (some 100) (by decide)

/-- The sidecar ends its frames where 32 bits end. -/
theorem not_fillsAudio_long : writeChaptersRust (some 4294967296) [⟨"","A",0,5,by decide⟩] =
      .stored [⟨"chp0","A",0,4294967295,by decide⟩] (some 4294967295) ∧
    ¬FillsAudio 4294967296 [⟨"","A",0,5,by decide⟩] [⟨"chp0","A",0,4294967295,by decide⟩] :=
  ⟨by decide,fun h => absurd h.ends (by decide)⟩

end Podly.Chapters
