import Podly.Chapters.Framed
import Podly.Cutter.CutWindows
import Podly.Cutter.Played
import Podly.Floats.Scaled
import Podly.Intervals.Hulls

/-! An episode whose ads are cut with fades, from the detected windows to the chapters of the file:
`process_audio` and the end of the processing that follows it. -/
namespace Podly.Processing
open Intervals Cutter Chapters Sweep
open Floats hiding roundHalfEven

/-- Milliseconds as seconds in double precision. -/
def seconds (ms : ℤ) : ℚ := rounded (ms / 1000)

/-- `AudioProcessResult`. -/
structure AudioProcessResult where
  removedSegmentsMs : List (ℕ × ℕ)
  sourceDurationMs : ℕ
  effectiveRemovedWindowsMs : Option (List (ℤ × ℤ))

/-- The windows that the cutter is given. -/
def cutWindows (durationMs : ℕ) (adSegments : List (ℚ × ℚ)) (minLength minSeparation : ℚ) :
    List (ℕ × ℕ) :=
  (mergeAdSegments .double durationMs adSegments minLength minSeparation).map
    (fun w => (w.1.toNat,w.2.toNat))

/-- `process_audio`: its result, and what the processed file plays of the source. -/
def processAudio (cutter : FadeCutter) (durationMs : ℕ) (adSegments : List (ℚ × ℚ))
    (minLength minSeparation : ℚ) (fadeMs : ℕ) : AudioProcessResult × List ℤ :=
  let mergedAdSegments := cutWindows durationMs adSegments minLength minSeparation
  (⟨mergedAdSegments,durationMs,some (effectiveRemovedWindows (toInt mergedAdSegments) fadeMs)⟩,
    cutter.plays mergedAdSegments durationMs fadeMs)

/-- `effective_removed_ms`: a result without windows of its own removed the given ones. -/
def AudioProcessResult.effectiveRemovedMs (result : AudioProcessResult) : List (ℤ × ℤ) :=
  result.effectiveRemovedWindowsMs.getD (toInt result.removedSegmentsMs)

/-- `removed_segments_sec`. -/
def AudioProcessResult.removedSegmentsSec (result : AudioProcessResult) : List (ℚ × ℚ) :=
  result.effectiveRemovedMs.map (fun w => (seconds w.1,seconds w.2))

/-- The chapters that are stored with the episode and written into its file. -/
def AudioProcessResult.adjustedChapters (result : AudioProcessResult) (chapters : List Chapter) :
    List Chapter := recalculateChapterTimes chapters result.removedSegmentsSec

/-- What is published agrees with itself: the file plays what lies outside the recorded windows, its
length is what they leave, every chapter frames its own audio, and what is left of a chapter is
played within a frame of its title. -/
structure Published (result : AudioProcessResult) (file : List ℤ) (chapters : List Chapter) :
    Prop where
  audio : file = uncovered result.effectiveRemovedMs 0 result.sourceDurationMs
  duration : (file.length : ℤ) = result.sourceDurationMs - total result.effectiveRemovedMs
  markers : List.Forall₂ (fun c new => new.elementId = c.elementId ∧ new.title = c.title ∧
    new.plays file = c.own result.effectiveRemovedMs result.sourceDurationMs)
    chapters (result.adjustedChapters chapters)
  frames : ∀ frames tlen, writeChapters file.length (result.adjustedChapters chapters) =
    .stored frames tlen → ∀ c ∈ chapters,
      c.own result.effectiveRemovedMs result.sourceDurationMs ≠ [] →
      ∃ f ∈ frames, f.title = c.title ∧
        c.own result.effectiveRemovedMs result.sourceDurationMs <:+: f.plays file

section Merged
variable {R : Rounding} {audio minLength minSeparation : ℚ} {adSegments : List (ℚ × ℚ)}
  (hR : Computed R audio minSeparation adSegments)
include hR

/-- Merged windows lie further apart than the separation. -/
theorem mergedAdSegments_spaced (hsep : 0 ≤ minSeparation) (hin : Within audio adSegments) :
    (mergedAdSegments R audio adSegments minLength minSeparation).Pairwise
      (fun a b => R (a.2 + minSeparation) < b.1) := by
  by_cases hne : adSegments = []
  · rw [hne,mergedAdSegments_nil]
    exact List.Pairwise.nil
  obtain ⟨init,r,hruns⟩ := @mergeRuns_concat R audio minLength minSeparation adSegments hne
  have hsorted : LexSorted (sortByKey toLex adSegments) := sortByKey_sorted toLex _
  have hspaced := @adRuns_spaced R audio minLength minSeparation _ hsorted
  rw [← mergeRuns,hruns] at hspaced
  have hr : r ∈ adRuns R audio minLength minSeparation (sortByKey toLex adSegments) := by
    rw [← mergeRuns,hruns]
    simp
  rw [mergedAdSegments_eq hR hsep hin hruns]
  refine List.pairwise_append.mpr ⟨?_,?_,?_⟩
  · exact (List.pairwise_map.mpr (List.pairwise_append.mp hspaced).1).filter _
  · unfold lastCut
    split
    · exact List.pairwise_singleton _ _
    · split
      · exact List.pairwise_singleton _ _
      · exact List.Pairwise.nil
  · intro o ho o' ho'
    have hbefore := keptSpans_before hspaced ho
    have hstart := (lastCut_within hsorted (within_sortByKey hin) hr o' ho').1
    exact hbefore.trans_le hstart

/-- A merged window is long, or it starts with a detected one and runs to the end. -/
theorem long_or_last (hsep : 0 ≤ minSeparation) (hin : Within audio adSegments) {o : ℚ × ℚ}
    (ho : o ∈ mergedAdSegments R audio adSegments minLength minSeparation) :
    IsLong R minLength o ∨ o.2 = audio ∧ ∃ w ∈ adSegments, o.1 = w.1 := by
  have hne : adSegments ≠ [] := by
    rintro rfl
    rw [mergedAdSegments_nil] at ho
    cases ho
  obtain ⟨init,r,hruns⟩ := @mergeRuns_concat R audio minLength minSeparation adSegments hne
  have hr : r ∈ adRuns R audio minLength minSeparation (sortByKey toLex adSegments) := by
    rw [← mergeRuns,hruns]
    simp
  have hsorted : LexSorted (sortByKey toLex adSegments) := sortByKey_sorted toLex _
  have hend := (span_within hsorted (within_sortByKey hin) hr).2.2
  rw [mergedAdSegments_eq hR hsep hin hruns] at ho
  rcases List.mem_append.mp ho with ho | ho
  · exact Or.inl (of_decide_eq_true (List.mem_filter.mp ho).2)
  · unfold lastCut at ho
    split at ho
    · rename_i hlong
      rw [List.mem_singleton.mp ho]
      left
      unfold IsLong at hlong ⊢
      simp only
      split
      · exact hlong.trans (R.mono (by linarith))
      · exact hlong
    · split at ho
      · rw [List.mem_singleton.mp ho]
        exact Or.inr ⟨rfl,r.last,(mem_sortByKey _ _ _).mp (mem_of_mem_adRuns hr r.last_mem),rfl⟩
      · cases ho

end Merged

/-! The windows that are cut, in double precision -/

/-- A detected window of two milliseconds or more that lies within the audio. -/
def Detected (durationMs : ℕ) (w : ℚ × ℚ) : Prop :=
  0 ≤ w.1 ∧ w.1 + 2 / 1000 ≤ w.2 ∧ w.2 ≤ audioDuration .double durationMs

instance (durationMs : ℕ) (w : ℚ × ℚ) : Decidable (Detected durationMs w) :=
  inferInstanceAs (Decidable (_ ∧ _ ∧ _))

theorem double_of_nonneg {q : ℚ} (hq : 0 ≤ q) : Rounding.double q = rounded q := if_pos hq

theorem double_near {q : ℚ} (hq : 0 ≤ q) (hlt : q < 2 ^ 50) : |Rounding.double q - q| ≤ 1 / 8 := by
  rw [double_of_nonneg hq]
  calc |rounded q - q| ≤ max 1 q / 2 ^ 53 := abs_rounded_sub_le q
    _ ≤ 2 ^ 50 / 2 ^ 53 := by
      gcongr
      exact max_le (by norm_num) hlt.le
    _ = 1 / 8 := by norm_num

/-- Two milliseconds apart before the rounding is a millisecond apart after it. -/
theorem floor_double_lt {x y : ℚ} (hx : 0 ≤ x) (hlt : x < 2 ^ 50) (h : x + 2 ≤ y) :
    ⌊Rounding.double x⌋ < ⌊Rounding.double y⌋ := by
  have hfloor := Int.floor_le (Rounding.double x)
  have hround := (abs_le.mp (double_near hx hlt)).2
  have hnonneg : 0 ≤ ⌊Rounding.double x⌋ := Int.floor_nonneg.mpr (Rounding.round_nonneg hx)
  obtain ⟨n,hn⟩ := Int.eq_ofNat_of_zero_le hnonneg
  have hbound : n + 1 ≤ 2 ^ 53 := by
    have hle : (n : ℚ) ≤ 2 ^ 50 + 1 := by
      have hcast : ((⌊Rounding.double x⌋ : ℤ) : ℚ) = n := by rw [hn,Int.cast_natCast]
      linarith
    have hle' : n ≤ 2 ^ 50 + 1 := by exact_mod_cast hle
    omega
  have hheld : Rounding.double.Holds ((n + 1 : ℕ) : ℚ) :=
    (double_of_nonneg (by positivity)).trans (rounded_natCast hbound)
  have hy : ((n + 1 : ℕ) : ℚ) ≤ y := by
    have hcast : ((⌊Rounding.double x⌋ : ℤ) : ℚ) = n := by rw [hn,Int.cast_natCast]
    push_cast
    linarith
  have hle : ((n + 1 : ℕ) : ℤ) ≤ ⌊Rounding.double y⌋ := by
    refine Int.le_floor.mpr ?_
    rw [Int.cast_natCast]
    exact Rounding.le_round hheld hy
  omega

/-- The windows that are cut are the merged ones in milliseconds. -/
theorem cutWindows_eq {durationMs : ℕ} {adSegments : List (ℚ × ℚ)} {minLength minSeparation : ℚ} :
    cutWindows durationMs adSegments minLength minSeparation =
      if adSegments = [] then [] else
        (mergedAdSegments .double (audioDuration .double durationMs) adSegments minLength
          minSeparation).map (fun s => ((truncate (Rounding.double (s.1 * 1000))).toNat,
            (truncate (Rounding.double (s.2 * 1000))).toNat)) := by
  by_cases hne : adSegments = []
  · rw [if_pos hne,hne]
    rfl
  · rw [cutWindows,mergeAdSegments,if_neg (by simpa using hne),List.map_map,if_neg hne]
    rfl

theorem toNat_truncate_lt {x y : ℚ} (hx : 0 ≤ x) (hlt : x * 1000 < 2 ^ 50) (h : x + 2 / 1000 ≤ y) :
    (truncate (Rounding.double (x * 1000))).toNat < (truncate (Rounding.double (y * 1000))).toNat := by
  have hfloor := floor_double_lt (by linarith) hlt (y := y * 1000) (by linarith)
  have hnonneg : 0 ≤ Rounding.double (x * 1000) := Rounding.round_nonneg (by linarith)
  have hnonneg' : 0 ≤ Rounding.double (y * 1000) := Rounding.round_nonneg (by linarith)
  have hpos : 0 ≤ ⌊Rounding.double (x * 1000)⌋ := Int.floor_nonneg.mpr hnonneg
  rw [truncate_of_nonneg hnonneg,truncate_of_nonneg hnonneg']
  omega

/-- The windows that are cut are not empty and lie apart within the audio, whatever was detected,
where the settings are a second or more. -/
theorem cutWindows_separated {durationMs : ℕ} {adSegments : List (ℚ × ℚ)}
    {minLength minSeparation : ℚ} (hduration : durationMs < 2 ^ 50) (hheld : Held .double adSegments)
    (hseparation : Rounding.double.Holds minSeparation) (hlength : 1 ≤ minLength)
    (hsep : 1 ≤ minSeparation) (hdetected : ∀ w ∈ adSegments, Detected durationMs w) :
    Separated (cutWindows durationMs adSegments minLength minSeparation) ∧
      ∀ w ∈ cutWindows durationMs adSegments minLength minSeparation, w.2 ≤ durationMs := by
  have hzero : 0 ≤ minSeparation := by linarith
  have hR : Computed .double (audioDuration .double durationMs) minSeparation adSegments :=
    ⟨Rounding.holds_round _,hheld,hseparation⟩
  have hin : Within (audioDuration .double durationMs) adSegments := by
    intro w hw
    obtain ⟨hstart,hle,hend⟩ := hdetected w hw
    exact ⟨hstart,by linarith,hend⟩
  have hwithin := @mergedAdSegments_within _ _ minLength _ _ hR hzero hin
  have haudio : audioDuration .double durationMs * 1000 < 2 ^ 50 + 1 := by
    have hnear := @abs_scaled_sub_lt 1000 durationMs (by norm_num) (by norm_num) hduration
    rw [← audioDuration_double (by omega)] at hnear
    have hcast : (durationMs : ℚ) < 2 ^ 50 := by exact_mod_cast hduration
    have hlt := (abs_lt.mp hnear).2
    push_cast at hlt
    linarith
  refine ⟨?_,?_⟩
  · rw [cutWindows_eq]
    split
    · exact ⟨(fun _ hw => nomatch hw),List.Pairwise.nil⟩
    · refine ⟨?_,?_⟩
      · intro w hw
        obtain ⟨o,ho,rfl⟩ := List.mem_map.mp hw
        obtain ⟨hstart,hle,hend⟩ := hwithin o ho
        have hlong : o.1 + 2 / 1000 ≤ o.2 := by
          rcases long_or_last hR hzero hin ho with hlong | ⟨hlast,v,hv,hfrom⟩
          · have hnear := abs_le.mp (double_near (q := o.2 - o.1) (by linarith) (by linarith))
            unfold IsLong at hlong
            linarith
          · obtain ⟨-,hle,hend⟩ := hdetected v hv
            linarith
        exact toNat_truncate_lt hstart (by linarith) hlong
      · rw [List.pairwise_map]
        refine (List.Pairwise.and_mem.mp (mergedAdSegments_spaced hR hzero hin)).imp ?_
        rintro a b ⟨ha,hb,hab⟩
        obtain ⟨hstart,hle,hend⟩ := hwithin a ha
        obtain ⟨-,hle',hend'⟩ := hwithin b hb
        have hmono : Rounding.double (a.2 + 1) ≤ Rounding.double (a.2 + minSeparation) :=
          Rounding.double.mono (by linarith)
        have hnear := abs_le.mp (double_near (q := a.2 + 1) (by linarith) (by linarith))
        exact toNat_truncate_lt (hstart.trans hle) (by linarith) (by linarith)
  · intro w hw
    by_cases hne : adSegments = []
    · rw [hne] at hw
      cases hw
    · obtain ⟨v,hv⟩ := List.exists_mem_of_ne_nil _ hne
      obtain ⟨hstart,hle,hend⟩ := hin v hv
      obtain ⟨o,ho,rfl⟩ := List.mem_map.mp hw
      have hback := @truncate_audioDuration durationMs (by exact_mod_cast hduration)
        (hstart.trans (hle.trans hend))
      have hbound := ((wellFormed_of_computed hR hzero hin (fun _ => hback)).1.within o ho).2
      simp only
      omega

theorem roundHalfEven_eq (x : ℚ) : roundHalfEven x = Floats.roundHalfEven x := rfl

/-- Milliseconds in seconds are rounded back to themselves, whether the product is a double or not. -/
theorem roundHalfEven_seconds {n : ℕ} (hn : n < 2 ^ 50) :
    roundHalfEven (seconds n * 1000) = n ∧ roundHalfEven (Floats.rounded (seconds n * 1000)) = n := by
  have h := @Floats.roundHalfEven_scaled 1000 n (by norm_num) (by norm_num) hn
  simp only [roundHalfEven_eq,seconds,Int.cast_natCast]
  exact_mod_cast h

/-- Rounding the seconds of windows gives the windows. -/
theorem roundedMs_seconds {ws : List (ℤ × ℤ)}
    (h : ∀ w ∈ ws, (0 ≤ w.1 ∧ w.1 < 2 ^ 50) ∧ 0 ≤ w.2 ∧ w.2 < 2 ^ 50) :
    roundedMs (ws.map (fun w => (seconds w.1,seconds w.2))) = ws := by
  have hback : ∀ {t : ℤ}, 0 ≤ t ∧ t < 2 ^ 50 → roundHalfEven (seconds t * 1000) = t := by
    rintro t ⟨hnonneg,hlt⟩
    obtain ⟨n,rfl⟩ := Int.eq_ofNat_of_zero_le hnonneg
    exact (roundHalfEven_seconds (by exact_mod_cast hlt)).1
  rw [roundedMs,List.map_map]
  refine (List.map_congr_left (fun w hw => ?_)).trans (List.map_id ws)
  obtain ⟨hfirst,hsecond⟩ := h w hw
  rw [Function.comp_apply,hback hfirst,hback hsecond,id]

theorem retimed_refl (c : Chapter) : RetimedChapter [] c c := by
  have hcovered : ∀ a b, coveredCells [] a b = 0 :=
    fun a b => coveredCells_empty (fun _ _ _ => covers_nil _)
  have hkept := coveredCells_add_keptCells [] c.le
  rw [hcovered,zero_add] at hkept
  exact ⟨rfl,rfl,by rw [retime,hcovered,sub_zero],by rw [retime,hcovered,sub_zero],c.le,hkept.symm⟩

/-- Every chapter is retimed, also when nothing is removed. -/
theorem recalculateChapterTimes_each {removedSegments : List (ℚ × ℚ)} {chapters : List Chapter}
    (hpos : ∀ t, Covers (roundedMs removedSegments) t → 0 ≤ t)
    (hstart : ∀ c ∈ chapters, 0 ≤ c.startTimeMs) :
    List.Forall₂ (RetimedChapter (roundedMs removedSegments)) chapters
      (recalculateChapterTimes chapters removedSegments) := by
  rw [recalculateChapterTimes]
  split
  · rename_i hnone
    rw [List.isEmpty_iff.mp hnone]
    exact List.Forall₂.nil
  · split
    · rename_i hnone
      rw [List.isEmpty_iff.mp hnone]
      exact List.forall₂_same.mpr (fun c _ => retimed_refl c)
    · rw [List.forall₂_map_right_iff,List.forall₂_same]
      exact fun c hc => adjustChapter_retimed hpos (hstart c hc)

section Recorded
variable {windows : List (ℕ × ℕ)} {durationMs fadeMs : ℕ}

theorem recorded_separated (h : Separated windows) : Separated (recorded windows fadeMs) := by
  have hfade := Int.natCast_nonneg fadeMs
  rw [recorded_eq]
  refine ⟨?_,?_⟩
  · intro w hw
    obtain ⟨v,hv,rfl⟩ := List.mem_map.mp hw
    have hlt := (separated_toInt h).nonempty v hv
    unfold inset
    split
    · simp only
      omega
    · exact hlt
  · rw [List.pairwise_map]
    refine (separated_toInt h).ordered.imp (fun {a b} hab => ?_)
    exact ((inset_within hfade a).2.trans_lt hab).trans_le (inset_within hfade b).1

theorem recorded_within (hend : ∀ w ∈ windows, w.2 ≤ durationMs) :
    ∀ w ∈ recorded windows fadeMs, 0 ≤ w.1 ∧ w.2 ≤ durationMs := by
  rw [recorded_eq]
  intro w hw
  obtain ⟨v,hv,rfl⟩ := List.mem_map.mp hw
  obtain ⟨u,hu,rfl⟩ := mem_toInt.mp hv
  have hwithin := inset_within (Int.natCast_nonneg fadeMs) ((u.1 : ℤ),(u.2 : ℤ))
  have hle := hend u hu
  simp only at hwithin
  omega

end Recorded

/-- Everything follows from what the file plays. -/
theorem published_of_audio {result : AudioProcessResult} {file : List ℤ} {chapters : List Chapter}
    (hsep : Separated result.effectiveRemovedMs)
    (hwithin : ∀ w ∈ result.effectiveRemovedMs, 0 ≤ w.1 ∧ w.2 ≤ result.sourceDurationMs)
    (hduration : result.sourceDurationMs < 2 ^ 50) (hstart : ∀ c ∈ chapters, 0 ≤ c.startTimeMs)
    (haudio : file = uncovered result.effectiveRemovedMs 0 result.sourceDurationMs) :
    Published result file chapters := by
  have hrounded : roundedMs result.removedSegmentsSec = result.effectiveRemovedMs := by
    refine roundedMs_seconds (fun w hw => ?_)
    have hlt := hsep.nonempty w hw
    have hbounds := hwithin w hw
    have hmax : (result.sourceDurationMs : ℤ) < 2 ^ 50 := by exact_mod_cast hduration
    omega
  have hpos : ∀ t, Covers result.effectiveRemovedMs t → 0 ≤ t := by
    rintro t ⟨w,hw,hle,-⟩
    exact (hwithin w hw).1.trans hle
  have heach : List.Forall₂ (RetimedChapter result.effectiveRemovedMs) chapters
      (result.adjustedChapters chapters) := by
    have h := @recalculateChapterTimes_each result.removedSegmentsSec chapters
      (by rwa [hrounded]) hstart
    rwa [hrounded] at h
  have hplays : ∀ c : Chapter, 0 ≤ c.startTimeMs → ∀ new, RetimedChapter result.effectiveRemovedMs c new →
      new.plays file = c.own result.effectiveRemovedMs result.sourceDurationMs := by
    intro c hnonneg new hnew
    rw [haudio]
    exact hnew.plays_eq hnonneg _
  refine ⟨haudio,?_,?_,?_⟩
  · have hcells := coveredCells_add_keptCells result.effectiveRemovedMs
      (Int.natCast_nonneg result.sourceDurationMs)
    rw [haudio,length_uncovered]
    rw [coveredCells_eq_total hsep (Int.natCast_nonneg _) hwithin] at hcells
    omega
  · have hboth := (List.forall₂_and_left chapters (result.adjustedChapters chapters)).mpr ⟨hstart,heach⟩
    refine hboth.imp (fun c new h => ?_)
    obtain ⟨hnonneg,hnew⟩ := h
    exact ⟨hnew.elementId,hnew.title,hplays c hnonneg new hnew⟩
  · intro frames tlen hstored c hc hown
    obtain ⟨new,hmem,hnew⟩ := exists_left_of_forall₂ (List.Forall₂.flip heach) hc
    have hnonneg : 0 ≤ new.startTimeMs := by
      rw [hnew.start]
      exact retime_nonneg _ (hstart c hc)
    rw [← hplays c (hstart c hc) new hnew] at hown ⊢
    -- Where something is played the markers lie within the file.
    have hlt : new.startTimeMs < file.length := by
      by_contra hpast
      apply hown
      rw [Chapter.plays,List.extract_eq_take_drop,List.drop_eq_nil_of_le (by omega),List.take_nil]
    obtain ⟨f,hf,htitle,hplayed⟩ := exists_frame hstored hmem hnonneg hlt
    exact ⟨f,hf,htitle.trans hnew.title,hplayed⟩

/-- What is published agrees with itself exactly when the cutter is accounted for. -/
theorem processAudio_published_iff {cutter : FadeCutter} {durationMs fadeMs : ℕ}
    {adSegments : List (ℚ × ℚ)} {minLength minSeparation : ℚ} {chapters : List Chapter}
    (hduration : durationMs < 2 ^ 50)
    (hseparated : Separated (cutWindows durationMs adSegments minLength minSeparation))
    (hend : ∀ w ∈ cutWindows durationMs adSegments minLength minSeparation, w.2 ≤ durationMs)
    (hstart : ∀ c ∈ chapters, 0 ≤ c.startTimeMs) :
    Published (processAudio cutter durationMs adSegments minLength minSeparation fadeMs).1
        (processAudio cutter durationMs adSegments minLength minSeparation fadeMs).2 chapters ↔
      cutter.Accounted (cutWindows durationMs adSegments minLength minSeparation) fadeMs := by
  have hiff := @plays_eq_iff (cutWindows durationMs adSegments minLength minSeparation) durationMs
    fadeMs cutter hseparated hend
  constructor
  · exact fun h => hiff.mp h.audio
  · intro h
    exact published_of_audio (recorded_separated hseparated) (recorded_within hend) hduration hstart
      (hiff.mpr h)

/-- Advertisements of ten and nine seconds under fades of three, in the middle of the only chapter. -/
theorem processAudio_published_fades : Published
    (processAudio .sidecar 60000 [(30,39),(10,20)] 5 1 3000).1
    (processAudio .sidecar 60000 [(30,39),(10,20)] 5 1 3000).2
    [⟨"chp0","Intro",0,60000,by decide⟩] := by
  obtain ⟨hseparated,hend⟩ := @cutWindows_separated 60000 [(30,39),(10,20)] 5 1 (by decide)
    (by decide +kernel) (by decide +kernel) (by norm_num) (by norm_num) (by decide +kernel)
  exact (processAudio_published_iff (by decide) hseparated hend (by decide)).mpr (by decide +kernel)

-- A window of exactly two fades keeps its faded ends in the file but not in the record.
example : ¬ FadeCutter.sidecar.Accounted (cutWindows 60000
    [(Rounding.double 10.1,Rounding.double 16.1)] 5 1) 3000 := by decide +kernel

end Podly.Processing
