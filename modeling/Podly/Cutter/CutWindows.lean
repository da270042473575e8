import Mathlib.Data.List.Pairwise
import Podly.Cutter.AdMerge

/-! What the cut-window merge returns: its result in terms of the runs of sorted windows, the order
of the returned list, and when it keeps every long enough window. -/
namespace Podly.Cutter
open Intervals Sweep Floats

/-- Windows inside an audio of the given length. -/
def Within (audio : ℚ) (ws : List (ℚ × ℚ)) : Prop := ∀ w ∈ ws, 0 ≤ w.1 ∧ w.1 ≤ w.2 ∧ w.2 ≤ audio

instance (audio : ℚ) (ws : List (ℚ × ℚ)) : Decidable (Within audio ws) :=
  inferInstanceAs (Decidable (∀ w ∈ ws, _ ∧ _ ∧ _))

/-- Windows of numbers of the arithmetic. -/
def Held (R : Rounding) (ws : List (ℚ × ℚ)) : Prop := ∀ w ∈ ws, R.Holds w.1 ∧ R.Holds w.2

instance (R : Rounding) (ws : List (ℚ × ℚ)) : Decidable (Held R ws) :=
  inferInstanceAs (Decidable (∀ w ∈ ws, _ ∧ _))

variable {R : Rounding}

theorem held_sortByKey {ws : List (ℚ × ℚ)} (h : Held R ws) : Held R (sortByKey toLex ws) := by
  intro w hw
  exact h w ((mem_sortByKey _ _ w).mp hw)

/-- What starts by more than the separation after a window starts after its end. -/
theorem end_lt_of_spaced {x minSeparation y : ℚ} (hsep : 0 ≤ minSeparation) (hx : R.Holds x)
    (h : R (x + minSeparation) < y) : x < y :=
  (Rounding.le_round hx (by linarith)).trans_lt h

/-- What ends by more than the separation before a part of the audio does not end close to its end. -/
theorem far_of_spaced {audio minSeparation : ℚ} {w : ℚ × ℚ} (haudio : R.Holds audio)
    (hsep : R.Holds minSeparation) (h : R (w.2 + minSeparation) < audio) :
    ¬ NearEnd R audio minSeparation w := by
  intro hnear
  have hlt := Rounding.lt_of_round_lt hsep hnear
  exact absurd (Rounding.le_round haudio (by linarith)) (not_le_of_gt h)

theorem within_sortByKey {audio : ℚ} {ws : List (ℚ × ℚ)} (h : Within audio ws) :
    Within audio (sortByKey toLex ws) := by
  intro w hw
  exact h w ((mem_sortByKey _ _ w).mp hw)

theorem extend_concat (R : Rounding) (audio minSeparation : ℚ) (ws : List (ℚ × ℚ)) (w : ℚ × ℚ) :
    extendLastSegmentToEndIfNeeded R (ws ++ [w]) audio minSeparation =
      ws ++ [(w.1,if NearEnd R audio minSeparation w then audio else w.2)] := by
  simp only [extendLastSegmentToEndIfNeeded, List.getLast?_concat, List.dropLast_concat]
  split <;> rfl

theorem extend_of_far {audio minSeparation : ℚ} {ws : List (ℚ × ℚ)}
    (h : ∀ w ∈ ws, ¬ NearEnd R audio minSeparation w) :
    extendLastSegmentToEndIfNeeded R ws audio minSeparation = ws := by
  rcases List.eq_nil_or_concat' ws with rfl | ⟨ws,w,rfl⟩
  · rfl
  · rw [extend_concat,if_neg (h w (by simp))]

section Runs
variable {audio minLength minSeparation : ℚ} {sorted : List (ℚ × ℚ)}

theorem edgeRuns_startSorted (hs : LexSorted sorted) :
    (edgeRuns R audio minLength sorted).Pairwise (fun a b => a.span.1 ≤ b.span.1) := by
  apply Run.spans_startSorted
  rwa [edgeRuns,flatMap_joinLast Run.windows_join,flatMap_joinHead Run.windows_join,
    Run.flatMap_windows_single]

/-- The close merge leaves spans that lie more than the separation apart. -/
theorem adRuns_spaced (hs : LexSorted sorted) :
    (adRuns R audio minLength minSeparation sorted).Pairwise
      (fun a b => R (a.span.2 + minSeparation) < b.span.1) := by
  have h : (adRuns R audio minLength minSeparation sorted).Pairwise
      (fun a b => a.span.1 ≤ b.span.1 ∧ ¬ IsClose R minSeparation a.span b.span) := by
    apply joinAll_pairwise (fun r : Run ℚ => r.span.1) _ _ (edgeRuns_startSorted hs)
    · intro a b
      rw [Run.span_join]
      rfl
    · intro a b c hle hclose
      exact hle.trans hclose
  exact h.imp (fun h => lt_of_not_ge h.2)

theorem lexSorted_adRuns (hs : LexSorted sorted) :
    LexSorted ((adRuns R audio minLength minSeparation sorted).flatMap Run.windows) := by
  rwa [flatMap_windows_adRuns]

theorem mem_of_mem_adRuns {r : Run ℚ} (hr : r ∈ adRuns R audio minLength minSeparation sorted)
    {w : ℚ × ℚ} (hw : w ∈ r.windows) : w ∈ sorted := by
  rw [← flatMap_windows_adRuns audio minLength minSeparation sorted]
  exact List.mem_flatMap.mpr ⟨r,hr,hw⟩

theorem end_held (hheld : Held R sorted) {r : Run ℚ}
    (hr : r ∈ adRuns R audio minLength minSeparation sorted) : R.Holds r.span.2 :=
  (hheld r.last (mem_of_mem_adRuns hr r.last_mem)).2

theorem span_within (hs : LexSorted sorted) (hin : Within audio sorted) {r : Run ℚ}
    (hr : r ∈ adRuns R audio minLength minSeparation sorted) :
    0 ≤ r.span.1 ∧ r.span.1 ≤ r.span.2 ∧ r.span.2 ≤ audio := by
  obtain ⟨hf,-,-⟩ := hin r.first (mem_of_mem_adRuns hr r.first_mem)
  obtain ⟨-,hl,hla⟩ := hin r.last (mem_of_mem_adRuns hr r.last_mem)
  have hle := start_le_of_toLex_le (Run.first_le (lexSorted_adRuns hs) hr r.last_mem)
  exact ⟨hf,hle.trans hl,hla⟩

/-- The windows before the last run that survive the length filter. -/
def keptSpans (R : Rounding) (minLength : ℚ) (rs : List (Run ℚ)) : List (ℚ × ℚ) :=
  filterShortSegments R (rs.map Run.span) minLength

/-- What the last run contributes: its span when it is long enough, else its last window when that
lies close to the end; close to the end, both run to the end of the audio. -/
def lastCut (R : Rounding) (audio minLength minSeparation : ℚ) (r : Run ℚ) : List (ℚ × ℚ) :=
  if IsLong R minLength r.span then
    [(r.span.1,if NearEnd R audio minSeparation r.span then audio else r.span.2)]
  else if NearEnd R audio minSeparation r.span then [(r.last.1,audio)] else []

/-- The windows kept before the last run end before it, by more than the separation. -/
theorem keptSpans_before {r : Run ℚ} {init : List (Run ℚ)}
    (hspaced : (init ++ [r]).Pairwise (fun a b => R (a.span.2 + minSeparation) < b.span.1))
    {o : ℚ × ℚ} (ho : o ∈ keptSpans R minLength init) : R (o.2 + minSeparation) < r.span.1 := by
  obtain ⟨c,hc,rfl⟩ := List.mem_map.mp (List.mem_of_mem_filter ho)
  exact (List.pairwise_append.mp hspaced).2.2 c hc r (by simp)

theorem keptSpans_held (hheld : Held R sorted) {rs : List (Run ℚ)}
    (hrs : ∀ r ∈ rs, r ∈ adRuns R audio minLength minSeparation sorted) {o : ℚ × ℚ}
    (ho : o ∈ keptSpans R minLength rs) : R.Holds o.2 := by
  obtain ⟨c,hc,rfl⟩ := List.mem_map.mp (List.mem_of_mem_filter ho)
  exact end_held hheld (hrs c hc)

theorem getLast_sorted {r : Run ℚ} {init : List (Run ℚ)}
    (hruns : adRuns R audio minLength minSeparation sorted = init ++ [r]) :
    sorted.getLast? = some r.last := by
  have hflat := @flatMap_windows_adRuns R audio minLength minSeparation sorted
  rw [hruns,List.flatMap_append,List.flatMap_singleton] at hflat
  rw [← hflat,List.getLast?_append_of_ne_nil _ r.nonempty,List.getLast?_eq_some_getLast r.nonempty]
  rfl

/-- The passes after the close merge, in terms of the last run. -/
theorem passes_eq {r : Run ℚ} {init : List (Run ℚ)} (haudio : R.Holds audio)
    (hheld : Held R sorted) (hseparation : R.Holds minSeparation) (hsep : 0 ≤ minSeparation)
    (hs : LexSorted sorted) (hin : Within audio sorted)
    (hruns : adRuns R audio minLength minSeparation sorted = init ++ [r]) :
    extendLastSegmentToEndIfNeeded R
        (restoreLastSegmentIfNeeded
          (filterShortSegments R
            (mergeCloseSegments R (mergeShortEpisodeEdgeSegments R sorted audio minLength)
              minSeparation) minLength)
          (getLastSegmentIfNearEnd R sorted audio minSeparation)) audio minSeparation =
      keptSpans R minLength init ++ lastCut R audio minLength minSeparation r := by
  have hr : r ∈ adRuns R audio minLength minSeparation sorted := by simp [hruns]
  have hspaced := @adRuns_spaced R audio minLength minSeparation sorted hs
  rw [hruns] at hspaced
  obtain ⟨-,-,hend⟩ := span_within hs hin hr
  obtain ⟨-,hlast,-⟩ := hin r.last (mem_of_mem_adRuns hr r.last_mem)
  have hfirst := start_le_of_toLex_le (Run.first_le (lexSorted_adRuns hs) hr r.last_mem)
  have hstart : r.span.1 ≤ r.last.1 := hfirst
  have hinit : ∀ c ∈ init, c ∈ adRuns R audio minLength minSeparation sorted := by
    intro c hc
    rw [hruns]
    exact List.mem_append_left _ hc
  have hfar : ∀ o ∈ keptSpans R minLength init, ¬ NearEnd R audio minSeparation o := by
    intro o ho
    have hspan := (span_within hs hin hr).2.1
    exact far_of_spaced haudio hseparation
      ((keptSpans_before hspaced ho).trans_le (hspan.trans hend))
  have hfilter : filterShortSegments R ((init ++ [r]).map Run.span) minLength =
      keptSpans R minLength init ++ if IsLong R minLength r.span then [r.span] else [] := by
    simp only [filterShortSegments, keptSpans, List.map_append, List.map_cons, List.map_nil,
      List.filter_append, IsLong]
    by_cases hlong : R (r.span.2 - r.span.1) ≥ minLength <;> simp [hlong]
  rw [← map_span_adRuns,hruns,hfilter,getLastSegmentIfNearEnd,getLast_sorted hruns]
  by_cases hnear : NearEnd R audio minSeparation r.span
  · have hnear' : NearEnd R audio minSeparation r.last := hnear
    simp only [if_pos hnear', restoreLastSegmentIfNeeded, lastCut, if_pos hnear]
    by_cases hlong : IsLong R minLength r.span
    · have hcov : (keptSpans R minLength init ++ [r.span]).any
          (fun s => s.1 ≤ r.last.1 ∧ s.2 ≥ r.last.2) = true := by
        refine List.any_eq_true.mpr ⟨r.span,by simp,?_⟩
        exact decide_eq_true ⟨hstart,le_refl r.last.2⟩
      simp only [if_pos hlong, hcov, if_true]
      rw [extend_concat,if_pos hnear]
    · have hcov : (keptSpans R minLength init ++ []).any
          (fun s => s.1 ≤ r.last.1 ∧ s.2 ≥ r.last.2) = false := by
        rw [List.append_nil,List.any_eq_false]
        intro o ho
        have hbefore := end_lt_of_spaced hsep (keptSpans_held hheld hinit ho)
          (keptSpans_before hspaced ho)
        simp only [decide_eq_true_eq, not_and, not_le, ge_iff_le]
        intro _
        linarith
      simp only [List.append_nil] at hcov
      simp only [if_neg hlong, hcov, List.append_nil, Bool.false_eq_true, if_false]
      rw [extend_concat,if_pos (show NearEnd R audio minSeparation r.last from hnear)]
  · have hnear' : ¬ NearEnd R audio minSeparation r.last := hnear
    simp only [if_neg hnear', restoreLastSegmentIfNeeded, lastCut, if_neg hnear]
    by_cases hlong : IsLong R minLength r.span
    · simp only [if_pos hlong]
      rw [extend_concat,if_neg hnear]
    · simp only [if_neg hlong, List.append_nil]
      exact extend_of_far hfar

theorem lastCut_within {r : Run ℚ} (hs : LexSorted sorted) (hin : Within audio sorted)
    (hr : r ∈ adRuns R audio minLength minSeparation sorted) :
    ∀ o ∈ lastCut R audio minLength minSeparation r,
      r.span.1 ≤ o.1 ∧ o.1 ≤ o.2 ∧ r.span.2 ≤ o.2 ∧ o.2 ≤ audio := by
  obtain ⟨-,hle,hend⟩ := span_within hs hin hr
  obtain ⟨-,hlast,hlastEnd⟩ := hin r.last (mem_of_mem_adRuns hr r.last_mem)
  have hfirst := start_le_of_toLex_le (Run.first_le (lexSorted_adRuns hs) hr r.last_mem)
  intro o ho
  unfold lastCut at ho
  split at ho
  · rw [List.mem_singleton.mp ho]
    refine ⟨le_rfl,?_⟩
    dsimp only
    split
    · exact ⟨hle.trans hend,hend,le_rfl⟩
    · exact ⟨hle,le_rfl,hend⟩
  · split at ho
    · rw [List.mem_singleton.mp ho]
      exact ⟨hfirst,hlast.trans hlastEnd,hend,le_rfl⟩
    · simp at ho

end Runs

/-- The runs behind a call of `merge_ad_segments`, whose windows come in any order. -/
def mergeRuns (R : Rounding) (audio minLength minSeparation : ℚ) (adSegments : List (ℚ × ℚ)) : List (Run ℚ) :=
  adRuns R audio minLength minSeparation (sortByKey toLex adSegments)

/-- Numbers of the arithmetic: the length of the audio, the windows and the separation. -/
structure Computed (R : Rounding) (audio minSeparation : ℚ) (adSegments : List (ℚ × ℚ)) : Prop where
  audio : R.Holds audio
  windows : Held R adSegments
  separation : R.Holds minSeparation

section Result
variable {audio minLength minSeparation : ℚ} {adSegments : List (ℚ × ℚ)}
  (hR : Computed R audio minSeparation adSegments)

theorem mergedAdSegments_nil : mergedAdSegments R audio [] minLength minSeparation = [] := rfl

theorem mergeRuns_nil : mergeRuns R audio minLength minSeparation [] = [] := rfl

theorem mergeRuns_concat (h : adSegments ≠ []) :
    ∃ init r, mergeRuns R audio minLength minSeparation adSegments = init ++ [r] := by
  rcases List.eq_nil_or_concat' (mergeRuns R audio minLength minSeparation adSegments) with
    hnil | ⟨init,r,hruns⟩
  · have hflat := @flatMap_windows_adRuns R audio minLength minSeparation (sortByKey toLex adSegments)
    rw [← mergeRuns,hnil,List.flatMap_nil] at hflat
    have hperm := sortByKey_perm toLex adSegments
    rw [← hflat] at hperm
    exact absurd hperm.nil_eq.symm h
  · exact ⟨init,r,hruns⟩

include hR

/-- The result of the passes: the long enough spans of all runs but the last, and what the last run
contributes. -/
theorem mergedAdSegments_eq {init : List (Run ℚ)} {r : Run ℚ} (hsep : 0 ≤ minSeparation)
    (hin : Within audio adSegments)
    (hruns : mergeRuns R audio minLength minSeparation adSegments = init ++ [r]) :
    mergedAdSegments R audio adSegments minLength minSeparation =
      keptSpans R minLength init ++ lastCut R audio minLength minSeparation r :=
  passes_eq hR.audio (held_sortByKey hR.windows) hR.separation hsep (sortByKey_sorted toLex _) (within_sortByKey hin) hruns

theorem mergedAdSegments_within (hsep : 0 ≤ minSeparation) (hin : Within audio adSegments) :
    Within audio (mergedAdSegments R audio adSegments minLength minSeparation) := by
  by_cases hne : adSegments = []
  · rw [hne,mergedAdSegments_nil]
    simp [Within]
  obtain ⟨init,r,hruns⟩ := @mergeRuns_concat R audio minLength minSeparation adSegments hne
  have hsorted : LexSorted (sortByKey toLex adSegments) := sortByKey_sorted toLex _
  have hmem : ∀ c ∈ init ++ [r],
      c ∈ adRuns R audio minLength minSeparation (sortByKey toLex adSegments) := by
    intro c hc
    rw [← hruns] at hc
    exact hc
  rw [mergedAdSegments_eq hR hsep hin hruns]
  intro o ho
  rcases List.mem_append.mp ho with ho | ho
  · obtain ⟨c,hc,rfl⟩ := List.mem_map.mp (List.mem_of_mem_filter ho)
    exact span_within hsorted (within_sortByKey hin) (hmem c (by simp [hc]))
  · have hr := hmem r (by simp)
    obtain ⟨hstart,hle,-,hend⟩ := lastCut_within hsorted (within_sortByKey hin) hr o ho
    have hzero := (span_within hsorted (within_sortByKey hin) hr).1
    exact ⟨hzero.trans hstart,hle,hend⟩

theorem mergedAdSegments_disjoint (hsep : 0 ≤ minSeparation) (hin : Within audio adSegments) :
    (mergedAdSegments R audio adSegments minLength minSeparation).Pairwise
      (fun a b => a.2 ≤ b.1) := by
  by_cases hne : adSegments = []
  · rw [hne,mergedAdSegments_nil]
    exact List.Pairwise.nil
  obtain ⟨init,r,hruns⟩ := @mergeRuns_concat R audio minLength minSeparation adSegments hne
  have hsorted : LexSorted (sortByKey toLex adSegments) := sortByKey_sorted toLex _
  have hspaced := @adRuns_spaced R audio minLength minSeparation _ hsorted
  rw [← mergeRuns,hruns] at hspaced
  have hmem : ∀ c ∈ init ++ [r],
      c ∈ adRuns R audio minLength minSeparation (sortByKey toLex adSegments) := by
    intro c hc
    rwa [← mergeRuns,hruns]
  have hr := hmem r (by simp)
  have hheld := held_sortByKey hR.windows
  rw [mergedAdSegments_eq hR hsep hin hruns]
  refine List.pairwise_append.mpr ⟨?_,?_,?_⟩
  · apply List.Pairwise.filter
    apply List.pairwise_map.mpr
    refine (List.pairwise_append.mp hspaced).1.imp_of_mem (fun {a b} ha _ hab => ?_)
    exact (end_lt_of_spaced hsep (end_held hheld (hmem a (List.mem_append_left _ ha))) hab).le
  · unfold lastCut
    split
    · simp
    · split <;> simp
  · intro o ho o' ho'
    have hbefore := end_lt_of_spaced hsep
      (keptSpans_held hheld (fun c hc => hmem c (List.mem_append_left _ hc)) ho)
      (keptSpans_before hspaced ho)
    have hstart := (lastCut_within hsorted (within_sortByKey hin) hr o' ho').1
    linarith

end Result

theorem truncate_of_nonneg {x : ℚ} (h : 0 ≤ x) : truncate x = ⌊x⌋ := if_pos h

/-- What the cutters expect of a cut list. -/
structure WellFormedCut (durationMs : ℤ) (cut : List (ℤ × ℤ)) : Prop where
  sorted : cut.Pairwise (fun a b => a.1 ≤ b.1)
  disjoint : cut.Pairwise (fun a b => a.2 ≤ b.1)
  le : ∀ w ∈ cut, w.1 ≤ w.2
  within : ∀ w ∈ cut, 0 ≤ w.1 ∧ w.2 ≤ durationMs

/-- `int(s * 1000)` keeps the order. -/
theorem truncate_round_mono {x y : ℚ} (hx : 0 ≤ x) (h : x ≤ y) :
    0 ≤ truncate (R (x * 1000)) ∧ truncate (R (x * 1000)) ≤ truncate (R (y * 1000)) := by
  have hnonneg : 0 ≤ R (x * 1000) := Rounding.round_nonneg (by linarith)
  have hmono : R (x * 1000) ≤ R (y * 1000) := R.mono (by linarith)
  rw [truncate_of_nonneg hnonneg,truncate_of_nonneg (hnonneg.trans hmono)]
  exact ⟨Int.floor_nonneg.mpr hnonneg,Int.floor_le_floor hmono⟩

/-- Truncating ordered windows in seconds to milliseconds keeps them ordered. -/
theorem wellFormedCut_of_seconds {durationMs : ℤ} {audio : ℚ} {ws : List (ℚ × ℚ)}
    (haudio : truncate (R (audio * 1000)) ≤ durationMs) (hin : Within audio ws)
    (hd : ws.Pairwise (fun a b => a.2 ≤ b.1)) :
    WellFormedCut durationMs
      (ws.map (fun s => (truncate (R (s.1 * 1000)),truncate (R (s.2 * 1000))))) := by
  have hordered : ∀ w ∈ ws, 0 ≤ truncate (R (w.1 * 1000)) ∧
      truncate (R (w.1 * 1000)) ≤ truncate (R (w.2 * 1000)) ∧
      truncate (R (w.2 * 1000)) ≤ durationMs := by
    intro w hw
    obtain ⟨h0,hle,hend⟩ := hin w hw
    obtain ⟨hnonneg,hmono⟩ := @truncate_round_mono R _ _ h0 hle
    exact ⟨hnonneg,hmono,(truncate_round_mono (h0.trans hle) hend).2.trans haudio⟩
  have hdisjoint : (ws.map
      (fun s => (truncate (R (s.1 * 1000)),truncate (R (s.2 * 1000))))).Pairwise
      (fun a b => a.1 ≤ a.2 ∧ a.2 ≤ b.1) := by
    refine List.pairwise_map.mpr (hd.imp_of_mem ?_)
    intro a b ha hb hab
    exact ⟨(hordered a ha).2.1,
      (truncate_round_mono ((hin a ha).1.trans (hin a ha).2.1) hab).2⟩
  refine ⟨hdisjoint.imp (fun h => h.1.trans h.2),hdisjoint.imp (fun h => h.2),?_,?_⟩
  · intro w hw
    obtain ⟨s,hs,rfl⟩ := List.mem_map.mp hw
    exact (hordered s hs).2.1
  · intro w hw
    obtain ⟨s,hs,rfl⟩ := List.mem_map.mp hw
    exact ⟨(hordered s hs).1,(hordered s hs).2.2⟩

/-- The passes and the truncation, in an arithmetic that brings the length of the audio back. -/
theorem wellFormed_of_computed {durationMs : ℤ} {adSegments : List (ℚ × ℚ)}
    {minLength minSeparation : ℚ} (hR : Computed R (audioDuration R durationMs) minSeparation adSegments)
    (hsep : 0 ≤ minSeparation) (hin : Within (audioDuration R durationMs) adSegments)
    (haudio : adSegments ≠ [] → truncate (R (audioDuration R durationMs * 1000)) ≤ durationMs) :
    WellFormedCut durationMs (mergeAdSegments R durationMs adSegments minLength minSeparation) ∧
      WellFormedCut durationMs
        (mergeCutterAdSegments R durationMs adSegments minLength minSeparation) := by
  rw [mergeCutterAdSegments_eq,and_self,mergeAdSegments]
  split
  · exact ⟨by simp,by simp,by simp,by simp⟩
  · rename_i hne
    exact wellFormedCut_of_seconds (haudio (by simpa using hne)) (mergedAdSegments_within hR hsep hin)
      (mergedAdSegments_disjoint hR hsep hin)

theorem audioDuration_double {n : ℕ} (hn : n ≤ 2 ^ 53) :
    audioDuration .double n = rounded ((n : ℚ) / (1000 : ℕ)) := by
  have hwhole : Rounding.double ((n : ℤ) : ℚ) = n := by
    rw [Int.cast_natCast]
    exact (if_pos (by positivity)).trans (rounded_natCast hn)
  rw [audioDuration,hwhole]
  exact if_pos (by positivity)

/-- In double precision the length of the audio comes back, or a millisecond less. -/
theorem truncate_audioDuration {durationMs : ℤ} (hlt : durationMs < 2 ^ 50)
    (hnonneg : 0 ≤ audioDuration .double durationMs) :
    truncate (Rounding.double (audioDuration .double durationMs * 1000)) ≤ durationMs := by
  rcases le_or_gt 0 durationMs with hpos | hneg
  · obtain ⟨n,rfl⟩ := Int.eq_ofNat_of_zero_le hpos
    have hn : n < 2 ^ 50 := by exact_mod_cast hlt
    have hseconds := audioDuration_double (n := n) (by omega)
    have hscaled : Rounding.double (audioDuration .double n * 1000) =
        rounded (rounded ((n : ℚ) / (1000 : ℕ)) * (1000 : ℕ)) := by
      rw [hseconds] at hnonneg ⊢
      exact if_pos (by positivity)
    have hfloor := @floor_scaled 1000 n (by norm_num) (by norm_num) hn
    rw [hscaled,truncate_of_nonneg (rounded_nonneg (by rw [hseconds] at hnonneg; positivity))]
    omega
  · -- A negative length would be a negative number of seconds.
    have hone : (durationMs : ℚ) ≤ -1 := by exact_mod_cast (by omega : durationMs ≤ -1)
    have hminus : Rounding.double (-1) = -1 := by decide +kernel
    have hsmall : Rounding.double (-1 / 1000) < 0 := by decide +kernel
    have hround : Rounding.double durationMs ≤ -1 := Rounding.round_le hminus hone
    have hmono : audioDuration .double durationMs ≤ Rounding.double (-1 / 1000) :=
      Rounding.double.mono (by linarith)
    linarith

/-- `merge_ad_segments`, and its mirror, return a well-formed cut list, in exact arithmetic and in
double precision. -/
theorem mergeAdSegments_wellFormed {durationMs : ℤ} {adSegments : List (ℚ × ℚ)}
    {minLength minSeparation : ℚ} (hsep : 0 ≤ minSeparation) :
    (Within (durationMs / 1000) adSegments →
      WellFormedCut durationMs (mergeAdSegments .exact durationMs adSegments minLength minSeparation) ∧
      WellFormedCut durationMs
        (mergeCutterAdSegments .exact durationMs adSegments minLength minSeparation)) ∧
    (durationMs < 2 ^ 50 → Held .double adSegments → Rounding.double.Holds minSeparation →
      Within (audioDuration .double durationMs) adSegments →
      WellFormedCut durationMs (mergeAdSegments .double durationMs adSegments minLength minSeparation) ∧
      WellFormedCut durationMs
        (mergeCutterAdSegments .double durationMs adSegments minLength minSeparation)) := by
  constructor
  · intro hin
    refine wellFormed_of_computed ⟨rfl,fun _ _ => ⟨rfl,rfl⟩,rfl⟩ hsep hin (fun _ => ?_)
    change truncate ((durationMs : ℚ) / 1000 * 1000) ≤ durationMs
    rw [div_mul_cancel₀ _ (by norm_num),truncate]
    split <;> simp
  · intro hlt hheld hseparation hin
    refine wellFormed_of_computed ⟨Rounding.holds_round _,hheld,hseparation⟩ hsep hin (fun hne => ?_)
    obtain ⟨w,hw⟩ := List.exists_mem_of_ne_nil _ hne
    obtain ⟨h0,hle,hend⟩ := hin w hw
    exact truncate_audioDuration hlt (h0.trans (hle.trans hend))

theorem mergeAdSegments_wellFormed_overlapping :
    WellFormedCut 200000 (mergeAdSegments .exact 200000 [(150,160),(0,100),(10,20)] 5 0) ∧
    WellFormedCut 200000 (mergeCutterAdSegments .double 200000 [(150,160),(0,100),(10,20)] 5 0) := by
  have hin : Within ((200000 : ℤ) / 1000) [(150,160),(0,100),(10,20)] := by
    intro w hw
    simp only [List.mem_cons, List.not_mem_nil, or_false] at hw
    rcases hw with rfl | rfl | rfl <;> norm_num
  have haudio : audioDuration .double 200000 = (200000 : ℤ) / 1000 := by decide +kernel
  exact ⟨((mergeAdSegments_wellFormed le_rfl).1 hin).1,
    ((mergeAdSegments_wellFormed le_rfl).2 (by norm_num) (by decide +kernel) (by decide +kernel)
      (haudio ▸ hin)).2⟩

/-- Every long enough window lies inside one of the windows cut, before truncation. -/
def KeepsLongWindows (R : Rounding) (audio minLength minSeparation : ℚ) (adSegments : List (ℚ × ℚ)) :
    Prop :=
  ∀ w ∈ adSegments, minLength ≤ w.2 - w.1 →
    ∃ o ∈ mergedAdSegments R audio adSegments minLength minSeparation, o.1 ≤ w.1 ∧ w.2 ≤ o.2

/-- Every long enough window ends by the end of the last window of its run, or the run is the last
one, is itself long enough and gets extended to the end of the audio. -/
def RunsReachLongWindows (R : Rounding) (audio minLength minSeparation : ℚ)
    (adSegments : List (ℚ × ℚ)) : Prop :=
  ∀ r ∈ mergeRuns R audio minLength minSeparation adSegments, ∀ w ∈ r.windows,
    minLength ≤ w.2 - w.1 → w.2 ≤ r.last.2 ∨
      ((mergeRuns R audio minLength minSeparation adSegments).getLast? = some r ∧
        IsLong R minLength r.span ∧ NearEnd R audio minSeparation r.last)

instance (audio minLength minSeparation : ℚ) (adSegments : List (ℚ × ℚ)) :
    Decidable (RunsReachLongWindows R audio minLength minSeparation adSegments) :=
  inferInstanceAs (Decidable (∀ r ∈ _, ∀ w ∈ _, _ → _ ∨ (_ ∧ _ ∧ _)))

section Lost
variable {audio minLength minSeparation : ℚ} {sorted : List (ℚ × ℚ)}

/-- A window of one run does not fit into the span of another. -/
theorem not_fits_other_run (hheld : Held R sorted) (hsep : 0 ≤ minSeparation) (hs : LexSorted sorted)
    (hin : Within audio sorted) {a b : Run ℚ}
    (ha : a ∈ adRuns R audio minLength minSeparation sorted)
    (hb : b ∈ adRuns R audio minLength minSeparation sorted)
    (hab : R (a.span.2 + minSeparation) < b.span.1) {w : ℚ × ℚ} :
    (w ∈ a.windows → ¬ b.span.1 ≤ w.1) ∧ (w ∈ b.windows → ¬ w.2 ≤ a.span.2) := by
  have hlex := @lexSorted_adRuns R audio minLength minSeparation sorted hs
  have hbefore := end_lt_of_spaced hsep (end_held hheld ha) hab
  constructor
  · intro hw hstart
    have hle := start_le_of_toLex_le (Run.le_last hlex ha hw)
    obtain ⟨-,hlast,-⟩ := hin a.last (mem_of_mem_adRuns ha a.last_mem)
    have hspan : a.span.2 = a.last.2 := rfl
    linarith
  · intro hw hend
    have hle := start_le_of_toLex_le (Run.first_le hlex hb hw)
    obtain ⟨-,hww,-⟩ := hin w (mem_of_mem_adRuns hb hw)
    have hspan : b.span.1 = b.first.1 := rfl
    linarith

/-- A run that reaches the end of one of its windows spans it, and is long enough when it is. -/
theorem span_covers (hlength : R.Holds minLength) (hs : LexSorted sorted) {r : Run ℚ}
    (hr : r ∈ adRuns R audio minLength minSeparation sorted) {w : ℚ × ℚ} (hw : w ∈ r.windows)
    (hend : w.2 ≤ r.last.2) :
    r.span.1 ≤ w.1 ∧ (minLength ≤ w.2 - w.1 → IsLong R minLength r.span) := by
  have hle := start_le_of_toLex_le (Run.first_le (lexSorted_adRuns hs) hr hw)
  refine ⟨hle,?_⟩
  intro hlong
  have h1 : r.span.1 = r.first.1 := rfl
  have h2 : r.span.2 = r.last.2 := rfl
  exact Rounding.le_round hlength (by linarith)

/-- A window of the last run fits into what the last run contributes only if it ends by the last
window of the run or the run is long enough and extended. -/
theorem fits_lastCut_iff (hlength : R.Holds minLength) (hs : LexSorted sorted)
    (hin : Within audio sorted) {r : Run ℚ} (hr : r ∈ adRuns R audio minLength minSeparation sorted) {w : ℚ × ℚ} (hw : w ∈ r.windows)
    (hlong : minLength ≤ w.2 - w.1) :
    (∃ o ∈ lastCut R audio minLength minSeparation r, o.1 ≤ w.1 ∧ w.2 ≤ o.2) ↔
      w.2 ≤ r.last.2 ∨ (IsLong R minLength r.span ∧ NearEnd R audio minSeparation r.last) := by
  obtain ⟨-,-,hwa⟩ := hin w (mem_of_mem_adRuns hr hw)
  have hfirst := start_le_of_toLex_le (Run.first_le (lexSorted_adRuns hs) hr hw)
  have hlast := Run.le_last (lexSorted_adRuns hs) hr hw
  unfold lastCut
  by_cases hspan : IsLong R minLength r.span
  · rw [if_pos hspan]
    simp only [List.mem_singleton, exists_eq_left, hspan, true_and]
    by_cases hnear : NearEnd R audio minSeparation r.span
    · rw [if_pos hnear]
      exact ⟨fun _ => .inr hnear,fun _ => ⟨hfirst,hwa⟩⟩
    · rw [if_neg hnear]
      constructor
      · exact fun h => .inl h.2
      · exact fun h => ⟨hfirst,h.resolve_right hnear⟩
  · rw [if_neg hspan]
    simp only [hspan, false_and, or_false]
    constructor
    · split
      · simp only [List.mem_singleton, exists_eq_left]
        intro h
        exact end_le_of_toLex_le hlast h.1
      · simp
    · intro hend
      exact absurd ((span_covers hlength hs hr hw hend).2 hlong) hspan

end Lost

/-- Two different runs lie apart, one way or the other. -/
theorem adRuns_apart {audio minLength minSeparation : ℚ} {sorted : List (ℚ × ℚ)}
    (hs : LexSorted sorted) {a b : Run ℚ}
    (ha : a ∈ adRuns R audio minLength minSeparation sorted)
    (hb : b ∈ adRuns R audio minLength minSeparation sorted) (hab : a ≠ b) :
    R (a.span.2 + minSeparation) < b.span.1 ∨ R (b.span.2 + minSeparation) < a.span.1 := by
  let P : Run ℚ → Run ℚ → Prop := fun a b =>
    R (a.span.2 + minSeparation) < b.span.1 ∨ R (b.span.2 + minSeparation) < a.span.1
  have hsymm : Std.Symm P := ⟨fun _ _ h => h.symm⟩
  have hpair : (adRuns R audio minLength minSeparation sorted).Pairwise P :=
    (adRuns_spaced hs).imp Or.inl
  exact hpair.forall ha hb hab

section Keeps
variable {audio minLength minSeparation : ℚ} {adSegments : List (ℚ × ℚ)}

theorem keepsLongWindows_iff_of_computed (hR : Computed R audio minSeparation adSegments)
    (hlength : R.Holds minLength) (hsep : 0 ≤ minSeparation) (hin : Within audio adSegments) :
    KeepsLongWindows R audio minLength minSeparation adSegments ↔
      RunsReachLongWindows R audio minLength minSeparation adSegments := by
  by_cases hne : adSegments = []
  · rw [hne,KeepsLongWindows,RunsReachLongWindows,mergeRuns_nil]
    simp
  obtain ⟨init,r,hruns⟩ := @mergeRuns_concat R audio minLength minSeparation adSegments hne
  have hs : LexSorted (sortByKey toLex adSegments) := sortByKey_sorted toLex _
  have hin' := within_sortByKey hin
  have hheld := held_sortByKey hR.windows
  have hmem : ∀ c, c ∈ init ∨ c = r →
      c ∈ adRuns R audio minLength minSeparation (sortByKey toLex adSegments) := by
    intro c hc
    rw [← mergeRuns,hruns]
    simpa using hc
  have hr := hmem r (.inr rfl)
  have hbefore : ∀ c ∈ init, R (c.span.2 + minSeparation) < r.span.1 := by
    intro c hc
    have hspaced := @adRuns_spaced R audio minLength minSeparation _ hs
    rw [← mergeRuns,hruns] at hspaced
    exact (List.pairwise_append.mp hspaced).2.2 c hc r (by simp)
  rw [KeepsLongWindows,RunsReachLongWindows,mergedAdSegments_eq hR hsep hin hruns,hruns,
    List.getLast?_concat]
  constructor
  · intro hkeep c hc w hw hlong
    rw [List.mem_append,List.mem_singleton] at hc
    have hc' := hmem c hc
    obtain ⟨o,ho,hstart,hend⟩ :=
      hkeep w ((mem_sortByKey _ _ w).mp (mem_of_mem_adRuns hc' hw)) hlong
    rcases hc with hc | rfl
    · left
      rcases List.mem_append.mp ho with ho | ho
      · obtain ⟨d,hd,rfl⟩ := List.mem_map.mp (List.mem_of_mem_filter ho)
        by_cases hcd : c = d
        · rw [hcd]
          exact hend
        · rcases adRuns_apart hs hc' (hmem d (.inl hd)) hcd with hlt | hlt
          · exact absurd hstart
              ((not_fits_other_run hheld hsep hs hin' hc' (hmem d (.inl hd)) hlt).1 hw)
          · exact absurd hend
              ((not_fits_other_run hheld hsep hs hin' (hmem d (.inl hd)) hc' hlt).2 hw)
      · have hle := (lastCut_within hs hin' hr o ho).1
        exact absurd (hle.trans hstart)
          ((not_fits_other_run hheld hsep hs hin' hc' hr (hbefore c hc)).1 hw)
    · rcases List.mem_append.mp ho with ho | ho
      · obtain ⟨d,hd,rfl⟩ := List.mem_map.mp (List.mem_of_mem_filter ho)
        exact absurd hend
          ((not_fits_other_run hheld hsep hs hin' (hmem d (.inl hd)) hr (hbefore d hd)).2 hw)
      · have hfit := (fits_lastCut_iff hlength hs hin' hr hw hlong).mp ⟨o,ho,hstart,hend⟩
        exact hfit.imp_right (fun h => ⟨rfl,h⟩)
  · intro hreach w hw hlong
    have hw' : w ∈ (mergeRuns R audio minLength minSeparation adSegments).flatMap Run.windows := by
      rw [mergeRuns,flatMap_windows_adRuns]
      exact (mem_sortByKey _ _ w).mpr hw
    obtain ⟨c,hc,hwc⟩ := List.mem_flatMap.mp hw'
    rw [hruns] at hc
    have hor := hreach c hc w hwc hlong
    rcases List.mem_append.mp hc with hc | hc
    · rcases hor with hend | ⟨hlast,-⟩
      · obtain ⟨hstart,hspan⟩ := span_covers hlength hs (hmem c (.inl hc)) hwc hend
        refine ⟨c.span,List.mem_append_left _ (List.mem_filter.mpr ⟨?_,?_⟩),hstart,hend⟩
        · exact List.mem_map.mpr ⟨c,hc,rfl⟩
        · exact decide_eq_true (hspan hlong)
      · have hlt := hbefore c hc
        rw [Option.some.inj hlast] at hlt
        have hle := (span_within hs hin' (hmem c (.inl hc))).2.1
        have hbefore := end_lt_of_spaced hsep (end_held hheld (hmem c (.inl hc))) hlt
        linarith
    · rw [List.mem_singleton.mp hc] at hwc hor
      obtain ⟨o,ho,hfit⟩ :=
        (fits_lastCut_iff hlength hs hin' hr hwc hlong).mpr (hor.imp_right (fun h => h.2))
      exact ⟨o,List.mem_append_right _ ho,hfit⟩

end Keeps

/-- The cut-window merge keeps every long enough window exactly when every run reaches the long
windows in it, in exact arithmetic as in double precision. -/
theorem keepsLongWindows_iff {durationMs : ℤ} {minLength minSeparation : ℚ}
    {adSegments : List (ℚ × ℚ)} (hheld : Held R adSegments) (hlength : R.Holds minLength)
    (hseparation : R.Holds minSeparation) (hsep : 0 ≤ minSeparation)
    (hin : Within (audioDuration R durationMs) adSegments) :
    KeepsLongWindows R (audioDuration R durationMs) minLength minSeparation adSegments ↔
      RunsReachLongWindows R (audioDuration R durationMs) minLength minSeparation adSegments :=
  keepsLongWindows_iff_of_computed ⟨Rounding.holds_round _,hheld,hseparation⟩ hlength hsep hin

/-- An ad that overlaps with the next one, and one apart from both. -/
theorem keepsLongWindows_overlapping : KeepsLongWindows .double (audioDuration .double 200000) 5 1
    [(150,160),(50,100),(0,60)] :=
  (keepsLongWindows_iff (by decide +kernel) (by decide +kernel) (by decide +kernel) (by norm_num)
    (by decide +kernel)).mpr (by decide +kernel)

/-- A window nested in an earlier one takes over its end: eighty seconds of the ad are not cut. -/
theorem keepsLongWindows_nested :
    mergeAdSegments .double 200000 [(0,100),(10,20)] 5 0 = [(0,20000)] ∧
      ¬ KeepsLongWindows .double (audioDuration .double 200000) 5 0 [(0,100),(10,20)] := by
  refine ⟨by decide +kernel,?_⟩
  intro h
  obtain ⟨o,ho,-,hend⟩ := h (0,100) (by simp) (by norm_num)
  have hmerged : mergedAdSegments .double (audioDuration .double 200000) [(0,100),(10,20)] 5 0 =
      [(0,20)] := by decide +kernel
  rw [hmerged,List.mem_singleton] at ho
  rw [ho] at hend
  norm_num at hend

-- How the difference to the end of the audio is rounded decides whether the rest is cut.
example : mergeAdSegments .double 72050 [(0,72),(10,Rounding.double 12.05)] 5 60 = [(0,12050)] ∧
    mergeAdSegments .double 72100 [(0,72),(10,Rounding.double 12.1)] 5 60 = [(0,72100)] := by
  decide +kernel

end Podly.Cutter
