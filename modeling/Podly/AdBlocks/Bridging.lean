import Mathlib.Tactic.Linarith
import Podly.AdBlocks.AudioWindows
import Podly.Intervals.Measure
import Podly.Intervals.Runs

/-! Which ads audio joins, and how much of the gap between two of them it leaves uncovered. -/
namespace Podly.AdBlocks
open Intervals Sweep

/-- One window of audio begins near the start of the gap from one ad to the next and lasts until
near its end. A gap as short as the tolerance only has to be reached by it. -/
def AudioJoins (mergedAudio : List (ℚ × ℚ)) (gapStart gapEnd : ℚ) : Prop :=
  gapEnd ≤ gapStart ∨ ∃ w ∈ mergedAudio, w.1 ≤ gapStart + 3/4 ∧ gapStart - 3/4 ≤ w.2 ∧
    (gapEnd - 3/4 ≤ gapStart ∨ gapEnd - 3/4 ≤ w.2)

/-- The same where the audio lasts until near the end of every gap. -/
def AudioSpans (mergedAudio : List (ℚ × ℚ)) (gapStart gapEnd : ℚ) : Prop :=
  gapEnd ≤ gapStart ∨ ∃ w ∈ mergedAudio, w.1 ≤ gapStart + 3/4 ∧ gapStart - 3/4 ≤ w.2 ∧
    gapEnd - 3/4 ≤ w.2

/-- Ads are joined over audio only: the windows are in order and disjoint and hold every ad, each
spans a run of merged ads, neighbours are in one run exactly when audio joins them, and no more
than twice the tolerance of a gap in a run is without audio. -/
structure BridgesAudio (joins : List (ℚ × ℚ) → ℚ → ℚ → Prop)
    (adWindows audioWindows bridged : List (ℚ × ℚ)) : Prop where
  separated : Separated bridged
  holdsAds : ∀ t, Covers adWindows t → Covers bridged t
  joined : ∃ runs : List (Run ℚ), runs.flatMap Run.windows = mergeTimeWindows 0 adWindows ∧
    runs.map Run.span = bridged ∧
    (∀ r ∈ runs, r.windows.IsChain
      (fun a b => joins (mergeTimeWindows (3/4) audioWindows) a.2 b.1)) ∧
    runs.IsChain
      (fun r s => ¬joins (mergeTimeWindows (3/4) audioWindows) r.last.2 s.first.1)
  uncovered : ∀ a b, [a,b] <:+: mergeTimeWindows 0 adWindows →
    joins (mergeTimeWindows (3/4) audioWindows) a.2 b.1 →
    ((b.1 - a.2 : ℚ) : ℝ) - coveredLength (mergeTimeWindows (3/4) audioWindows) a.2 b.1 ≤ 2 * (3/4)

section
variable {gapStart gapEnd tolerance coverage : ℚ} {ws adWindows audioWindows : List (ℚ × ℚ)}

/-- The loop finds one window that reaches from the coverage to the end of the gap, since no two
windows are within the tolerance. -/
theorem coversUpTo_iff (hspaced : ws.Pairwise (fun a b => a.1 < b.1 ∧ a.2 + tolerance < b.1)) :
    coversUpTo gapEnd tolerance coverage ws = true ↔ ∃ w ∈ ws, w.1 ≤ coverage + tolerance ∧
      coverage - tolerance ≤ w.2 ∧ gapEnd - tolerance ≤ max coverage w.2 := by
  induction ws generalizing coverage with
  | nil => simp [coversUpTo]
  | cons w ws ih =>
    obtain ⟨hnext,hrest⟩ := List.pairwise_cons.mp hspaced
    rw [coversUpTo,List.exists_mem_cons_iff]
    split
    · rename_i hbefore
      rw [ih hrest]
      constructor
      · exact Or.inr
      · rintro (⟨-,hreach,-⟩ | h)
        · exact absurd hreach (not_le.mpr hbefore)
        · exact h
    · rename_i hreach
      rw [not_lt] at hreach
      split
      · rename_i hafter
        -- The first window that begins too late is followed by later ones only.
        constructor
        · exact fun h => absurd h Bool.false_ne_true
        · rintro (⟨hstart,-⟩ | ⟨v,hv,hstart,hend,-⟩)
          · exact absurd hstart (not_le.mpr hafter)
          · exact absurd (hafter.trans (hnext v hv).1) (not_lt.mpr hstart)
      · rename_i hstart
        rw [not_lt] at hstart
        split
        · rename_i hdone
          exact ⟨fun _ => Or.inl ⟨hstart,hreach,hdone⟩,fun _ => rfl⟩
        · rename_i hshort
          rw [ih hrest]
          rcases le_total w.2 coverage with hle | hle
          · rw [max_eq_left hle] at hshort ⊢
            constructor
            · exact Or.inr
            · rintro (⟨-,-,hend⟩ | h)
              · exact absurd hend hshort
              · exact h
          · rw [max_eq_right hle] at hshort ⊢
            constructor
            · rintro ⟨v,hv,hfirst,-⟩
              exact absurd hfirst (not_le.mpr (hnext v hv).2)
            · rintro (⟨-,-,hend⟩ | ⟨v,hv,hfirst,-⟩)
              · exact absurd hend hshort
              · have hlater := (hnext v hv).2
                linarith

theorem mergeTimeWindows_spaced {gapSeconds : ℚ} (h : 0 ≤ gapSeconds) :
    (mergeTimeWindows gapSeconds ws).Pairwise
      (fun a b => a.1 < b.1 ∧ a.2 + gapSeconds < b.1) := by
  refine (mergeTimeWindows_starts h ws).and ?_
  exact @coalesce_spaced ℚ _ (fun e => e + gapSeconds) _ (sortByKey_sorted Prod.fst _)

theorem mergeTimeWindows_separated : Separated (mergeTimeWindows 0 ws) := by
  refine coalesce_separated (fun a => (add_zero a).ge) (sortByKey_sorted Prod.fst _) ?_
  intro w hw
  simpa using (List.mem_filter.mp ((mem_sortByKey _ _ w).mp hw)).2

/-- Ads that only touch are merged without gaining or losing a point. -/
theorem covers_mergeTimeWindows (t : ℚ) : Covers (mergeTimeWindows 0 ws) t ↔ Covers ws t := by
  have hreach : (fun e : ℚ => e + 0) = id := funext add_zero
  rw [mergeTimeWindows,hreach]
  exact covers_normalize ws t

theorem gapIsCoveredByAudio_iff :
    gapIsCoveredByAudio gapStart gapEnd (mergeTimeWindows (3/4) ws) (3/4) = true ↔
      AudioJoins (mergeTimeWindows (3/4) ws) gapStart gapEnd := by
  unfold gapIsCoveredByAudio AudioJoins
  split
  · rename_i hempty
    exact ⟨fun _ => Or.inl hempty,fun _ => rfl⟩
  · rename_i hgap
    rw [coversUpTo_iff (mergeTimeWindows_spaced (by norm_num))]
    simp only [le_max_iff,hgap,false_or]

/-- The gap is without audio near its ends only. -/
theorem uncovered_le (hjoins : AudioJoins ws gapStart gapEnd) :
    ((gapEnd - gapStart : ℚ) : ℝ) - coveredLength ws gapStart gapEnd ≤ 2 * (3/4) := by
  by_cases hlong : gapStart + 3/4 ≤ gapEnd - 3/4
  · have hwindow : ∃ w ∈ ws, w.1 ≤ gapStart + 3/4 ∧ gapEnd - 3/4 ≤ w.2 := by
      rcases hjoins with hempty | ⟨w,hw,hstart,-,hshort | hend⟩
      · linarith
      · linarith
      · exact ⟨w,hw,hstart,hend⟩
    obtain ⟨w,hw,hstart,hend⟩ := hwindow
    -- All of the gap but the tolerance at each end is in one window.
    have hmiddle : ((gapEnd - 3/4 - (gapStart + 3/4) : ℚ) : ℝ) ≤
        coveredLength ws gapStart gapEnd :=
      sub_le_coveredLength hw hstart hend (by linarith) (by linarith) hlong
    push_cast at hmiddle ⊢
    linarith
  · have hnonneg : 0 ≤ coveredLength ws gapStart gapEnd := coveredLength_nonneg
    have hshort : ((gapEnd - gapStart : ℚ) : ℝ) ≤ (2 * (3/4) : ℚ) := by
      exact_mod_cast (by linarith [not_le.mp hlong])
    push_cast at hshort ⊢
    linarith

/-- The test of the gap between two neighbours. -/
def audioNear (mergedAudio : List (ℚ × ℚ)) (gapStart gapEnd : ℚ) : Prop :=
  gapIsCoveredByAudio gapStart gapEnd mergedAudio (3/4) = true

instance (mergedAudio : List (ℚ × ℚ)) : DecidableRel (audioNear mergedAudio) :=
  fun _ _ => inferInstanceAs (Decidable (_ = true))

/-- Without audio, or with one ad, nothing is joined. -/
theorem bridgeMerged_eq {mergedAds : List (ℚ × ℚ)} (mergedAudio : List (ℚ × ℚ))
    (hads : Separated mergedAds) : bridgeMerged mergedAds mergedAudio =
      joinAll (fun a b => audioNear mergedAudio a.2 b.1) Run.spanTo mergedAds := by
  unfold bridgeMerged
  split
  · rename_i hnone
    refine (joinAll_eq_self _ _ ?_).symm
    rcases hnone with hshort | rfl
    · cases mergedAds with
      | nil => exact List.Pairwise.nil
      | cons a rest =>
        obtain rfl : rest = [] := List.length_eq_zero_iff.mp (by simpa using hshort)
        exact List.pairwise_singleton _ a
    · refine hads.ordered.imp ?_
      intro a b hgap hnear
      rw [audioNear,gapIsCoveredByAudio,if_neg (not_le.mpr hgap)] at hnear
      exact absurd hnear Bool.false_ne_true
  · exact foldl_joinPush _ _ _

/-- Bridging joins ads over audio, and over gaps as short as the tolerance that audio reaches. -/
theorem bridgeAdWindowsWithAudio_bridges (adWindows audioWindows : List (ℚ × ℚ)) :
    BridgesAudio AudioJoins adWindows audioWindows
      (bridgeAdWindowsWithAudio adWindows audioWindows) := by
  have hads : Separated (mergeTimeWindows 0 adWindows) := mergeTimeWindows_separated
  rw [bridgeAdWindowsWithAudio,bridgeMerged_eq _ hads]
  constructor
  · exact separated_joinAll hads
  · intro t ht
    exact covers_joinAll hads ((covers_mergeTimeWindows t).mpr ht)
  · refine ⟨joinRuns (audioNear (mergeTimeWindows (3/4) audioWindows))
      (mergeTimeWindows 0 adWindows),flatMap_windows_joinRuns _,map_span_joinRuns _,?_,?_⟩
    · intro r hr
      exact (isChain_of_mem_joinRuns hr).imp (fun a b => gapIsCoveredByAudio_iff.mp)
    · have hfar : (joinRuns (audioNear (mergeTimeWindows (3/4) audioWindows))
          (mergeTimeWindows 0 adWindows)).IsChain
          (fun r s => ¬audioNear (mergeTimeWindows (3/4) audioWindows) r.last.2 s.first.1) :=
        isChain_joinRuns _
      exact hfar.imp (fun a b => mt gapIsCoveredByAudio_iff.mpr)
  · intro a b hab hjoins
    exact uncovered_le hjoins

/-- Half a second between two ads is joined though the audio ends before it. -/
theorem not_bridgesAudio_audioSpans : ¬BridgesAudio AudioSpans [(0,10),(21/2,20)] [(8,19/2)]
    (bridgeAdWindowsWithAudio [(0,10),(21/2,20)] [(8,19/2)]) := by
  have hads : mergeTimeWindows 0 [(0,10),(21/2,20)] = [(0,10),(21/2,20)] := by
    norm_num [mergeTimeWindows,sortByKey,coalesce,joinAll,joinFrom]
  have haudio : mergeTimeWindows (3/4) [(8,19/2)] = [(8,19/2)] := by
    norm_num [mergeTimeWindows,sortByKey,coalesce,joinAll,joinFrom]
  have hbridged : bridgeAdWindowsWithAudio [(0,10),(21/2,20)] [(8,19/2)] = [(0,20)] := by
    rw [bridgeAdWindowsWithAudio,hads,haudio]
    norm_num [bridgeMerged,joinPush,gapIsCoveredByAudio,coversUpTo]
  rintro ⟨-,-,⟨runs,hads',hspans,hjoined,-⟩,-⟩
  rw [hads] at hads'
  rw [hbridged] at hspans
  rw [haudio] at hjoined
  obtain ⟨r,rfl⟩ : ∃ r, runs = [r] := by
    rw [← List.length_eq_one_iff,← List.length_map Run.span,hspans]
    rfl
  rw [List.flatMap_singleton] at hads'
  have hnear := hjoined r (List.mem_singleton_self r)
  rw [hads',List.isChain_pair] at hnear
  norm_num [AudioSpans] at hnear

end

end Podly.AdBlocks
