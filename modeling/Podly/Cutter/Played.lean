import Podly.Cutter.Fade
import Podly.Cutter.Keep
import Podly.Intervals.Slices

/-! What a cut file plays of its source, cell by cell, for each way of cutting, and when it is what
lies outside the windows that are recorded as removed. -/
namespace Podly.Cutter
open Intervals

/-- One turn of the loop of `_clip_segments_complex`: the stretch before the window, its faded head
and its faded tail. -/
def complexStep (fadeMs : ℤ) (state : List (ℤ × ℤ) × ℤ) (window : ℤ × ℤ) : List (ℤ × ℤ) × ℤ :=
  (state.1 ++ [(state.2,window.1),(window.1,window.1 + fadeMs),(window.2 - fadeMs,window.2)],window.2)

/-- After the loop the rest of the audio, which is left out only when the last window ends with it. -/
def complexTail (audioDurationMs : ℤ) (state : List (ℤ × ℤ) × ℤ) : List (ℤ × ℤ) :=
  if state.2 = audioDurationMs then state.1 else state.1 ++ [(state.2,audioDurationMs)]

/-- The stretches that `_clip_segments_complex` trims and concatenates. -/
def clipSegmentsComplex (adSegmentsMs : List (ℤ × ℤ)) (fadeMs audioDurationMs : ℤ) :
    List (ℤ × ℤ) := complexTail audioDurationMs (adSegmentsMs.foldl (complexStep fadeMs) ([],0))

/-- The part of `clip_segments_with_fade` that makes the file: the sidecar, else the filter with
fades, else the plain concatenation that stands in for a filter that failed. -/
inductive FadeCutter
  | sidecar
  | complex
  | simple
deriving DecidableEq

/-- The stretches of the source that the file is made of. -/
def FadeCutter.pieces (cutter : FadeCutter) (windows : List (ℕ × ℕ)) (durationMs fadeMs : ℕ) :
    List (ℤ × ℤ) :=
  match cutter with
  | .sidecar => toInt (concatenated (readWindowsMs windows) durationMs fadeMs)
  | .complex => clipSegmentsComplex (toInt windows) fadeMs durationMs
  | .simple => toInt (clipKeepSegments windows durationMs)

/-- What the file plays: the source ends after its duration. -/
def FadeCutter.plays (cutter : FadeCutter) (windows : List (ℕ × ℕ)) (durationMs fadeMs : ℕ) :
    List ℤ := audible durationMs (cutter.pieces windows durationMs fadeMs)

/-- The cutter leaves of every window what the bookkeeping takes it to leave: the fades of windows
that have room for both, and nothing of the others. The plain cut leaves nothing of any. -/
def FadeCutter.Accounted (cutter : FadeCutter) (windows : List (ℕ × ℕ)) (fadeMs : ℕ) : Prop :=
  fadeMs = 0 ∨ match cutter with
    | .sidecar | .complex => ∀ w ∈ windows, 2 * fadeMs < w.2 - w.1
    | .simple => ∀ w ∈ windows, w.2 - w.1 ≤ 2 * fadeMs

instance (cutter : FadeCutter) (windows : List (ℕ × ℕ)) (fadeMs : ℕ) :
    Decidable (cutter.Accounted windows fadeMs) :=
  match cutter with
  | .sidecar | .complex => inferInstanceAs (Decidable (_ ∨ ∀ w ∈ windows, _ < _))
  | .simple => inferInstanceAs (Decidable (_ ∨ ∀ w ∈ windows, _ ≤ _))

/-- What `_effective_removed_windows` records for windows of a source. -/
def recorded (windows : List (ℕ × ℕ)) (fadeMs : ℕ) : List (ℤ × ℤ) :=
  effectiveRemovedWindows (toInt windows) fadeMs

/-- What is recorded of one window. -/
def inset (fadeMs : ℤ) (w : ℤ × ℤ) : ℤ × ℤ :=
  if 2 * fadeMs < w.2 - w.1 then (w.1 + fadeMs,w.2 - fadeMs) else w

theorem recorded_eq (windows : List (ℕ × ℕ)) (fadeMs : ℕ) :
    recorded windows fadeMs = (toInt windows).map (inset fadeMs) := by
  have hfade : max 0 (fadeMs : ℤ) = fadeMs := max_eq_right (Int.natCast_nonneg fadeMs)
  simp only [recorded,effectiveRemovedWindows,hfade]
  rfl

theorem inset_zero (w : ℤ × ℤ) : inset 0 w = w := by
  unfold inset
  split
  · rw [add_zero,sub_zero]
  · rfl

theorem inset_of_short {fadeMs : ℤ} {w : ℤ × ℤ} (h : w.2 - w.1 ≤ 2 * fadeMs) : inset fadeMs w = w :=
  if_neg (not_lt.mpr h)

theorem inset_of_long {fadeMs : ℤ} {w : ℤ × ℤ} (h : 2 * fadeMs < w.2 - w.1) :
    inset fadeMs w = (w.1 + fadeMs,w.2 - fadeMs) := if_pos h

theorem inset_within {fadeMs : ℤ} (hfade : 0 ≤ fadeMs) (w : ℤ × ℤ) :
    w.1 ≤ (inset fadeMs w).1 ∧ (inset fadeMs w).2 ≤ w.2 := by
  unfold inset
  split
  · exact ⟨by simpa using hfade,by simpa using hfade⟩
  · exact ⟨le_rfl,le_rfl⟩

/-- Only what a window covers is recorded. -/
theorem covers_of_inset {ws : List (ℤ × ℤ)} {fadeMs t : ℤ} (hfade : 0 ≤ fadeMs)
    (h : Covers (ws.map (inset fadeMs)) t) : Covers ws t := by
  obtain ⟨w,hw,hle,hlt⟩ := h
  obtain ⟨v,hv,rfl⟩ := List.mem_map.mp hw
  have hwithin := inset_within hfade v
  exact ⟨v,hv,hwithin.1.trans hle,hlt.trans_le hwithin.2⟩

/-- The stretches of a cut with fades, empty ones included. -/
def fadedFrom (fadeMs durationMs lastEnd : ℤ) : List (ℤ × ℤ) → List (ℤ × ℤ)
  | [] => [(lastEnd,durationMs)]
  | w::ws => (lastEnd,w.1)::(w.1,w.1 + fadeMs)::(w.2 - fadeMs,w.2)::fadedFrom fadeMs durationMs w.2 ws

/-- A window has room for its fades. -/
def Roomy (fadeMs : ℤ) (w : ℤ × ℤ) : Prop := fadeMs = 0 ∨ 2 * fadeMs < w.2 - w.1

/-- With room for the fades the cut leaves what lies outside the insets. -/
theorem played_fadedFrom {fadeMs durationMs lastEnd : ℤ} {ws : List (ℤ × ℤ)} (hfade : 0 ≤ fadeMs)
    (hsep : Separated ws) (hroom : ∀ w ∈ ws, Roomy fadeMs w) (hlast : ∀ w ∈ ws, lastEnd ≤ w.1)
    (hend : ∀ w ∈ ws, w.2 ≤ durationMs) :
    played (fadedFrom fadeMs durationMs lastEnd ws) =
      uncovered (ws.map (inset fadeMs)) lastEnd durationMs := by
  induction ws generalizing lastEnd with
  | nil =>
    rw [fadedFrom,List.map_nil,uncovered_of_free (fun _ _ _ => covers_nil _),played_cons,played_nil,
      List.append_nil]
  | cons w ws ih =>
    obtain ⟨hw,hbehind,hrest⟩ := Separated.cons_iff.mp hsep
    have hw0 := hlast w List.mem_cons_self
    have hwd := hend w List.mem_cons_self
    have hinset : (inset fadeMs w).1 = w.1 + fadeMs ∧ (inset fadeMs w).2 = w.2 - fadeMs := by
      unfold inset
      rcases hroom w List.mem_cons_self with hzero | hlong
      · split <;> simp [hzero]
      · rw [if_pos hlong]
        exact ⟨rfl,rfl⟩
    have hle : w.1 + fadeMs ≤ w.2 - fadeMs := by
      rcases hroom w List.mem_cons_self with hzero | hlong <;> omega
    -- Up to the end of the window only its own inset is recorded.
    have hown : ∀ t, t < w.2 → (Covers ((w::ws).map (inset fadeMs)) t ↔
        w.1 + fadeMs ≤ t ∧ t < w.2 - fadeMs) := by
      intro t ht
      rw [List.map_cons,covers_cons,hinset.1,hinset.2,or_iff_left]
      intro hcov
      obtain ⟨b,hb,hbt,-⟩ := covers_of_inset hfade hcov
      have hbw := hbehind b hb
      omega
    have hbefore : uncovered ((w::ws).map (inset fadeMs)) lastEnd (w.1 + fadeMs) =
        Int.range lastEnd (w.1 + fadeMs) := by
      refine uncovered_of_free (fun t _ ht hcov => ?_)
      have := (hown t (by omega)).mp hcov
      omega
    have hinside : uncovered ((w::ws).map (inset fadeMs)) (w.1 + fadeMs) (w.2 - fadeMs) = [] :=
      uncovered_of_covered (fun t hle hlt => (hown t (by omega)).mpr ⟨hle,hlt⟩)
    have htail : uncovered ((w::ws).map (inset fadeMs)) (w.2 - fadeMs) w.2 =
        Int.range (w.2 - fadeMs) w.2 := by
      refine uncovered_of_free (fun t hle hlt hcov => ?_)
      have := (hown t hlt).mp hcov
      omega
    have hpast : uncovered ((w::ws).map (inset fadeMs)) w.2 durationMs =
        uncovered (ws.map (inset fadeMs)) w.2 durationMs := by
      refine uncovered_congr (fun t hle _ => ?_)
      rw [List.map_cons,covers_cons,hinset.2,or_iff_right]
      omega
    rw [fadedFrom,played_cons,played_cons,played_cons,
      ih hrest (fun v hv => hroom v (List.mem_cons_of_mem w hv)) (fun v hv => (hbehind v hv).le)
        (fun v hv => hend v (List.mem_cons_of_mem w hv)),
      ← List.append_assoc,range_append hw0 (by omega),
      ← uncovered_append _ (by omega : lastEnd ≤ w.1 + fadeMs) (by omega : w.1 + fadeMs ≤ durationMs),
      ← uncovered_append _ hle (by omega : w.2 - fadeMs ≤ durationMs),
      ← uncovered_append _ (by omega : w.2 - fadeMs ≤ w.2) hwd,hbefore,hinside,htail,hpast,
      List.nil_append]

theorem toInt_filter (ps : List (ℕ × ℕ)) :
    toInt (ps.filter (fun p => p.1 < p.2)) = (toInt ps).filter (fun p => p.1 < p.2) := by
  rw [toInt,toInt,List.filter_map]
  refine congrArg _ (List.filter_congr (fun p _ => ?_))
  exact decide_eq_decide.mpr Int.ofNat_lt.symm

theorem played_filter (ps : List (ℤ × ℤ)) : played (ps.filter (fun p => p.1 < p.2)) = played ps := by
  induction ps with
  | nil => rfl
  | cons p ps ih =>
    by_cases hp : p.1 < p.2
    · rw [List.filter_cons_of_pos (by simpa using hp),played_cons,ih,played_cons]
    · rw [List.filter_cons_of_neg (by simpa using hp),ih,played_cons,range_eq_nil (not_lt.mp hp),
        List.nil_append]

theorem mem_toInt {ws : List (ℕ × ℕ)} {w : ℤ × ℤ} :
    w ∈ toInt ws ↔ ∃ v ∈ ws, ((v.1 : ℤ),(v.2 : ℤ)) = w := List.mem_map

theorem covers_toInt {ws : List (ℕ × ℕ)} {t : ℕ} : Covers (toInt ws) t ↔ Covers ws t := by
  constructor
  · rintro ⟨w,hw,hle,hlt⟩
    obtain ⟨v,hv,rfl⟩ := mem_toInt.mp hw
    exact ⟨v,hv,Int.ofNat_le.mp hle,Int.ofNat_lt.mp hlt⟩
  · rintro ⟨v,hv,hle,hlt⟩
    exact ⟨((v.1 : ℤ),(v.2 : ℤ)),mem_toInt.mpr ⟨v,hv,rfl⟩,Int.ofNat_le.mpr hle,Int.ofNat_lt.mpr hlt⟩

theorem separated_toInt {ws : List (ℕ × ℕ)} (h : Separated ws) : Separated (toInt ws) := by
  refine ⟨?_,?_⟩
  · intro w hw
    obtain ⟨v,hv,rfl⟩ := mem_toInt.mp hw
    exact Int.ofNat_lt.mpr (h.nonempty v hv)
  · rw [toInt,List.pairwise_map]
    exact h.ordered.imp Int.ofNat_lt.mpr

theorem readWindowsMs_of_separated {ws : List (ℕ × ℕ)} (h : Separated ws) : readWindowsMs ws = ws := by
  rw [readWindowsMs_eq_normalize]
  exact (normalize_separated ws).eq_of_covers h (covers_normalize ws)

section Pieces
variable {ws : List (ℕ × ℕ)} {durationMs fadeMs : ℕ}

theorem played_ite (c : Prop) [Decidable c] (a b : ℤ) (h : ¬c → b ≤ a) :
    played (if c then [(a,b)] else []) = Int.range a b := by
  split
  · rw [played_cons,played_nil,List.append_nil]
  · rename_i hc
    rw [played_nil,range_eq_nil (h hc)]

/-- The streams of the sidecar. -/
theorem played_fadePiecesFrom {lastEnd : ℕ} (hsep : Separated ws)
    (hroom : ∀ w ∈ ws, Roomy fadeMs ((w.1 : ℤ),(w.2 : ℤ))) :
    played (toInt (fadePiecesFrom durationMs fadeMs lastEnd ws)) =
      played (fadedFrom fadeMs durationMs lastEnd (toInt ws)) := by
  induction ws generalizing lastEnd with
  | nil =>
    rw [toInt_nil,fadedFrom,fadePiecesFrom,apply_ite toInt,toInt_cons,toInt_nil,
      played_ite _ _ _ (by omega),played_cons,played_nil,List.append_nil]
  | cons w ws ih =>
    obtain ⟨hw,-,hrest⟩ := Separated.cons_iff.mp hsep
    have hhead : ((min (w.1 + fadeMs) w.2 : ℕ) : ℤ) = w.1 + fadeMs := by
      rcases hroom w List.mem_cons_self with hzero | hlong
      · omega
      · simp only at hlong
        omega
    have htail : ((w.2 - fadeMs : ℕ) : ℤ) = w.2 - fadeMs := by
      rcases hroom w List.mem_cons_self with hzero | hlong
      · omega
      · simp only at hlong
        omega
    rw [fadePiecesFrom,toInt_append,toInt_append,apply_ite toInt,played_append,played_append,toInt_cons,
      toInt_nil,played_ite _ _ _ (by omega),toInt_cons,toInt_cons,toInt_nil,hhead,htail,
      ih hrest (fun v hv => hroom v (List.mem_cons_of_mem w hv)),toInt_cons,fadedFrom]
    simp only [played_cons,played_nil,List.append_nil,List.append_assoc]

theorem played_complexTail (durationMs lastEnd : ℤ) (acc : List (ℤ × ℤ)) :
    played (complexTail durationMs (acc,lastEnd)) = played acc ++ Int.range lastEnd durationMs := by
  rw [complexTail]
  split
  · rename_i hend
    rw [range_eq_nil hend.ge,List.append_nil]
  · rw [played_append,played_cons,played_nil,List.append_nil]

/-- The filter of the application. -/
theorem played_complex (acc : List (ℤ × ℤ)) (fadeMs durationMs lastEnd : ℤ) (zs : List (ℤ × ℤ)) :
    played (complexTail durationMs (zs.foldl (complexStep fadeMs) (acc,lastEnd))) =
      played acc ++ played (fadedFrom fadeMs durationMs lastEnd zs) := by
  induction zs generalizing acc lastEnd with
  | nil => rw [List.foldl_nil,played_complexTail,fadedFrom,played_cons,played_nil,List.append_nil]
  | cons w zs ih =>
    rw [List.foldl_cons,complexStep,ih,fadedFrom,played_append]
    simp only [played_cons,played_nil,List.append_nil,List.append_assoc]

/-- The plain cut is a cut with no fade. -/
theorem played_gapsFrom (durationMs lastEnd : ℕ) (ws : List (ℕ × ℕ)) :
    played (toInt (gapsFrom lastEnd durationMs ws)) =
      played (fadedFrom 0 durationMs lastEnd (toInt ws)) := by
  induction ws generalizing lastEnd with
  | nil =>
    rw [toInt_nil,fadedFrom,gapsFrom,apply_ite toInt,toInt_cons,toInt_nil,played_ite _ _ _ (by omega),
      played_cons,played_nil,List.append_nil]
  | cons w ws ih =>
    have hstep : played (toInt (gapsFrom lastEnd durationMs (w::ws))) =
        Int.range lastEnd w.1 ++ played (toInt (gapsFrom w.2 durationMs ws)) := by
      rw [gapsFrom]
      split
      · rw [toInt_cons,played_cons]
      · rw [range_eq_nil (by omega),List.nil_append]
    rw [hstep,ih,toInt_cons,fadedFrom]
    simp only [played_cons,add_zero,sub_zero,range_eq_nil le_rfl,List.nil_append]

end Pieces

section Accounts
variable {windows : List (ℕ × ℕ)} {durationMs fadeMs : ℕ}

theorem roomy_toInt (h : ∀ w ∈ windows, fadeMs = 0 ∨ 2 * fadeMs < w.2 - w.1) :
    ∀ w ∈ toInt windows, Roomy fadeMs w := by
  intro w hw
  obtain ⟨v,hv,rfl⟩ := mem_toInt.mp hw
  rcases h v hv with hzero | hlong
  · exact Or.inl (by exact_mod_cast hzero)
  · refine Or.inr ?_
    simp only
    omega

/-- Without a fade, or in windows with no room for it, all is recorded. -/
theorem map_inset_eq_self {zs : List (ℤ × ℤ)} {fadeMs : ℤ}
    (h : ∀ w ∈ zs, fadeMs = 0 ∨ w.2 - w.1 ≤ 2 * fadeMs) : zs.map (inset fadeMs) = zs := by
  refine (List.map_congr_left (fun w hw => ?_)).trans (List.map_id zs)
  rcases h w hw with hzero | hshort
  · rw [hzero,inset_zero,id]
  · exact inset_of_short hshort

/-- A cutter that is accounted for leaves what lies outside the recorded windows. -/
theorem played_of_accounted {cutter : FadeCutter} (hsep : Separated windows)
    (hend : ∀ w ∈ windows, w.2 ≤ durationMs) (h : cutter.Accounted windows fadeMs) :
    played (cutter.pieces windows durationMs fadeMs) =
      uncovered (recorded windows fadeMs) 0 durationMs := by
  have hseps := separated_toInt hsep
  have hstart : ∀ w ∈ toInt windows, 0 ≤ w.1 := by
    intro w hw
    obtain ⟨v,-,rfl⟩ := mem_toInt.mp hw
    exact Int.natCast_nonneg _
  have hends : ∀ w ∈ toInt windows, w.2 ≤ durationMs := by
    intro w hw
    obtain ⟨v,hv,rfl⟩ := mem_toInt.mp hw
    exact Int.ofNat_le.mpr (hend v hv)
  have hfaded : (∀ w ∈ windows, fadeMs = 0 ∨ 2 * fadeMs < w.2 - w.1) →
      played (fadedFrom fadeMs durationMs 0 (toInt windows)) =
        uncovered (recorded windows fadeMs) 0 durationMs := by
    intro hlong
    rw [recorded_eq]
    exact played_fadedFrom (Int.natCast_nonneg _) hseps (roomy_toInt hlong) hstart hends
  cases cutter with
  | sidecar =>
    have hlong : ∀ w ∈ windows, fadeMs = 0 ∨ 2 * fadeMs < w.2 - w.1 := fun w hw => h.imp_right (· w hw)
    rw [FadeCutter.pieces,readWindowsMs_of_separated hsep,concatenated_eq_pieces,toInt_filter,
      played_filter,played_fadePiecesFrom hsep (fun w hw => roomy_toInt hlong _ (mem_toInt.mpr ⟨w,hw,rfl⟩))]
    exact hfaded hlong
  | complex =>
    have hlong : ∀ w ∈ windows, fadeMs = 0 ∨ 2 * fadeMs < w.2 - w.1 := fun w hw => h.imp_right (· w hw)
    rw [FadeCutter.pieces,clipSegmentsComplex,played_complex,played_nil,List.nil_append]
    exact hfaded hlong
  | simple =>
    have hshort : ∀ w ∈ toInt windows, (fadeMs : ℤ) = 0 ∨ w.2 - w.1 ≤ 2 * fadeMs := by
      intro w hw
      obtain ⟨v,hv,rfl⟩ := mem_toInt.mp hw
      rcases h with hzero | hall
      · exact Or.inl (by exact_mod_cast hzero)
      · have := hall v hv
        exact Or.inr (by simp only; omega)
    rw [FadeCutter.pieces,clipKeepSegments,keepLoop_eq_gapsFrom,Nat.bot_eq_zero,played_gapsFrom,
      recorded_eq,map_inset_eq_self hshort]
    have hplain := @played_fadedFrom 0 durationMs 0 (toInt windows) le_rfl hseps
      (fun _ _ => Or.inl rfl) hstart hends
    rwa [map_inset_eq_self (fun _ _ => Or.inl rfl)] at hplain

theorem mem_fadePiecesFrom {lastEnd : ℕ} {w : ℕ × ℕ} (hw : w ∈ windows) :
    (w.1,min (w.1 + fadeMs) w.2) ∈ fadePiecesFrom durationMs fadeMs lastEnd windows := by
  induction windows generalizing lastEnd with
  | nil => cases hw
  | cons v vs ih =>
    rw [fadePiecesFrom]
    rcases List.mem_cons.mp hw with rfl | hw
    · exact List.mem_append_left _ (List.mem_append_right _ List.mem_cons_self)
    · exact List.mem_append_right _ (ih hw)

theorem mem_foldl_complexStep {zs : List (ℤ × ℤ)} {fadeMs : ℤ} {state : List (ℤ × ℤ) × ℤ}
    {p : ℤ × ℤ} (h : p ∈ state.1 ∨ ∃ w ∈ zs, p = (w.1,w.1 + fadeMs)) :
    p ∈ (zs.foldl (complexStep fadeMs) state).1 := by
  induction zs generalizing state with
  | nil =>
    rcases h with h | ⟨w,hw,-⟩
    · exact h
    · cases hw
  | cons v zs ih =>
    rw [List.foldl_cons]
    apply ih
    rcases h with h | ⟨w,hw,rfl⟩
    · exact Or.inl (List.mem_append_left _ h)
    · rcases List.mem_cons.mp hw with rfl | hw
      · exact Or.inl (List.mem_append_right _ (by simp))
      · exact Or.inr ⟨w,hw,rfl⟩

/-- Of a window with a fade a cutter that fades plays the first cell. -/
theorem covers_start {cutter : FadeCutter} (hcutter : cutter ≠ .simple) (hsep : Separated windows)
    (hfade : 0 < fadeMs) {w : ℕ × ℕ} (hw : w ∈ windows) :
    Covers (cutter.pieces windows durationMs fadeMs) w.1 := by
  have hlt := hsep.nonempty w hw
  cases cutter with
  | sidecar =>
    rw [FadeCutter.pieces,readWindowsMs_of_separated hsep,concatenated_eq_pieces]
    refine ⟨((w.1 : ℤ),((min (w.1 + fadeMs) w.2 : ℕ) : ℤ)),
      mem_toInt.mpr ⟨(w.1,min (w.1 + fadeMs) w.2),?_,rfl⟩,le_rfl,?_⟩
    · refine List.mem_filter.mpr ⟨mem_fadePiecesFrom hw,decide_eq_true ?_⟩
      exact lt_min (by omega) hlt
    · exact Int.ofNat_lt.mpr (lt_min (by omega) hlt)
  | complex =>
    have hmem := @mem_foldl_complexStep (toInt windows) fadeMs ([],0) _
      (Or.inr ⟨_,mem_toInt.mpr ⟨w,hw,rfl⟩,rfl⟩)
    refine ⟨((w.1 : ℤ),w.1 + fadeMs),?_,le_rfl,lt_add_of_pos_right _ (Int.ofNat_lt.mpr hfade)⟩
    rw [FadeCutter.pieces,clipSegmentsComplex,complexTail]
    split
    · exact hmem
    · exact List.mem_append_left _ hmem
  | simple => exact absurd rfl hcutter

/-- Only one of separated windows covers the start of a window. -/
theorem eq_of_covers_start (hsep : Separated windows) {v w : ℕ × ℕ} (hv : v ∈ windows)
    (hw : w ∈ windows) (hle : v.1 ≤ w.1) (hlt : w.1 < v.2) : v = w := by
  by_contra hne
  have hsymm : Std.Symm (fun a b : ℕ × ℕ => a.2 < b.1 ∨ b.2 < a.1) := ⟨fun _ _ h => h.symm⟩
  have hpair : windows.Pairwise (fun a b => a.2 < b.1 ∨ b.2 < a.1) := hsep.ordered.imp Or.inl
  have hw' := hsep.nonempty w hw
  rcases hpair.forall hv hw hne with h | h <;> omega

/-- What a cutter plays is what lies outside the recorded windows exactly when it is accounted for. -/
theorem plays_eq_iff (cutter : FadeCutter) (hsep : Separated windows)
    (hend : ∀ w ∈ windows, w.2 ≤ durationMs) :
    cutter.plays windows durationMs fadeMs = uncovered (recorded windows fadeMs) 0 durationMs ↔
      cutter.Accounted windows fadeMs := by
  constructor
  · intro heq
    rcases Nat.eq_zero_or_pos fadeMs with hzero | hfade
    · exact Or.inl hzero
    have hplays : ∀ w ∈ windows, (Covers (cutter.pieces windows durationMs fadeMs) w.1 ↔
        ¬ Covers (recorded windows fadeMs) w.1) := by
      intro w hw
      have hlt := hsep.nonempty w hw
      have hwd := hend w hw
      have hmem := Iff.of_eq (congrArg (fun xs => (w.1 : ℤ) ∈ xs) heq)
      rw [FadeCutter.plays,audible,List.mem_filter,mem_played,mem_uncovered,decide_eq_true_eq] at hmem
      constructor
      · exact fun hcov => (hmem.mp ⟨hcov,by omega⟩).2
      · exact fun hfree => (hmem.mpr ⟨⟨by omega,by omega⟩,hfree⟩).1
    refine Or.inr ?_
    have hfaded : cutter ≠ .simple → ∀ w ∈ windows, 2 * fadeMs < w.2 - w.1 := by
      intro hcutter w hw
      by_contra hshort
      -- A window with no room is recorded whole, and its head is played.
      refine (hplays w hw).mp (covers_start hcutter hsep hfade hw) ?_
      have hself := @inset_of_short fadeMs ((w.1 : ℤ),(w.2 : ℤ)) (by simp only; omega)
      rw [recorded_eq]
      exact ⟨((w.1 : ℤ),(w.2 : ℤ)),List.mem_map.mpr ⟨_,mem_toInt.mpr ⟨w,hw,rfl⟩,hself⟩,le_rfl,
        Int.ofNat_lt.mpr (hsep.nonempty w hw)⟩
    cases cutter with
    | sidecar => exact hfaded (by decide)
    | complex => exact hfaded (by decide)
    | simple =>
      intro w hw
      by_contra hlong
      obtain ⟨-,-,hfree⟩ := @Separated.gapsFrom_separated ℕ _ 0 durationMs windows hsep
        (fun _ _ => Nat.zero_le _)
      -- The plain cut leaves nothing of a window, and a long one is not recorded whole.
      have hcut : ¬ Covers (FadeCutter.pieces .simple windows durationMs fadeMs) w.1 := by
        rw [FadeCutter.pieces,clipKeepSegments,keepLoop_eq_gapsFrom,Nat.bot_eq_zero,covers_toInt]
        exact fun hcov => hfree w.1 hcov ⟨w,hw,le_rfl,hsep.nonempty w hw⟩
      refine hcut ((hplays w hw).mpr ?_)
      rw [recorded_eq]
      rintro ⟨p,hp,hle,hlt⟩
      obtain ⟨z,hz,rfl⟩ := List.mem_map.mp hp
      obtain ⟨v,hv,rfl⟩ := mem_toInt.mp hz
      have hwithin := inset_within (Int.natCast_nonneg fadeMs) ((v.1 : ℤ),(v.2 : ℤ))
      obtain rfl := eq_of_covers_start hsep hv hw (by simp only at hwithin; omega)
        (by simp only at hwithin; omega)
      rw [inset_of_long (by simp only; omega)] at hle
      simp only at hle
      omega
  · intro h
    have hplayed := played_of_accounted hsep hend h
    rw [FadeCutter.plays,audible,hplayed,List.filter_eq_self]
    exact fun t ht => decide_eq_true (mem_uncovered.mp ht).1.2

/-- A cutter without fades that works on the merged windows leaves what lies outside the given
ones, wherever they end. -/
theorem audible_keepSegments (windows : List (ℕ × ℕ)) (durationMs : ℕ) :
    audible durationMs (toInt (keepSegments (readWindowsMs windows) durationMs)) =
      uncovered (toInt windows) 0 durationMs := by
  obtain ⟨hsep,-,hfree⟩ := @Separated.gapsFrom_separated ℕ _ 0 durationMs (readWindowsMs windows)
    (by rw [readWindowsMs_eq_normalize]; exact normalize_separated windows) (fun _ _ => Nat.zero_le _)
  have hcov : ∀ t, Covers (readWindowsMs windows) t ↔ Covers windows t := by
    intro t
    rw [readWindowsMs_eq_normalize,covers_normalize]
  rw [keepSegments,keepLoop_eq_gapsFrom,Nat.bot_eq_zero]
  refine audible_eq_uncovered ((separated_toInt hsep).ordered.imp le_of_lt) (fun t ht => ?_)
  constructor
  · intro hgap
    obtain ⟨p,hp,hle,hlt⟩ := hgap
    obtain ⟨v,hv,rfl⟩ := mem_toInt.mp hp
    obtain ⟨n,rfl⟩ := Int.eq_ofNat_of_zero_le ((Int.natCast_nonneg v.1).trans hle)
    refine ⟨Int.natCast_nonneg n,?_⟩
    rw [covers_toInt,← hcov]
    exact hfree n ⟨v,hv,Int.ofNat_le.mp hle,Int.ofNat_lt.mp hlt⟩
  · rintro ⟨hle,hout⟩
    obtain ⟨n,rfl⟩ := Int.eq_ofNat_of_zero_le hle
    rw [covers_toInt,← hcov] at hout
    exact covers_toInt.mpr ((covers_gapsFrom_or (Nat.zero_le n)
      (Or.inl (Int.ofNat_lt.mp ht))).resolve_right hout)

end Accounts

end Podly.Cutter
