import Mathlib.Order.Nat
import Podly.Intervals.Gaps

/-! Exact cutting: the stretches of audio that the Python fallback and the Rust sidecar keep when
they remove a list of millisecond windows. -/
namespace Podly.Cutter
open Intervals Sweep

/-- One turn of the keep loop: the state is the keep-list so far and `last_end`. -/
def keepStep (state : List (ℕ × ℕ) × ℕ) (window : ℕ × ℕ) : List (ℕ × ℕ) × ℕ :=
  (if window.1 > state.2 then state.1 ++ [(state.2,window.1)] else state.1,window.2)

/-- After the loop the rest of the audio is kept. -/
def keepTail (durationMs : ℕ) (state : List (ℕ × ℕ) × ℕ) : List (ℕ × ℕ) :=
  if state.2 < durationMs then state.1 ++ [(state.2,durationMs)] else state.1

/-- The keep loop, written alike on both sides. -/
def keepLoop (windows : List (ℕ × ℕ)) (durationMs : ℕ) : List (ℕ × ℕ) :=
  keepTail durationMs (windows.foldl keepStep ([],0))

/-- The `keep_segments` of Python's `_clip_segments_simple`: the loop over the windows as given. -/
def clipKeepSegments (adSegmentsMs : List (ℕ × ℕ)) (audioDurationMs : ℕ) : List (ℕ × ℕ) :=
  keepLoop adSegmentsMs audioDurationMs

/-- `_clip_segments_simple`, up to the trimming and concatenating of the kept segments. -/
def clipSegmentsSimple (adSegmentsMs : List (ℕ × ℕ)) (audioDurationMs : ℕ) :
    Except String (List (ℕ × ℕ)) :=
  match clipKeepSegments adSegmentsMs audioDurationMs with
  | [] => .error "No audio segments to keep after ad removal"
  | keep => .ok keep

/-- Rust's `keep_segments`. -/
def keepSegments (windows : List (ℕ × ℕ)) (durationMs : ℕ) : List (ℕ × ℕ) :=
  keepLoop windows durationMs

/-- Rust's `merge_windows`: a stable sort on the start and the loop over `last_mut`. -/
def mergeWindows (windows : List (ℕ × ℕ)) : List (ℕ × ℕ) :=
  (sortByKey Prod.fst windows).foldl (joinPush (fun prev w => w.1 ≤ prev.2) extend) []

/-- Rust's `read_windows_ms`, from the parsed list on. -/
def readWindowsMs (windows : List (ℕ × ℕ)) : List (ℕ × ℕ) :=
  mergeWindows (windows.filter (fun w => w.2 > w.1))

/-- Rust's `cut_audio_simple`, up to the trimming and concatenating of the kept segments. -/
def cutAudioSimple (windows : List (ℕ × ℕ)) (durationMs : ℕ) : Except String (List (ℕ × ℕ)) :=
  match keepSegments windows durationMs with
  | [] => .error "no audio segments to keep after removal"
  | keep => .ok keep

theorem foldl_keepStep (keep : List (ℕ × ℕ)) (lastEnd durationMs : ℕ) (ws : List (ℕ × ℕ)) :
    keepTail durationMs (ws.foldl keepStep (keep,lastEnd)) =
      keep ++ gapsFrom lastEnd durationMs ws := by
  induction ws generalizing keep lastEnd with
  | nil =>
    change (if lastEnd < durationMs then keep ++ [(lastEnd,durationMs)] else keep) =
      keep ++ if lastEnd < durationMs then [(lastEnd,durationMs)] else []
    split <;> simp
  | cons w ws ih =>
    rw [List.foldl_cons,keepStep,ih,gapsFrom]
    simp only [gt_iff_lt]
    split
    · rw [List.append_assoc,List.singleton_append]
    · rfl

/-- The keep loop leaves the gaps of a cursor walk. -/
theorem keepLoop_eq_gapsFrom (ws : List (ℕ × ℕ)) (durationMs : ℕ) :
    keepLoop ws durationMs = gapsFrom ⊥ durationMs ws := foldl_keepStep [] 0 durationMs ws

theorem readWindowsMs_eq_normalize (ws : List (ℕ × ℕ)) :
    readWindowsMs ws = Intervals.normalize ws := foldl_joinPush _ _ _

/-- The windows step through the audio in cutting order. -/
def InCutOrder (windows : List (ℕ × ℕ)) (durationMs : ℕ) : Prop :=
  JumpsInOrder durationMs none 0 0 windows

instance (windows : List (ℕ × ℕ)) (durationMs : ℕ) : Decidable (InCutOrder windows durationMs) :=
  inferInstanceAs (Decidable (JumpsInOrder durationMs none 0 0 windows))

/-- Merging windows that come in cutting order does not change what is kept. -/
theorem InCutOrder.keep_same {windows : List (ℕ × ℕ)} {durationMs : ℕ}
    (h : InCutOrder windows durationMs) :
    clipKeepSegments windows durationMs = keepSegments (readWindowsMs windows) durationMs := by
  rw [InCutOrder,← Nat.bot_eq_zero,← exactGaps_iff] at h
  rw [clipKeepSegments,keepSegments,keepLoop_eq_gapsFrom,keepLoop_eq_gapsFrom,
    readWindowsMs_eq_normalize]
  exact h.gapsFrom_normalize.symm

/-- Cut in order, the same windows fail on both sides or give the same pieces. -/
theorem InCutOrder.clip_same {windows : List (ℕ × ℕ)} {durationMs : ℕ}
    (h : InCutOrder windows durationMs) :
    (clipSegmentsSimple windows durationMs).toOption =
      (cutAudioSimple (readWindowsMs windows) durationMs).toOption := by
  rw [clipSegmentsSimple,cutAudioSimple,h.keep_same]
  cases keepSegments (readWindowsMs windows) durationMs <;> rfl

/-- What the exact cutters owe each other: one keep-list on both sides, in order, and exactly the
audio before `durationMs` that no window covers. -/
structure SameAudioKept (windows : List (ℕ × ℕ)) (durationMs : ℕ) : Prop where
  same : clipKeepSegments windows durationMs = keepSegments (readWindowsMs windows) durationMs
  separated : Separated (clipKeepSegments windows durationMs)
  complement : ∀ t, Covers (clipKeepSegments windows durationMs) t ↔
    t < durationMs ∧ ¬ Covers windows t

/-- The fallback, which takes the windows as given, keeps the audio that the sidecar keeps exactly
when the windows come in cutting order. -/
theorem sameAudioKept_iff (windows : List (ℕ × ℕ)) (durationMs : ℕ) :
    SameAudioKept windows durationMs ↔ InCutOrder windows durationMs := by
  have hclip : clipKeepSegments windows durationMs = gapsFrom ⊥ durationMs windows :=
    keepLoop_eq_gapsFrom windows durationMs
  have hexact : ExactGaps durationMs (gapsFrom ⊥ durationMs windows) windows ↔
      InCutOrder windows durationMs := by
    rw [InCutOrder,← Nat.bot_eq_zero,exactGaps_iff]
  constructor
  · intro h
    have hsep := h.separated
    have hcompl := h.complement
    rw [hclip] at hsep hcompl
    exact hexact.mp ⟨hsep,fun t ht => ((hcompl t).mp ht).1,fun t ht => ((hcompl t).mp ht).2⟩
  · intro h
    have hgaps := hexact.mpr h
    exact ⟨h.keep_same,hclip ▸ hgaps.separated,fun t => hclip ▸ hgaps.covers_iff t⟩

/-- A nested window steps `last_end` back, and the fallback keeps removed audio again. -/
theorem sameAudioKept_nested : ¬ SameAudioKept [(0,100),(10,20)] 200 := by
  intro h
  have hsame := h.same
  revert hsame
  decide

end Podly.Cutter
