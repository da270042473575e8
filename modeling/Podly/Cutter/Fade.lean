import Mathlib.Algebra.Order.BigOperators.Group.List
import Podly.Intervals.Length

/-! Fade cutting: the audio pieces the Rust sidecar concatenates, and the windows the Python
bookkeeping records as removed. -/
namespace Podly.Cutter
open Intervals

/-- The direction of an `afade` filter. -/
inductive Fade
  | out
  | into
deriving DecidableEq, Repr

/-- One entry of `streams`: start, end and fade. -/
abbrev Stream := (ℕ × ℕ) × Option Fade

/-- One turn of the loop of `cut_audio_with_fade`: the stretch before the window, its faded head
and its faded tail. -/
def fadeStep (fadeMs : ℕ) (state : List Stream × ℕ) (window : ℕ × ℕ) : List Stream × ℕ :=
  let streams := if window.1 > state.2 then state.1 ++ [((state.2,window.1),none)] else state.1
  (streams ++ [((window.1,min (window.1 + fadeMs) window.2),some .out),
    ((window.2 - fadeMs,window.2),some .into)],window.2)

/-- After the loop the rest of the audio is one more stream. -/
def fadeTail (durationMs : ℕ) (state : List Stream × ℕ) : List Stream :=
  if state.2 < durationMs then state.1 ++ [((state.2,durationMs),none)] else state.1

/-- The streams that get a filter and a label: those with `end_ms > start_ms`. -/
def fadeStreams (windows : List (ℕ × ℕ)) (durationMs fadeMs : ℕ) : List Stream :=
  (fadeTail durationMs (windows.foldl (fadeStep fadeMs) ([],0))).filter (fun s => s.1.1 < s.1.2)

/-- Rust's `cut_audio_with_fade`, up to running the filter over the streams. -/
def cutAudioWithFade (windows : List (ℕ × ℕ)) (durationMs fadeMs : ℕ) :
    Except String (List Stream) :=
  match fadeStreams windows durationMs fadeMs with
  | [] => .error "no audio segments to keep after removal"
  | streams => .ok streams

/-- The pieces of audio that are concatenated: none when the cut fails. -/
def concatenated (windows : List (ℕ × ℕ)) (durationMs fadeMs : ℕ) : List (ℕ × ℕ) :=
  match cutAudioWithFade windows durationMs fadeMs with
  | .ok streams => streams.map Prod.fst
  | .error _ => []

/-- Python's `_effective_removed_windows`. -/
def effectiveRemovedWindows (windowsMs : List (ℤ × ℤ)) (fadeMs : ℤ) : List (ℤ × ℤ) :=
  let fade := max 0 fadeMs
  windowsMs.map (fun w =>
    if w.2 - w.1 > 2 * fade then (w.1 + fade,w.2 - fade) else (w.1,w.2))

theorem concatenated_eq (windows : List (ℕ × ℕ)) (durationMs fadeMs : ℕ) :
    concatenated windows durationMs fadeMs = (fadeStreams windows durationMs fadeMs).map Prod.fst := by
  unfold concatenated cutAudioWithFade
  cases fadeStreams windows durationMs fadeMs <;> rfl

/-- The pieces of the streams after a window, before the empty ones are dropped. -/
def fadePiecesFrom (durationMs fadeMs lastEnd : ℕ) : List (ℕ × ℕ) → List (ℕ × ℕ)
  | [] => if lastEnd < durationMs then [(lastEnd,durationMs)] else []
  | w::ws =>
    (if w.1 > lastEnd then [(lastEnd,w.1)] else []) ++
      [(w.1,min (w.1 + fadeMs) w.2),(w.2 - fadeMs,w.2)] ++
      fadePiecesFrom durationMs fadeMs w.2 ws

theorem fadeTail_foldl (durationMs fadeMs lastEnd : ℕ) (streams : List Stream)
    (ws : List (ℕ × ℕ)) :
    (fadeTail durationMs (ws.foldl (fadeStep fadeMs) (streams,lastEnd))).map Prod.fst =
      streams.map Prod.fst ++ fadePiecesFrom durationMs fadeMs lastEnd ws := by
  induction ws generalizing streams lastEnd with
  | nil =>
    change (if lastEnd < durationMs then streams ++ [((lastEnd,durationMs),none)]
      else streams).map Prod.fst =
        streams.map Prod.fst ++ if lastEnd < durationMs then [(lastEnd,durationMs)] else []
    split <;> simp
  | cons w ws ih =>
    rw [List.foldl_cons,fadeStep,ih,fadePiecesFrom]
    split <;> simp

theorem concatenated_eq_pieces (windows : List (ℕ × ℕ)) (durationMs fadeMs : ℕ) :
    concatenated windows durationMs fadeMs =
      (fadePiecesFrom durationMs fadeMs 0 windows).filter (fun p => p.1 < p.2) := by
  have h := fadeTail_foldl durationMs fadeMs 0 [] windows
  rw [List.map_nil,List.nil_append] at h
  rw [concatenated_eq,fadeStreams,← h,List.filter_map]
  rfl

/-- What the fade keeps of a window: its head and its tail, which overlap in a short window. -/
def keptByFade (fadeMs : ℕ) (w : ℕ × ℕ) : ℕ := min fadeMs (w.2 - w.1) + min fadeMs w.2

/-- What the bookkeeping takes to be kept of a window. -/
def recordedKept (fadeMs : ℕ) (w : ℕ × ℕ) : ℕ := if 2 * fadeMs < w.2 - w.1 then 2 * fadeMs else 0

theorem fadePiecesFrom_le {durationMs fadeMs lastEnd : ℕ} {ws : List (ℕ × ℕ)}
    (h : ∀ w ∈ ws, w.1 ≤ w.2) : ∀ p ∈ fadePiecesFrom durationMs fadeMs lastEnd ws, p.1 ≤ p.2 := by
  induction ws generalizing lastEnd with
  | nil =>
    intro p hp
    simp only [fadePiecesFrom] at hp
    split at hp <;> simp_all
    omega
  | cons w ws ih =>
    have hw := h w (by simp)
    intro p hp
    simp only [fadePiecesFrom, List.mem_append, List.mem_cons, List.not_mem_nil, or_false] at hp
    rcases hp with (hp | rfl | rfl) | hp
    · split at hp <;> simp_all
      omega
    · simp only [le_min_iff]
      omega
    · simp only
      omega
    · exact ih (fun v hv => h v (by simp [hv])) p hp

theorem total_fadePiecesFrom {durationMs fadeMs lastEnd : ℕ} {ws : List (ℕ × ℕ)}
    (h : DisjointWithin durationMs ws) (hlast : ∀ w ∈ ws, lastEnd ≤ w.1)
    (hd : lastEnd ≤ durationMs) :
    total (toInt (fadePiecesFrom durationMs fadeMs lastEnd ws)) =
      (durationMs - lastEnd) - total (toInt ws) + ((ws.map (keptByFade fadeMs)).sum : ℕ) := by
  induction ws generalizing lastEnd with
  | nil =>
    simp only [fadePiecesFrom]
    split
    · simp
    · simp
      omega
  | cons w ws ih =>
    obtain ⟨hord,-⟩ := List.pairwise_cons.mp h.ordered
    have hrest := ih h.tail hord (h.within w (by simp))
    have hw := h.le w (by simp)
    have hlw := hlast w (by simp)
    have hgap : total (toInt (if w.1 > lastEnd then [(lastEnd,w.1)] else [])) = w.1 - lastEnd := by
      split
      · simp
      · simp
        omega
    simp only [fadePiecesFrom, toInt_append, total_append, hgap, hrest, toInt_cons, toInt_nil,
      total_cons, total_nil, List.map_cons, List.sum_cons, keptByFade]
    omega

theorem total_effectiveRemovedWindows {fadeMs : ℕ} {ws : List (ℕ × ℕ)}
    (h : ∀ w ∈ ws, w.1 ≤ w.2) :
    total (effectiveRemovedWindows (toInt ws) fadeMs) =
      total (toInt ws) - ((ws.map (recordedKept fadeMs)).sum : ℕ) := by
  induction ws with
  | nil => rfl
  | cons w ws ih =>
    have hrest := ih (fun v hv => h v (by simp [hv]))
    have hw := h w (by simp)
    simp only [effectiveRemovedWindows, toInt_cons, List.map_cons, total_cons, List.sum_cons,
      recordedKept] at hrest ⊢
    rw [hrest]
    split <;> split <;> push_cast <;> omega

theorem recordedKept_le {fadeMs : ℕ} {w : ℕ × ℕ} : recordedKept fadeMs w ≤ keptByFade fadeMs w := by
  unfold recordedKept keptByFade
  split <;> omega

theorem recordedKept_eq_iff {fadeMs : ℕ} {w : ℕ × ℕ} (hw : w.1 ≤ w.2) :
    recordedKept fadeMs w = keptByFade fadeMs w ↔
      fadeMs = 0 ∨ 2 * fadeMs < w.2 - w.1 ∨ w.2 = 0 := by
  unfold recordedKept keptByFade
  split <;> omega

/-- Sums of pointwise bounded terms agree only termwise. -/
theorem recordedKept_sum_eq_iff (fadeMs : ℕ) (ws : List (ℕ × ℕ)) :
    (ws.map (recordedKept fadeMs)).sum = (ws.map (keptByFade fadeMs)).sum ↔
      ∀ w ∈ ws, recordedKept fadeMs w = keptByFade fadeMs w := by
  induction ws with
  | nil => simp
  | cons w ws ih =>
    have hw := @recordedKept_le fadeMs w
    have hle : (ws.map (recordedKept fadeMs)).sum ≤ (ws.map (keptByFade fadeMs)).sum :=
      List.sum_le_sum (fun _ _ => recordedKept_le)
    simp only [List.map_cons, List.sum_cons, List.forall_mem_cons, ← ih]
    omega

/-- The recorded removal is what the fade cutter removes exactly when there is no fade or every
window is longer than twice the fade (a window that ends at zero is empty on both sides). -/
theorem recorded_eq_concatenated_iff {durationMs fadeMs : ℕ} {windows : List (ℕ × ℕ)}
    (h : DisjointWithin durationMs windows) :
    durationMs - total (effectiveRemovedWindows (toInt windows) fadeMs) =
        total (toInt (concatenated windows durationMs fadeMs)) ↔
      fadeMs = 0 ∨ ∀ w ∈ windows, 2 * fadeMs < w.2 - w.1 ∨ w.2 = 0 := by
  rw [concatenated_eq_pieces,total_filter_lt _ (fadePiecesFrom_le h.le),
    total_fadePiecesFrom h (fun _ _ => Nat.zero_le _) (Nat.zero_le _),
    total_effectiveRemovedWindows h.le]
  have hsum := recordedKept_sum_eq_iff fadeMs windows
  have hiff : (∀ w ∈ windows, recordedKept fadeMs w = keptByFade fadeMs w) ↔
      fadeMs = 0 ∨ ∀ w ∈ windows, 2 * fadeMs < w.2 - w.1 ∨ w.2 = 0 := by
    rw [← forall_or_left]
    simp only [← forall_or_left]
    exact forall₂_congr (fun w hw => recordedKept_eq_iff (h.le w hw))
  rw [← hiff,← hsum]
  omega

theorem recorded_eq_concatenated_iff_single :
    30000 - total (effectiveRemovedWindows (toInt [(1000,11000)]) 2000) =
        total (toInt (concatenated [(1000,11000)] 30000 2000)) := by
  have hiff := @recorded_eq_concatenated_iff 30000 2000 [(1000,11000)]
    ⟨by decide,by decide,by decide⟩
  exact hiff.mpr (by decide)

/-- A four second window under a three second fade is recorded as removed in full, while six
seconds of it are concatenated. -/
theorem recorded_ne_concatenated_short :
    DisjointWithin 30000 [(10000,14000)] ∧
      30000 - total (effectiveRemovedWindows (toInt [(10000,14000)]) 3000) ≠
        total (toInt (concatenated [(10000,14000)] 30000 3000)) :=
  ⟨⟨by decide,by decide,by decide⟩,by decide⟩

end Podly.Cutter
