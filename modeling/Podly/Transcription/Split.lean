import Mathlib.Data.Rat.Floor
import Podly.Intervals.Tiling

/-! The split of an episode into chunks of a size that the transcriber takes. -/
namespace Podly.Transcription
open Intervals

/-- A chunk with the times it is cut at. -/
structure AudioChunk where
  path : String
  startOffsetMs : ℕ
  endOffsetMs : ℕ
deriving DecidableEq

def AudioChunk.range (chunk : AudioChunk) : ℕ × ℕ := (chunk.startOffsetMs,chunk.endOffsetMs)

/-- The ratio of the sizes taken of the duration, one millisecond at least. -/
def chunkDurationMs (durationMs fileSizeBytes chunkSizeBytes : ℕ) : ℕ :=
  max 1 ⌈(durationMs : ℚ) * (chunkSizeBytes / fileSizeBytes)⌉₊

def numChunks (durationMs chunkDurationMs : ℕ) : ℕ :=
  max 1 ⌈(durationMs : ℚ) / chunkDurationMs⌉₊

/-- The loop over the indexes of the chunks, with its early break. -/
def splitFrom (durationMs chunkDurationMs index : ℕ) : ℕ → List AudioChunk
  | 0 => []
  | remaining + 1 =>
    if index * chunkDurationMs ≥ durationMs then []
    else ⟨toString index ++ ".mp3",index * chunkDurationMs,
        min durationMs ((index + 1) * chunkDurationMs)⟩ ::
      splitFrom durationMs chunkDurationMs (index + 1) remaining

def splitChunks (durationMs fileSizeBytes chunkSizeBytes : ℕ) : List AudioChunk :=
  splitFrom durationMs (chunkDurationMs durationMs fileSizeBytes chunkSizeBytes) 0
    (numChunks durationMs (chunkDurationMs durationMs fileSizeBytes chunkSizeBytes))

/-- `split_audio` of the application. A duration that cannot be read fails the assertion. -/
def splitAudio (durationMs : Option ℕ) (fileSizeBytes : ℕ) (chunkSizeBytes : ℤ) :
    Except String (List AudioChunk) :=
  match durationMs with
  | none => .error "AssertionError"
  | some durationMs =>
    if chunkSizeBytes ≤ 0 then .error "chunk_size_bytes must be a positive integer"
    else if fileSizeBytes = 0 then .error "Cannot split zero-byte audio file"
    else .ok (splitChunks durationMs fileSizeBytes chunkSizeBytes.toNat)

/-- `split_audio` of the sidecar, which fails first where it cannot probe the file. -/
def splitAudioRust (probe : Except String ℕ) (fileSizeBytes chunkSizeBytes : ℕ) :
    Except String (List AudioChunk) :=
  if chunkSizeBytes = 0 then .error "chunk_size_bytes must be a positive integer"
  else
    match probe with
    | .error error => .error error
    | .ok durationMs =>
      if fileSizeBytes = 0 then .error "cannot split zero-byte audio file"
      else .ok (splitChunks durationMs fileSizeBytes chunkSizeBytes)

section
variable {durationMs chunkMs : ℕ}

/-- From a chunk that starts before the end on, enough chunks tile the rest. -/
theorem splitFrom_tiles (hpos : 0 < chunkMs) {index remaining : ℕ}
    (hstart : index * chunkMs < durationMs) (hend : durationMs ≤ (index + remaining) * chunkMs) :
    Tiles (index * chunkMs) durationMs
      ((splitFrom durationMs chunkMs index remaining).map AudioChunk.range) := by
  induction remaining generalizing index with
  | zero => exact absurd hend (not_le.mpr hstart)
  | succ remaining ih =>
    rw [splitFrom,if_neg (not_le.mpr hstart),List.map_cons]
    have hnext : index * chunkMs < min durationMs ((index + 1) * chunkMs) :=
      lt_min hstart (Nat.mul_lt_mul_of_pos_right (Nat.lt_succ_self index) hpos)
    refine Tiles.cons hnext ?_
    by_cases hlast : (index + 1) * chunkMs < durationMs
    · rw [min_eq_right hlast.le]
      apply ih hlast
      rwa [Nat.add_right_comm index 1 remaining]
    · rw [min_eq_left (not_lt.mp hlast)]
      have hnil : splitFrom durationMs chunkMs (index + 1) remaining = [] := by
        cases remaining with
        | zero => rfl
        | succ remaining => rw [splitFrom,if_pos (not_lt.mp hlast)]
      rw [hnil]
      exact Tiles.nil durationMs

/-- The chunks start one chunk duration after another, and none is longer. -/
theorem splitFrom_offsets {index remaining i : ℕ} {chunk : AudioChunk}
    (h : (splitFrom durationMs chunkMs index remaining)[i]? = some chunk) :
    chunk.startOffsetMs = (index + i) * chunkMs ∧
      chunk.endOffsetMs ≤ chunk.startOffsetMs + chunkMs := by
  induction remaining generalizing index i with
  | zero => cases h
  | succ remaining ih =>
    rw [splitFrom] at h
    split at h
    · cases h
    · cases i with
      | zero =>
        obtain rfl := Option.some.inj h
        refine ⟨rfl,(min_le_right _ _).trans ?_⟩
        rw [Nat.succ_mul]
      | succ i =>
        rw [← Nat.succ_add_eq_add_succ]
        exact ih h

/-- There are chunks enough to reach the end. -/
theorem le_numChunks_mul (hpos : 0 < chunkMs) :
    durationMs ≤ numChunks durationMs chunkMs * chunkMs := by
  have hceil : (durationMs : ℚ) / chunkMs ≤ numChunks durationMs chunkMs := by
    refine (Nat.le_ceil _).trans ?_
    exact_mod_cast le_max_right 1 ⌈(durationMs : ℚ) / chunkMs⌉₊
  have hmul : (durationMs : ℚ) ≤ numChunks durationMs chunkMs * chunkMs :=
    (div_le_iff₀ (by exact_mod_cast hpos)).mp hceil
  exact_mod_cast hmul

end

/-- The chunks tile the episode: they lead from the start to the end, every millisecond is in one
of them only, and each starts one chunk duration after the one before and is no longer than that. -/
theorem splitAudio_tiles {durationMs fileSizeBytes chunkSizeBytes : ℕ} (hduration : 0 < durationMs)
    (hfile : 0 < fileSizeBytes) (hchunk : 0 < chunkSizeBytes) :
    ∃ chunks, splitAudio (some durationMs) fileSizeBytes chunkSizeBytes = .ok chunks ∧
      splitAudioRust (.ok durationMs) fileSizeBytes chunkSizeBytes = .ok chunks ∧
      Tiles 0 durationMs (chunks.map AudioChunk.range) ∧
      (∀ t < durationMs, chunks.countP
        (fun chunk => chunk.startOffsetMs ≤ t ∧ t < chunk.endOffsetMs) = 1) ∧
      (chunks.map AudioChunk.startOffsetMs).Pairwise (· < ·) ∧
      ∀ i chunk, chunks[i]? = some chunk →
        chunk.startOffsetMs = i * chunkDurationMs durationMs fileSizeBytes chunkSizeBytes ∧
          chunk.endOffsetMs ≤ chunk.startOffsetMs +
            chunkDurationMs durationMs fileSizeBytes chunkSizeBytes := by
  have hpos : 0 < chunkDurationMs durationMs fileSizeBytes chunkSizeBytes :=
    Nat.lt_of_lt_of_le Nat.one_pos (le_max_left 1 _)
  have htiles : Tiles 0 durationMs
      ((splitChunks durationMs fileSizeBytes chunkSizeBytes).map AudioChunk.range) := by
    have hstart : 0 * chunkDurationMs durationMs fileSizeBytes chunkSizeBytes < durationMs := by
      rwa [Nat.zero_mul]
    have h := splitFrom_tiles hpos hstart
      ((Nat.zero_add (numChunks durationMs _)).symm ▸ le_numChunks_mul hpos)
    rwa [Nat.zero_mul] at h
  refine ⟨splitChunks durationMs fileSizeBytes chunkSizeBytes,?_,?_,htiles,?_,?_,?_⟩
  · rw [splitAudio]
    simp only [Int.toNat_natCast]
    rw [if_neg (by omega),if_neg (by omega)]
  · rw [splitAudioRust,if_neg (by omega)]
    rw [if_neg (by omega)]
  · intro t ht
    have hcount := htiles.count_eq_one (Nat.zero_le t) ht
    rwa [List.countP_map] at hcount
  · have hstarts := htiles.starts_increasing
    rwa [List.map_map] at hstarts
  · intro i chunk hget
    have hoffsets := splitFrom_offsets hget
    rwa [Nat.zero_add] at hoffsets

/-- Ten milliseconds in chunks of four. -/
theorem splitAudio_tiles_ten : ∃ chunks, splitAudio (some 10) 5 2 = .ok chunks ∧
    chunks.map AudioChunk.range = [(0,4),(4,8),(8,10)] ∧
    Tiles 0 10 (chunks.map AudioChunk.range) := by
  obtain ⟨chunks,hok,-,htiles,-⟩ := splitAudio_tiles (show 0 < 10 by decide)
    (show 0 < 5 by decide) (show 0 < 2 by decide)
  refine ⟨chunks,hok,?_,htiles⟩
  obtain rfl := Except.ok.inj hok
  decide +kernel

end Podly.Transcription
