import Podly.Intervals.Measure

/-! Times of the original audio on the timeline that is left after the ads are cut out. -/
namespace Podly.AdBlocks
open Intervals

/-- The loop of `_map_time_to_edited_timeline`, `map_time_to_edited_timeline`: what was removed
before a time, up to the first window that ends after it. -/
def removedBefore (time : ℚ) : List (ℚ × ℚ) → ℚ
  | [] => 0
  | w::ws =>
    if w.2 ≤ time then w.2 - w.1 + removedBefore time ws
    else if w.1 < time then time - w.1
    else 0

/-- `_map_time_to_edited_timeline`, `map_time_to_edited_timeline`. -/
def mapTimeToEditedTimeline (removedWindows : List (ℚ × ℚ)) (time : ℚ) : ℚ :=
  max 0 (time - removedBefore time removedWindows)

/-- What one removed window leaves of a piece. -/
def leftOf (removed piece : ℚ × ℚ) : List (ℚ × ℚ) :=
  if removed.2 ≤ piece.1 ∨ piece.2 ≤ removed.1 then [piece]
  else (if piece.1 < removed.1 then [(piece.1,removed.1)] else []) ++
    (if removed.2 < piece.2 then [(removed.2,piece.2)] else [])

/-- What one removed window leaves of all pieces. -/
def subtractWindow (remaining : List (ℚ × ℚ)) (removed : ℚ × ℚ) : List (ℚ × ℚ) :=
  (remaining.flatMap (leftOf removed)).filter (fun piece => piece.1 < piece.2)

/-- `_subtract_removed_windows`, `subtract_removed_windows`. -/
def subtractRemovedWindows (window : ℚ × ℚ) (removedWindows : List (ℚ × ℚ)) : List (ℚ × ℚ) :=
  removedWindows.foldl subtractWindow [window]

/-- A window on both timelines. -/
structure EditedWindow where
  editedStartTime : ℚ
  editedEndTime : ℚ
  originalStartTime : ℚ
  originalEndTime : ℚ
deriving DecidableEq

/-- The times as they are shown, given how they are rounded. -/
def EditedWindow.rounded (roundTo : ℚ → ℚ) (w : EditedWindow) : EditedWindow :=
  ⟨roundTo w.editedStartTime,roundTo w.editedEndTime,roundTo w.originalStartTime,
    roundTo w.originalEndTime⟩

/-- The pieces that are left of bleep windows, on both timelines. -/
def editedPieces (bleepWindows removedWindows : List (ℚ × ℚ)) : List EditedWindow :=
  ((sortByKey Prod.fst bleepWindows).flatMap (fun window =>
      (subtractRemovedWindows window removedWindows).map (fun piece =>
        ⟨mapTimeToEditedTimeline removedWindows piece.1,
          mapTimeToEditedTimeline removedWindows piece.2,piece.1,piece.2⟩))).filter
    (fun w => w.editedStartTime < w.editedEndTime)

/-- `build_edited_timeline_bleep_windows` of the sidecar and of the application, which sorts the
windows once more before it subtracts them. -/
def buildEditedTimelineBleepWindows (roundTo : ℚ → ℚ) (bleepWindows removedWindows : List (ℚ × ℚ)) :
    List EditedWindow :=
  (editedPieces bleepWindows (sortByKey Prod.fst removedWindows)).map (EditedWindow.rounded roundTo)

/-- Every removed second counts once: in the time that a time is mapped to, and in the windows that
are bleeped, which hold nothing removed and keep their length. -/
structure CountsOnce (bleepWindows removedWindows : List (ℚ × ℚ)) : Prop where
  mapped : ∀ t, 0 ≤ t →
    (mapTimeToEditedTimeline removedWindows t : ℝ) = t - coveredLength removedWindows 0 t
  bleeped : ∀ w ∈ editedPieces bleepWindows removedWindows,
    (∀ t, w.originalStartTime ≤ t → t < w.originalEndTime → ¬Covers removedWindows t) ∧
    w.editedEndTime - w.editedStartTime = w.originalEndTime - w.originalStartTime

section
variable {w piece v q : ℚ × ℚ} {bleepWindows ws : List (ℚ × ℚ)} {t : ℚ}

/-- Windows that are apart and begin no earlier than the audio are counted once. -/
theorem removedBefore_eq (h : ∀ v ∈ ws, v.1 ≤ v.2) (hsorted : ws.Pairwise (fun v w => v.1 ≤ w.1))
    (hapart : Apart ws) (hstart : ∀ v ∈ ws, v.1 < v.2 → 0 ≤ v.1) :
    (removedBefore t ws : ℝ) = coveredLength ws 0 t := by
  induction ws with
  | nil => simp [removedBefore,coveredLength_nil]
  | cons w ws ih =>
    have hw := h w List.mem_cons_self
    have hwstart := hstart w List.mem_cons_self
    rw [List.pairwise_cons] at hsorted
    rw [Apart,List.pairwise_cons] at hapart
    rw [coveredLength_cons hapart.1,removedBefore]
    have hlast : t < w.2 → coveredLength ws 0 t = 0 := by
      intro hlt
      exact coveredLength_eq_zero (fun v hv hvlt => Or.inr (hlt.le.trans (hapart.1 v hv hvlt)))
    have hrest := ih (fun v hv => h v (List.mem_cons_of_mem w hv)) hsorted.2 hapart.2
      (fun v hv => hstart v (List.mem_cons_of_mem w hv))
    split
    · rename_i hpast
      have hhead : max (min w.2 t - max w.1 0) 0 = w.2 - w.1 := by
        rw [min_eq_left hpast]
        rcases hw.lt_or_eq with hlt | heq
        · rw [max_eq_left (hwstart hlt),max_eq_left (sub_nonneg.mpr hw)]
        · have hzero : w.2 - max w.1 0 ≤ 0 := by
            rw [heq]
            exact sub_nonpos.mpr (le_max_left _ _)
          rw [max_eq_right hzero,heq,sub_self]
      rw [hhead,Rat.cast_add,hrest]
    · rename_i hpast
      rw [hlast (not_le.mp hpast),add_zero,min_eq_right (not_le.mp hpast).le]
      congr 1
      split
      · rename_i hin
        have hwpos := hwstart (hin.trans (not_le.mp hpast))
        rw [max_eq_left hwpos,max_eq_left (sub_nonneg.mpr hin.le)]
      · rename_i hin
        have hzero : t - max w.1 0 ≤ 0 :=
          sub_nonpos.mpr ((not_lt.mp hin).trans (le_max_left _ _))
        exact (max_eq_right hzero).symm

/-- After all windows their lengths are summed. -/
theorem removedBefore_of_past (h : ∀ v ∈ ws, v.2 ≤ t) : removedBefore t ws = summedLength ws := by
  induction ws with
  | nil => rfl
  | cons w ws ih =>
    rw [removedBefore,if_pos (h w List.mem_cons_self),
      ih (fun v hv => h v (List.mem_cons_of_mem w hv))]
    rfl

theorem mem_leftOf (h : q ∈ leftOf v piece) :
    piece.1 ≤ q.1 ∧ q.2 ≤ piece.2 ∧ (q.2 ≤ v.1 ∨ v.2 ≤ q.1) := by
  unfold leftOf at h
  split at h
  · rename_i hapart
    obtain rfl := List.mem_singleton.mp h
    exact ⟨le_rfl,le_rfl,hapart.symm⟩
  · rename_i hmeet
    rw [not_or,not_le,not_le] at hmeet
    rcases List.mem_append.mp h with h | h
    · split at h
      · obtain rfl := List.mem_singleton.mp h
        exact ⟨le_rfl,hmeet.2.le,Or.inl le_rfl⟩
      · exact absurd h List.not_mem_nil
    · split at h
      · obtain rfl := List.mem_singleton.mp h
        exact ⟨hmeet.1.le,le_rfl,Or.inr le_rfl⟩
      · exact absurd h List.not_mem_nil

theorem mem_subtractWindow {remaining : List (ℚ × ℚ)} :
    q ∈ subtractWindow remaining v ↔ q.1 < q.2 ∧ ∃ p ∈ remaining, q ∈ leftOf v p := by
  simp only [subtractWindow,List.mem_filter,List.mem_flatMap,decide_eq_true_eq,and_comm]

/-- A piece of a window holds nothing of what was removed. -/
theorem mem_foldl_subtractWindow {remaining : List (ℚ × ℚ)}
    (h : q ∈ ws.foldl subtractWindow remaining) :
    ∃ p ∈ remaining, p.1 ≤ q.1 ∧ q.2 ≤ p.2 ∧ ∀ v ∈ ws, q.2 ≤ v.1 ∨ v.2 ≤ q.1 := by
  induction ws generalizing remaining with
  | nil => exact ⟨q,h,le_rfl,le_rfl,by simp⟩
  | cons v ws ih =>
    obtain ⟨p,hp,hpq,hqp,hapart⟩ := ih h
    obtain ⟨-,p',hp',hleft⟩ := mem_subtractWindow.mp hp
    obtain ⟨hstart,hend,hv⟩ := mem_leftOf hleft
    refine ⟨p',hp',hstart.trans hpq,hqp.trans hend,?_⟩
    intro u hu
    rcases List.mem_cons.mp hu with rfl | hu
    · exact hv.imp hqp.trans (fun hle => hle.trans hpq)
    · exact hapart u hu

theorem mem_subtractRemovedWindows (h : q ∈ subtractRemovedWindows w ws) :
    w.1 ≤ q.1 ∧ q.2 ≤ w.2 ∧ ∀ v ∈ ws, q.2 ≤ v.1 ∨ v.2 ≤ q.1 := by
  obtain ⟨p,hp,hpq⟩ := mem_foldl_subtractWindow h
  obtain rfl := List.mem_singleton.mp hp
  exact hpq

/-- A time in a piece stays in one when no removed window touches it. -/
theorem exists_mem_leftOf (hq : piece.1 < t ∧ t < piece.2) (hv : t < v.1 ∨ v.2 < t) :
    ∃ q ∈ leftOf v piece, q.1 < t ∧ t < q.2 := by
  unfold leftOf
  split
  · exact ⟨piece,List.mem_singleton_self _,hq⟩
  · rcases hv with hv | hv
    · refine ⟨(piece.1,v.1),?_,hq.1,hv⟩
      rw [if_pos (hq.1.trans hv)]
      exact List.mem_append_left _ (List.mem_singleton_self _)
    · refine ⟨(v.2,piece.2),?_,hv,hq.2⟩
      rw [if_pos (hv.trans hq.2)]
      exact List.mem_append_right _ (List.mem_singleton_self _)

theorem exists_mem_foldl_subtractWindow {remaining : List (ℚ × ℚ)} (hpiece : piece ∈ remaining)
    (hq : piece.1 < t ∧ t < piece.2) (h : ∀ v ∈ ws, t < v.1 ∨ v.2 < t) :
    ∃ q ∈ ws.foldl subtractWindow remaining, q.1 < t ∧ t < q.2 := by
  induction ws generalizing remaining piece with
  | nil => exact ⟨piece,hpiece,hq⟩
  | cons v ws ih =>
    obtain ⟨p,hp,hpt⟩ := exists_mem_leftOf hq (h v List.mem_cons_self)
    have hmem : p ∈ subtractWindow remaining v :=
      mem_subtractWindow.mpr ⟨hpt.1.trans hpt.2,piece,hpiece,hp⟩
    exact ih hmem hpt (fun u hu => h u (List.mem_cons_of_mem v hu))

theorem removedBefore_nonneg (h : ∀ v ∈ ws, v.1 ≤ v.2) : 0 ≤ removedBefore t ws := by
  induction ws with
  | nil => exact le_rfl
  | cons w ws ih =>
    have hrest := ih (fun v hv => h v (List.mem_cons_of_mem w hv))
    rw [removedBefore]
    split
    · exact add_nonneg (sub_nonneg.mpr (h w List.mem_cons_self)) hrest
    · split
      · rename_i hin
        exact sub_nonneg.mpr hin.le
      · exact le_rfl

theorem mapTimeToEditedTimeline_of_nonpos (h : ∀ v ∈ ws, v.1 ≤ v.2) (ht : t ≤ 0) :
    mapTimeToEditedTimeline ws t = 0 :=
  max_eq_left (sub_nonpos.mpr (ht.trans (removedBefore_nonneg h)))

theorem mapTimeToEditedTimeline_eq (h : ∀ v ∈ ws, v.1 ≤ v.2)
    (hsorted : ws.Pairwise (fun v w => v.1 ≤ w.1)) (hapart : Apart ws)
    (hstart : ∀ v ∈ ws, v.1 < v.2 → 0 ≤ v.1) (ht : 0 ≤ t) :
    (mapTimeToEditedTimeline ws t : ℝ) = t - coveredLength ws 0 t := by
  have hremoved := removedBefore_eq h hsorted hapart hstart (t := t)
  have hle : coveredLength ws 0 t ≤ ((t - 0 : ℚ) : ℝ) := coveredLength_le_sub ht
  rw [← hremoved] at hle ⊢
  have hle' : removedBefore t ws ≤ t := by
    rw [sub_zero] at hle
    exact_mod_cast hle
  rw [mapTimeToEditedTimeline,max_eq_right (sub_nonneg.mpr hle'),Rat.cast_sub]

/-- A piece of which nothing is removed keeps its length. -/
theorem mapTimeToEditedTimeline_sub (h : ∀ v ∈ ws, v.1 ≤ v.2)
    (hsorted : ws.Pairwise (fun v w => v.1 ≤ w.1)) (hapart : Apart ws)
    (hstart : ∀ v ∈ ws, v.1 < v.2 → 0 ≤ v.1) (ht : 0 ≤ q.1) (hq : q.1 ≤ q.2)
    (hkept : ∀ v ∈ ws, q.2 ≤ v.1 ∨ v.2 ≤ q.1) :
    mapTimeToEditedTimeline ws q.2 - mapTimeToEditedTimeline ws q.1 = q.2 - q.1 := by
  have hfirst := mapTimeToEditedTimeline_eq h hsorted hapart hstart ht
  have hlast := mapTimeToEditedTimeline_eq h hsorted hapart hstart (ht.trans hq)
  have hzero : coveredLength ws q.1 q.2 = 0 :=
    coveredLength_eq_zero (fun v hv _ => (hkept v hv).symm)
  rw [coveredLength_add ht hq,hzero,add_zero] at hlast
  have hsub : ((mapTimeToEditedTimeline ws q.2 - mapTimeToEditedTimeline ws q.1 : ℚ) : ℝ) =
      (q.2 - q.1 : ℚ) := by
    rw [Rat.cast_sub,Rat.cast_sub,hfirst,hlast]
    ring
  exact_mod_cast hsub

/-- Before the first removed window the time stays as it is. -/
theorem mapTimeToEditedTimeline_eq_self (h : ∀ v ∈ ws, v.1 ≤ v.2)
    (hsorted : ws.Pairwise (fun v w => v.1 ≤ w.1)) (hapart : Apart ws)
    (hstart : ∀ v ∈ ws, v.1 < v.2 → 0 ≤ v.1) (ht : 0 ≤ t)
    (hkept : ∀ v ∈ ws, t ≤ v.1 ∨ v.2 ≤ 0) : mapTimeToEditedTimeline ws t = t := by
  have hsub := mapTimeToEditedTimeline_sub (q := (0,t)) h hsorted hapart hstart le_rfl ht hkept
  rwa [mapTimeToEditedTimeline_of_nonpos h le_rfl,sub_zero,sub_zero] at hsub

theorem mapTimeToEditedTimeline_mono {s : ℚ} (h : ∀ v ∈ ws, v.1 ≤ v.2)
    (hsorted : ws.Pairwise (fun v w => v.1 ≤ w.1)) (hapart : Apart ws)
    (hstart : ∀ v ∈ ws, v.1 < v.2 → 0 ≤ v.1) (hst : s ≤ t) :
    mapTimeToEditedTimeline ws s ≤ mapTimeToEditedTimeline ws t := by
  rcases le_total s 0 with hneg | hpos
  · rw [mapTimeToEditedTimeline_of_nonpos h hneg]
    exact le_max_left _ _
  · have hfirst := mapTimeToEditedTimeline_eq h hsorted hapart hstart hpos
    have hlast := mapTimeToEditedTimeline_eq h hsorted hapart hstart (hpos.trans hst)
    have hle : coveredLength ws s t ≤ ((t - s : ℚ) : ℝ) := coveredLength_le_sub hst
    rw [coveredLength_add hpos hst] at hlast
    rw [Rat.cast_sub] at hle
    have hmono : (mapTimeToEditedTimeline ws s : ℝ) ≤ mapTimeToEditedTimeline ws t := by
      rw [hfirst,hlast]
      linarith
    exact_mod_cast hmono

/-- Sorting windows again that are sorted changes nothing. -/
theorem buildEditedTimelineBleepWindows_eq (roundTo : ℚ → ℚ)
    (hsorted : ws.Pairwise (fun v w => v.1 ≤ w.1)) :
    buildEditedTimelineBleepWindows roundTo bleepWindows ws =
      (editedPieces bleepWindows ws).map (EditedWindow.rounded roundTo) := by
  rw [buildEditedTimelineBleepWindows,sortByKey_of_sorted hsorted]

/-- A piece that is bleeped is one of a window, and is longer than nothing. -/
theorem mem_editedPieces {e : EditedWindow} : e ∈ editedPieces bleepWindows ws ↔
    ∃ w ∈ bleepWindows, ∃ q ∈ subtractRemovedWindows w ws,
      e = ⟨mapTimeToEditedTimeline ws q.1,mapTimeToEditedTimeline ws q.2,q.1,q.2⟩ ∧
      mapTimeToEditedTimeline ws q.1 < mapTimeToEditedTimeline ws q.2 := by
  simp only [editedPieces,List.mem_filter,List.mem_flatMap,List.mem_map,mem_sortByKey,
    decide_eq_true_eq]
  constructor
  · rintro ⟨⟨w,hw,q,hq,rfl⟩,hlt⟩
    exact ⟨w,hw,q,hq,rfl,hlt⟩
  · rintro ⟨w,hw,q,hq,rfl,hlt⟩
    exact ⟨⟨w,hw,q,hq,rfl⟩,hlt⟩

/-- Times are mapped right when no removed second is counted twice. -/
theorem mapped_iff (h : ∀ v ∈ ws, v.1 ≤ v.2) (hsorted : ws.Pairwise (fun v w => v.1 ≤ w.1)) :
    (∀ t, 0 ≤ t → (mapTimeToEditedTimeline ws t : ℝ) = t - coveredLength ws 0 t) ↔
      Apart ws ∧ ∀ v ∈ ws, v.1 < v.2 → 0 ≤ v.1 := by
  constructor
  · intro hmapped
    by_contra hlost
    obtain ⟨last,hlast⟩ : ∃ last, ∀ v ∈ ws, v.2 ≤ last := by
      obtain ⟨last,hlast⟩ := (ws.map Prod.snd).toFinset.bddAbove
      refine ⟨last,fun v hv => hlast ?_⟩
      exact_mod_cast List.mem_toFinset.mpr (List.mem_map_of_mem hv)
    -- After every window and after the sum of their lengths the mapped time is off by the loss.
    have hsum : 0 ≤ summedLength ws := by
      rw [← removedBefore_of_past (t := last) hlast]
      exact removedBefore_nonneg h
    have hpast : ∀ v ∈ ws, v.2 ≤ max last (summedLength ws) :=
      fun v hv => (hlast v hv).trans (le_max_left _ _)
    have hlt := coveredLength_lt_summedLength h hpast hsorted hlost
    have hmap := hmapped _ (hsum.trans (le_max_right last _))
    rw [mapTimeToEditedTimeline,removedBefore_of_past hpast,
      max_eq_right (sub_nonneg.mpr (le_max_right _ _)),Rat.cast_sub] at hmap
    linarith
  · rintro ⟨hapart,hstart⟩ t ht
    exact mapTimeToEditedTimeline_eq h hsorted hapart hstart ht

/-- A bleeped window that begins before the audio is cut at its beginning, when pieces keep their
length. -/
theorem exists_removed_at_start (h : ∀ v ∈ ws, v.1 ≤ v.2)
    (hsorted : ws.Pairwise (fun v w => v.1 ≤ w.1)) (hapart : Apart ws)
    (hstart : ∀ v ∈ ws, v.1 < v.2 → 0 ≤ v.1)
    (hsame : ∀ e ∈ editedPieces bleepWindows ws,
      e.editedEndTime - e.editedStartTime = e.originalEndTime - e.originalStartTime)
    (hw : w ∈ bleepWindows) (hneg : w.1 < 0) (hpos : 0 < w.2) :
    ∃ v ∈ ws, v.1 ≤ 0 ∧ 0 ≤ v.2 := by
  by_contra hnone
  have hoff : ∀ v ∈ ws, 0 < v.1 ∨ v.2 < 0 := by
    intro v hv
    by_contra hin
    rw [not_or,not_lt,not_lt] at hin
    exact hnone ⟨v,hv,hin⟩
  obtain ⟨q,hq,hqneg,hqpos⟩ :=
    exists_mem_foldl_subtractWindow (List.mem_singleton_self w) ⟨hneg,hpos⟩ hoff
  have hkept := (mem_subtractRemovedWindows hq).2.2
  have hfirst := mapTimeToEditedTimeline_of_nonpos h hqneg.le
  have hlast := mapTimeToEditedTimeline_eq_self h hsorted hapart hstart hqpos.le
    (fun v hv => (hkept v hv).imp_right (fun hle => hle.trans hqneg.le))
  have hmem : ⟨mapTimeToEditedTimeline ws q.1,mapTimeToEditedTimeline ws q.2,q.1,q.2⟩ ∈
      editedPieces bleepWindows ws := by
    refine mem_editedPieces.mpr ⟨w,hw,q,hq,rfl,?_⟩
    rw [hfirst,hlast]
    exact hqpos
  have hlength := hsame _ hmem
  rw [hfirst,hlast] at hlength
  linarith

/-- A bleeped piece has nothing removed in it. -/
theorem not_removed_of_mem_editedPieces {e : EditedWindow} (he : e ∈ editedPieces bleepWindows ws)
    (hfirst : e.originalStartTime ≤ t) (hlast : t < e.originalEndTime) : ¬Covers ws t := by
  obtain ⟨w,-,q,hq,rfl,-⟩ := mem_editedPieces.mp he
  rintro ⟨v,hv,hvt,htv⟩
  rcases (mem_subtractRemovedWindows hq).2.2 v hv with hle | hle
  · exact absurd (hle.trans hvt) (not_le.mpr hlast)
  · exact absurd (hle.trans hfirst) (not_le.mpr htv)

/-- A bleeped piece keeps its length, when windows are cut where the audio begins. -/
theorem editedLength_of_mem_editedPieces {e : EditedWindow} (h : ∀ v ∈ ws, v.1 ≤ v.2)
    (hsorted : ws.Pairwise (fun v w => v.1 ≤ w.1)) (hapart : Apart ws)
    (hstart : ∀ v ∈ ws, v.1 < v.2 → 0 ≤ v.1)
    (hbleeps : ∀ w ∈ bleepWindows, w.1 < 0 → 0 < w.2 → ∃ v ∈ ws, v.1 ≤ 0 ∧ 0 ≤ v.2)
    (he : e ∈ editedPieces bleepWindows ws) :
    e.editedEndTime - e.editedStartTime = e.originalEndTime - e.originalStartTime := by
  obtain ⟨w,hw,q,hq,rfl,hlt⟩ := mem_editedPieces.mp he
  obtain ⟨hqstart,hqend,hkept⟩ := mem_subtractRemovedWindows hq
  rcases lt_or_ge q.1 0 with hneg | hpos
  · -- Such a piece ends at the beginning of the audio, so that nothing of it is left.
    have hqneg : q.2 ≤ 0 := by
      by_contra hqpos
      obtain ⟨v,hv,hvneg,hvpos⟩ := hbleeps w hw (hqstart.trans_lt hneg)
        ((not_le.mp hqpos).trans_le hqend)
      rcases hkept v hv with hle | hle
      · exact hqpos (hle.trans hvneg)
      · exact absurd (hvpos.trans hle) (not_le.mpr hneg)
    rw [mapTimeToEditedTimeline_of_nonpos h hneg.le,
      mapTimeToEditedTimeline_of_nonpos h hqneg] at hlt
    exact absurd hlt (lt_irrefl 0)
  · have hq : q.1 ≤ q.2 := by
      by_contra hback
      exact absurd (mapTimeToEditedTimeline_mono h hsorted hapart hstart (not_le.mp hback).le)
        (not_le.mpr hlt)
    exact mapTimeToEditedTimeline_sub h hsorted hapart hstart hpos hq hkept

/-- Every removed second counts once exactly when the removed windows lie apart on the audio and a
bleeped window that begins before it is cut at its beginning. -/
theorem countsOnce_iff (h : ∀ v ∈ ws, v.1 ≤ v.2)
    (hsorted : ws.Pairwise (fun v w => v.1 ≤ w.1)) :
    CountsOnce bleepWindows ws ↔ (Apart ws ∧ ∀ v ∈ ws, v.1 < v.2 → 0 ≤ v.1) ∧
      ∀ w ∈ bleepWindows, w.1 < 0 → 0 < w.2 → ∃ v ∈ ws, v.1 ≤ 0 ∧ 0 ≤ v.2 := by
  constructor
  · intro hcounts
    have hws := (mapped_iff h hsorted).mp hcounts.mapped
    refine ⟨hws,fun w hw hneg hpos => ?_⟩
    exact exists_removed_at_start h hsorted hws.1 hws.2 (fun e he => (hcounts.bleeped e he).2)
      hw hneg hpos
  · rintro ⟨hws,hbleeps⟩
    refine ⟨(mapped_iff h hsorted).mpr hws,fun e he => ⟨?_,?_⟩⟩
    · intro t hfirst hlast
      exact not_removed_of_mem_editedPieces he hfirst hlast
    · exact editedLength_of_mem_editedPieces h hsorted hws.1 hws.2 hbleeps he

/-- Two ads that lie apart. -/
theorem countsOnce_twoAds : (([(0,10),(20,30)] : List (ℚ × ℚ)).Pairwise (fun v w => v.1 ≤ w.1) ∧
    CountsOnce [(5,25)] [(0,10),(20,30)]) := by
  refine ⟨by simp,(countsOnce_iff (by simp; norm_num) (by simp)).mpr ⟨⟨?_,by simp⟩,by simp⟩⟩
  simp [Apart]
  norm_num

/-- One ad inside another is counted twice: of a hundred and fifty seconds forty are left, though
less than a hundred and ten are removed. -/
theorem not_countsOnce_nested :
    (([(0,100),(10,20)] : List (ℚ × ℚ)).Pairwise (fun v w => v.1 ≤ w.1)) ∧
      ¬CountsOnce [] [(0,100),(10,20)] := by
  refine ⟨by simp,fun hcounts => ?_⟩
  have hmapped := hcounts.mapped 150 (by norm_num)
  have hlost : coveredLength [(0,100),(10,20)] 0 150 <
      summedLength [((0 : ℚ),(100 : ℚ)),(10,20)] := by
    refine coveredLength_lt_summedLength (by simp; norm_num) (by simp; norm_num) (by simp) ?_
    rintro ⟨hapart,-⟩
    simp only [Apart,List.pairwise_cons,List.mem_singleton,forall_eq] at hapart
    exact absurd (hapart.1 (by norm_num)) (by norm_num)
  norm_num [mapTimeToEditedTimeline,removedBefore,summedLength] at hmapped hlost
  linarith

end

end Podly.AdBlocks
