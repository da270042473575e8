import Mathlib.Algebra.Order.Ring.Rat
import Mathlib.Data.List.Dedup
import Mathlib.Tactic.Linarith
import Podly.Lists.Bisect
import Podly.WordBoundary.Resolve

/-! The index over the segments of a transcript: the segment nearest to a time, and the segments
around it, by bisection. -/
namespace Podly.Chapters
open Lists WordBoundary

/-- How far a time lies from the nearer end of a segment. -/
def endDistance (timeSeconds : ℚ) (s : WbSegment) : ℚ :=
  min |timeSeconds - s.startTime| |timeSeconds - s.endTime|

/-- The segment that `_SegmentIndex.nearest_segment_seq_for_time` returns the number of. -/
def nearestSegmentForTime (segments : List WbSegment) (timeMs : ℤ) : Option WbSegment :=
  let timeSeconds : ℚ := timeMs / 1000
  let idx := bisectRight (segments.map WbSegment.startTime) timeSeconds
  match (segments.take idx).getLast?, (segments.drop idx).head? with
  | some before, some next =>
    if before.startTime ≤ timeSeconds ∧ timeSeconds ≤ before.endTime then some before
    else if endDistance timeSeconds next < endDistance timeSeconds before then some next
    else some before
  | some before, none => some before
  | none, next => next

/-- `_SegmentIndex.nearest_segment_seq_for_time`. -/
def nearestSegmentSeqForTime (segments : List WbSegment) (timeMs : ℤ) : Option ℤ :=
  (nearestSegmentForTime segments timeMs).map WbSegment.sequenceNum

/-- `_SegmentIndex.context_segments_around_time`. -/
def contextSegmentsAroundTime (segments : List WbSegment) (timeSeconds windowSeconds : ℚ) :
    List WbSegment :=
  let window := max 0 windowSeconds
  let startTime := timeSeconds - window
  let endTime := timeSeconds + window
  let right := bisectRight (segments.map WbSegment.startTime) endTime
  let selected := (segments.take right).rtakeWhile (fun s => decide (startTime ≤ s.endTime))
  if selected = [] then segments.take 1 else selected

/-- The segment is being spoken at a time. -/
def Holds (t : ℚ) (s : WbSegment) : Prop := s.startTime ≤ t ∧ t ≤ s.endTime

instance (t : ℚ) (s : WbSegment) : Decidable (Holds t s) := inferInstanceAs (Decidable (_ ∧ _))

/-- How far a segment lies from a time. -/
def distance (t : ℚ) (s : WbSegment) : ℚ := max 0 (max (s.startTime - t) (t - s.endTime))

/-- The segment meets a window. -/
def Meets (start stop : ℚ) (s : WbSegment) : Prop := s.startTime ≤ stop ∧ start ≤ s.endTime

instance (start stop : ℚ) (s : WbSegment) : Decidable (Meets start stop s) :=
  inferInstanceAs (Decidable (_ ∧ _))

/-- What a scan over all segments would find nearest to a time: one that is being spoken then if
there is any, and otherwise one of least distance. -/
def NearestByScan (segments : List WbSegment) (t : ℚ) (found : WbSegment) : Prop :=
  found ∈ segments ∧ if ∃ s ∈ segments, Holds t s then Holds t found
    else ∀ s ∈ segments, distance t found ≤ distance t s

/-- What a scan over all segments would find around a time: those that meet the window, or else the
first one. -/
def contextByScan (segments : List WbSegment) (t w : ℚ) : List WbSegment :=
  let met := segments.filter (fun s => decide (Meets (t - w) (t + w) s))
  if met = [] then segments.take 1 else met

/-- The index answers as a scan would. -/
structure AnswersLikeScan (segments : List WbSegment) (timeMs : ℤ) (t w : ℚ) : Prop where
  nearest : segments ≠ [] → ∃ found, nearestSegmentForTime segments timeMs = some found ∧
    NearestByScan segments (timeMs / 1000) found
  context : contextSegmentsAroundTime segments t w = contextByScan segments t w

/-- The segments that start by a time, and those that start later. -/
def started (segments : List WbSegment) (t : ℚ) : List WbSegment :=
  segments.filter (fun s => decide (s.startTime ≤ t))

def later (segments : List WbSegment) (t : ℚ) : List WbSegment :=
  segments.filter (fun s => decide (t < s.startTime))

/-- The last segment that starts by a time reaches it, or every one that ends after that segment
ends before the time and no nearer to it than the next segment starts. -/
def LastReaches (segments : List WbSegment) (t : ℚ) : Prop :=
  ∀ last ∈ (started segments t).getLast?, t ≤ last.endTime ∨
    ∀ s ∈ started segments t, last.endTime < s.endTime →
      s.endTime < t ∧ ∃ next ∈ (later segments t).head?, next.startTime - t ≤ t - s.endTime

/-- No segment that meets a window is followed by one that starts by its end and does not meet it,
unless the first segment is the only one that meets it. -/
def WindowTogether (segments : List WbSegment) (start stop : ℚ) : Prop :=
  (started segments stop).Pairwise (fun a b => start ≤ a.endTime → start ≤ b.endTime) ∨
    ∀ s ∈ segments.tail, ¬Meets start stop s

section
variable {segments : List WbSegment} {timeMs : ℤ} {t w start stop : ℚ} {s last next : WbSegment}

theorem distance_of_ended (h : s.startTime ≤ s.endTime) (hend : s.endTime < t) :
    distance t s = t - s.endTime := by
  rw [distance,max_eq_right (by linarith : s.startTime - t ≤ t - s.endTime),
    max_eq_right (by linarith)]

theorem distance_of_later (h : s.startTime ≤ s.endTime) (hstart : t < s.startTime) :
    distance t s = s.startTime - t := by
  rw [distance,max_eq_left (by linarith : t - s.endTime ≤ s.startTime - t),
    max_eq_right (by linarith)]

/-- Off the segment the distance to its nearer end is the distance to it. -/
theorem endDistance_eq (h : s.startTime ≤ s.endTime) (hs : ¬Holds t s) :
    endDistance t s = distance t s := by
  rw [endDistance]
  rcases lt_or_ge t s.startTime with hlt | hge
  · rw [distance_of_later h hlt,abs_sub_comm,abs_of_pos (by linarith : 0 < s.startTime - t),
      abs_sub_comm,abs_of_pos (by linarith : 0 < s.endTime - t),min_eq_left (by linarith)]
  · have hend : s.endTime < t := lt_of_not_ge fun hle => hs ⟨hge,hle⟩
    rw [distance_of_ended h hend,abs_of_nonneg (by linarith : 0 ≤ t - s.startTime),
      abs_of_pos (by linarith : 0 < t - s.endTime),min_eq_right (by linarith)]

theorem mem_started : s ∈ started segments t ↔ s ∈ segments ∧ s.startTime ≤ t := by
  simp [started]

theorem mem_later : s ∈ later segments t ↔ s ∈ segments ∧ t < s.startTime := by
  simp [later]

theorem le_of_mem_later (hsorted : segments.Pairwise (fun a b => a.startTime ≤ b.startTime))
    (hnext : next ∈ (later segments t).head?) (hs : s ∈ later segments t) :
    next.startTime ≤ s.startTime := by
  have hlater : (later segments t).Pairwise (fun a b => a.startTime ≤ b.startTime) :=
    hsorted.sublist List.filter_sublist
  obtain ⟨rest,hrest⟩ := List.head?_eq_some_iff.mp hnext
  rw [hrest] at hlater hs
  rcases List.mem_cons.mp hs with rfl | hs
  · exact le_rfl
  · exact (List.pairwise_cons.mp hlater).1 s hs

/-- Where a segment starts later, the first of those starts by then. -/
theorem exists_next (hsorted : segments.Pairwise (fun a b => a.startTime ≤ b.startTime))
    (hs : s ∈ segments) (h : t < s.startTime) :
    ∃ next ∈ (later segments t).head?, next.startTime ≤ s.startTime := by
  have hlater := mem_later.mpr ⟨hs,h⟩
  obtain ⟨next,hnext⟩ := Option.isSome_iff_exists.mp
    (List.isSome_head?.mpr (List.ne_nil_of_mem hlater))
  exact ⟨next,hnext,le_of_mem_later hsorted hnext hlater⟩

/-- Before all segments the first one is the nearest. -/
theorem nearestByScan_first (hsorted : segments.Pairwise (fun a b => a.startTime ≤ b.startTime))
    (hlong : ∀ s ∈ segments, s.startTime ≤ s.endTime) (hlater : ∀ s ∈ segments, t < s.startTime)
    {first : WbSegment} (hfirst : first ∈ (later segments t).head?) :
    NearestByScan segments t first := by
  have hmem := (mem_later.mp (List.mem_of_mem_head? hfirst)).1
  refine ⟨hmem,?_⟩
  rw [if_neg (by
    rintro ⟨s,hs,hheld⟩
    exact absurd hheld.1 (hlater s hs).not_ge)]
  intro s hs
  rw [distance_of_later (hlong _ hmem) (hlater _ hmem),
    distance_of_later (hlong s hs) (hlater s hs)]
  have := le_of_mem_later hsorted hfirst (mem_later.mpr ⟨hs,hlater s hs⟩)
  linarith

/-- Where the last segment that starts by a time has ended, the nearer one of it and the next
segment is nearest exactly when no segment before it lies nearer. -/
theorem nearestByScan_iff
    (hsorted : segments.Pairwise (fun a b => a.startTime ≤ b.startTime))
    (hlong : ∀ s ∈ segments, s.startTime ≤ s.endTime)
    (hlast : last ∈ (started segments t).getLast?) (hended : last.endTime < t) {found : WbSegment}
    (hle : distance t found ≤ distance t last)
    (hleNext : ∀ next ∈ (later segments t).head?, distance t found ≤ distance t next)
    (hone : found = last ∨ found ∈ (later segments t).head?) :
    NearestByScan segments t found ↔ ∀ s ∈ started segments t, last.endTime < s.endTime →
      s.endTime < t ∧ ∃ next ∈ (later segments t).head?, next.startTime - t ≤ t - s.endTime := by
  have hlastMem := (mem_started.mp (List.mem_of_getLast? hlast)).1
  have hmem : found ∈ segments := by
    rcases hone with rfl | hfound
    · exact hlastMem
    · exact (mem_later.mp (List.mem_of_mem_head? hfound)).1
  have hnot : ¬Holds t found := by
    rintro ⟨hstart,hend⟩
    rcases hone with rfl | hfound
    · linarith
    · linarith [(mem_later.mp (List.mem_of_mem_head? hfound)).2]
  have hlastDistance := distance_of_ended (hlong last hlastMem) hended
  constructor
  · rintro ⟨-,hscan⟩ s hs hlonger
    obtain ⟨hsmem,hstart⟩ := mem_started.mp hs
    split_ifs at hscan with hheld
    · exact absurd hscan hnot
    · have hend : s.endTime < t := lt_of_not_ge fun h => hheld ⟨s,hsmem,hstart,h⟩
      refine ⟨hend,?_⟩
      have hnearer := hscan s hsmem
      rw [distance_of_ended (hlong s hsmem) hend] at hnearer
      rcases hone with rfl | hfound
      · rw [hlastDistance] at hnearer
        linarith
      · obtain ⟨hfoundMem,hfoundStart⟩ := mem_later.mp (List.mem_of_mem_head? hfound)
        rw [distance_of_later (hlong found hfoundMem) hfoundStart] at hnearer
        exact ⟨found,hfound,hnearer⟩
  · intro hlonger
    have hheld : ¬∃ s ∈ segments, Holds t s := by
      rintro ⟨s,hsmem,hstart,hend⟩
      have := (hlonger s (mem_started.mpr ⟨hsmem,hstart⟩) (hended.trans_le hend)).1
      linarith
    refine ⟨hmem,?_⟩
    rw [if_neg hheld]
    intro s hsmem
    rcases lt_or_ge t s.startTime with hlater | hstarted
    · obtain ⟨next,hnext,hfirst⟩ := exists_next hsorted hsmem hlater
      obtain ⟨hnextMem,hnextStart⟩ := mem_later.mp (List.mem_of_mem_head? hnext)
      have hnear := hleNext next hnext
      rw [distance_of_later (hlong next hnextMem) hnextStart] at hnear
      rw [distance_of_later (hlong s hsmem) hlater]
      linarith
    · rcases lt_or_ge last.endTime s.endTime with hlongEnd | hshort
      · obtain ⟨hend,next,hnext,hnear⟩ := hlonger s (mem_started.mpr ⟨hsmem,hstarted⟩) hlongEnd
        obtain ⟨hnextMem,hnextStart⟩ := mem_later.mp (List.mem_of_mem_head? hnext)
        have hfound := hleNext next hnext
        rw [distance_of_later (hlong next hnextMem) hnextStart] at hfound
        rw [distance_of_ended (hlong s hsmem) hend]
        linarith
      · rw [distance_of_ended (hlong s hsmem) (hshort.trans_lt hended)]
        linarith

/-- Bisection finds the last segment that starts by a time and the first one that starts later. -/
theorem nearestSegmentForTime_eq
    (hsorted : segments.Pairwise (fun a b => a.startTime ≤ b.startTime)) :
    nearestSegmentForTime segments timeMs =
      match (started segments (timeMs / 1000)).getLast?, (later segments (timeMs / 1000)).head? with
      | some before, some next =>
        if Holds (timeMs / 1000) before then some before
        else if endDistance (timeMs / 1000) next < endDistance (timeMs / 1000) before then some next
        else some before
      | some before, none => some before
      | none, next => next := by
  obtain ⟨htake,hdrop⟩ := take_drop_bisectRight (x := (timeMs / 1000 : ℚ)) hsorted
  rw [nearestSegmentForTime,htake,hdrop]
  rfl

theorem nearest_iff (hsorted : segments.Pairwise (fun a b => a.startTime ≤ b.startTime))
    (hlong : ∀ s ∈ segments, s.startTime ≤ s.endTime) (hne : segments ≠ []) :
    (∃ found, nearestSegmentForTime segments timeMs = some found ∧
      NearestByScan segments (timeMs / 1000) found) ↔ LastReaches segments (timeMs / 1000) := by
  rw [nearestSegmentForTime_eq hsorted]
  generalize ((timeMs : ℚ) / 1000) = t
  cases hlast : (started segments t).getLast? with
  | none =>
    -- no segment has started: the first one of all is next and nearest
    have hstarted := List.getLast?_eq_none_iff.mp hlast
    have hlater : ∀ s ∈ segments, t < s.startTime := by
      intro s hs
      by_contra hle
      have hmem := mem_started.mpr ⟨hs,not_lt.mp hle⟩
      rw [hstarted] at hmem
      cases hmem
    obtain ⟨s,hs⟩ := List.exists_mem_of_ne_nil _ hne
    obtain ⟨first,hfirst,-⟩ := exists_next hsorted hs (hlater s hs)
    refine iff_of_true ⟨first,?_,nearestByScan_first hsorted hlong hlater hfirst⟩
      (by rw [LastReaches,hlast]; simp)
    rw [Option.mem_def.mp hfirst]
  | some last =>
    obtain ⟨hmem,hstart⟩ := mem_started.mp (List.mem_of_getLast? hlast)
    have hreaches : LastReaches segments t ↔ t ≤ last.endTime ∨
        ∀ s ∈ started segments t, last.endTime < s.endTime →
          s.endTime < t ∧ ∃ next ∈ (later segments t).head?, next.startTime - t ≤ t - s.endTime := by
      rw [LastReaches,hlast]
      simp
    rw [hreaches]
    by_cases hheld : t ≤ last.endTime
    · have hlastHolds : Holds t last := ⟨hstart,hheld⟩
      refine iff_of_true ⟨last,?_,hmem,?_⟩ (.inl hheld)
      · cases (later segments t).head? with
        | none => rfl
        | some next => exact if_pos hlastHolds
      · rw [if_pos ⟨last,hmem,hlastHolds⟩]
        exact hlastHolds
    · have hended := not_le.mp hheld
      have hnot : ¬Holds t last := fun h => hheld h.2
      simp only [hheld,false_or]
      cases hnext : (later segments t).head? with
      | none =>
        simp only [Option.some.injEq,exists_eq_left']
        rw [nearestByScan_iff hsorted hlong hlast hended le_rfl (by simp [hnext]) (.inl rfl),hnext]
      | some next =>
        obtain ⟨hnextMem,hnextStart⟩ := mem_later.mp (List.mem_of_mem_head? hnext)
        have hnextNot : ¬Holds t next := fun h => absurd h.1 hnextStart.not_ge
        simp only [if_neg hnot,endDistance_eq (hlong last hmem) hnot,
          endDistance_eq (hlong next hnextMem) hnextNot]
        split_ifs with hcloser
        · simp only [Option.some.injEq,exists_eq_left']
          rw [nearestByScan_iff hsorted hlong hlast hended hcloser.le
            (by simp [hnext]) (.inr hnext),hnext]
        · simp only [Option.some.injEq,exists_eq_left']
          rw [nearestByScan_iff hsorted hlong hlast hended le_rfl
            (by simpa [hnext] using hcloser) (.inl rfl),hnext]

theorem contextSegmentsAroundTime_eq
    (hsorted : segments.Pairwise (fun a b => a.startTime ≤ b.startTime)) (hw : 0 ≤ w) :
    contextSegmentsAroundTime segments t w =
      if (started segments (t + w)).rtakeWhile (fun s => decide (t - w ≤ s.endTime)) = [] then
        segments.take 1
      else (started segments (t + w)).rtakeWhile (fun s => decide (t - w ≤ s.endTime)) := by
  rw [contextSegmentsAroundTime,max_eq_right hw,(take_drop_bisectRight hsorted).1]
  rfl

theorem filter_meets : segments.filter (fun s => decide (Meets start stop s)) =
    (started segments stop).filter (fun s => decide (start ≤ s.endTime)) := by
  rw [started,List.filter_filter]
  apply List.filter_congr
  intro s _
  rw [← Bool.decide_and]
  exact decide_eq_decide.mpr and_comm

/-- Only the first segment meets a window exactly when the met ones are the first one. -/
theorem filter_eq_take_one {p : WbSegment → Bool} (hne : segments.filter p ≠ []) :
    segments.take 1 = segments.filter p ↔ ∀ s ∈ segments.tail, ¬p s := by
  cases segments with
  | nil => exact absurd rfl hne
  | cons first rest =>
    simp only [List.take_succ_cons,List.take_zero,List.tail_cons]
    by_cases hfirst : p first = true
    · rw [List.filter_cons_of_pos hfirst,List.cons_eq_cons,eq_comm (a := []),
        List.filter_eq_nil_iff]
      simp
    · rw [List.filter_cons_of_neg hfirst] at hne ⊢
      constructor
      · intro h
        have hmem : first ∈ rest.filter p := h ▸ List.mem_singleton_self first
        exact absurd (List.mem_filter.mp hmem).2 hfirst
      · intro h
        exact absurd (List.filter_eq_nil_iff.mpr h) hne

/-- The sweep and the scan agree when the sweep finds all that is met, or when only the first
segment is met. -/
theorem sweep_eq_iff {p m : WbSegment → Bool} {starting : List WbSegment}
    (hsub : starting.Sublist segments) (hmet : starting.filter p = segments.filter m) :
    (if starting.rtakeWhile p = [] then segments.take 1 else starting.rtakeWhile p) =
        (if segments.filter m = [] then segments.take 1 else segments.filter m) ↔
      starting.rtakeWhile p = segments.filter m ∨ ∀ s ∈ segments.tail, ¬m s := by
  by_cases hall : starting.rtakeWhile p = segments.filter m
  · simp [hall]
  · have hpairs : ¬starting.Pairwise (fun a b => p a → p b) :=
      fun h => hall (hmet ▸ rtakeWhile_eq_filter_iff.mpr h)
    have hne : segments.filter m ≠ [] := by
      intro hnil
      rw [← hmet,List.filter_eq_nil_iff] at hnil
      exact hpairs (List.pairwise_of_forall_mem_list fun a ha _ _ hpa => absurd hpa (hnil a ha))
    simp only [hall,false_or,if_neg hne]
    split
    · exact filter_eq_take_one hne
    · rename_i hfound
      refine iff_of_false hall fun htail => ?_
      obtain ⟨earlier,hsplit⟩ := List.rtakeWhile_suffix p starting
      obtain ⟨s,hs⟩ := List.exists_mem_of_ne_nil _ hfound
      obtain ⟨r,hr⟩ : ∃ r, r ∈ earlier := by
        refine List.exists_mem_of_ne_nil _ fun hnil => hpairs ?_
        rw [← hsplit,hnil,List.nil_append]
        exact List.pairwise_of_forall_mem_list fun _ _ b hb _ => List.mem_rtakeWhile_imp hb
      -- what follows another segment stands in the tail, so nothing that the sweep finds is met
      have hfollow : segments.Pairwise (fun _ b => ¬m b) := by
        cases segments with
        | nil => exact List.Pairwise.nil
        | cons first rest =>
          exact List.pairwise_cons.mpr
            ⟨htail,List.pairwise_of_forall_mem_list fun _ _ b hb => htail b hb⟩
      have hnot : ¬m s := by
        rw [← hsplit] at hsub
        exact (List.pairwise_append.mp (hfollow.sublist hsub)).2.2 r hr s hs
      have hmem : s ∈ segments.filter m := by
        rw [← hmet,List.mem_filter,← hsplit]
        exact ⟨List.mem_append_right _ hs,List.mem_rtakeWhile_imp hs⟩
      exact hnot (List.mem_filter.mp hmem).2

/-- Around a time the sweep stops at the first segment that ends too early. -/
theorem context_iff (hsorted : segments.Pairwise (fun a b => a.startTime ≤ b.startTime))
    (hw : 0 ≤ w) : contextSegmentsAroundTime segments t w = contextByScan segments t w ↔
      WindowTogether segments (t - w) (t + w) := by
  have htogether : WindowTogether segments (t - w) (t + w) ↔
      (started segments (t + w)).Pairwise
        (fun a b => decide (t - w ≤ a.endTime) → decide (t - w ≤ b.endTime)) ∨
      ∀ s ∈ segments.tail, ¬decide (Meets (t - w) (t + w) s) := by
    simp only [WindowTogether,decide_eq_true_eq]
  rw [contextSegmentsAroundTime_eq hsorted hw,contextByScan,htogether,← rtakeWhile_eq_filter_iff,
    ← filter_meets]
  exact sweep_eq_iff List.filter_sublist filter_meets.symm

end

/-- The index answers like a scan exactly where no earlier segment outlasts what bisection and the
sweep look at. -/
theorem answersLikeScan_iff {segments : List WbSegment} {timeMs : ℤ} {t w : ℚ}
    (hsorted : segments.Pairwise (fun a b => a.startTime ≤ b.startTime))
    (hlong : ∀ s ∈ segments, s.startTime ≤ s.endTime) (hw : 0 ≤ w) :
    AnswersLikeScan segments timeMs t w ↔
      LastReaches segments (timeMs / 1000) ∧ WindowTogether segments (t - w) (t + w) := by
  have hnearest : (segments ≠ [] → ∃ found, nearestSegmentForTime segments timeMs = some found ∧
      NearestByScan segments (timeMs / 1000) found) ↔ LastReaches segments (timeMs / 1000) := by
    by_cases hne : segments = []
    · refine iff_of_true (fun h => absurd hne h) ?_
      rw [LastReaches,started,hne]
      simp
    · rw [← nearest_iff hsorted hlong hne]
      exact ⟨fun h => h hne,fun h _ => h⟩
  rw [← hnearest,← context_iff hsorted hw]
  exact ⟨fun h => ⟨h.nearest,h.context⟩,fun h => ⟨h.1,h.2⟩⟩

/-- Two segments that overlap, with a time in the second one. -/
theorem answersLikeScan_iff_overlapping :
    AnswersLikeScan [⟨0,0,10,"so",[]⟩,⟨1,8,20,"welcome",[]⟩,⟨2,30,40,"back",[]⟩] 9000 9 1 ↔
      LastReaches [⟨0,0,10,"so",[]⟩,⟨1,8,20,"welcome",[]⟩,⟨2,30,40,"back",[]⟩] ((9000 : ℤ) / 1000) ∧
        WindowTogether [⟨0,0,10,"so",[]⟩,⟨1,8,20,"welcome",[]⟩,⟨2,30,40,"back",[]⟩] (9 - 1) (9 + 1) :=
  answersLikeScan_iff (by norm_num) (by norm_num) (by norm_num)

/-- A short segment inside a long one hides the long one. -/
theorem not_answersLikeScan_nested :
    ¬AnswersLikeScan [⟨0,0,100,"a long story",[]⟩,⟨1,10,20,"yes",[]⟩] 50000 50 5 := by
  intro h
  obtain ⟨found,hfound,-,hscan⟩ := h.nearest (by simp)
  have hnearest : nearestSegmentForTime [⟨0,0,100,"a long story",[]⟩,⟨1,10,20,"yes",[]⟩] 50000 =
      some ⟨1,10,20,"yes",[]⟩ := by
    norm_num [nearestSegmentForTime,bisectRight,bisectFrom]
  obtain rfl := Option.some.inj (hnearest.symm.trans hfound)
  norm_num [Holds] at hscan

end Podly.Chapters
