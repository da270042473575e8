import Podly.Chapters.Retime

/-! Chapters whose starts are moved to words of the transcript: the candidate for each start, and
what `_assemble_refined_chapters` makes of the candidates. -/
namespace Podly.Chapters
open Intervals

/-- The start that is kept for a chapter, after the one kept before it: a candidate that is not
later falls back to the original start, or to the next millisecond. -/
def keptStart (prev : Option ℤ) (originalStartMs candidate : ℤ) : ℤ :=
  match prev with
  | none => max candidate 0
  | some prev =>
    if candidate ≤ prev then if originalStartMs ≤ prev then prev + 1 else originalStartMs
    else candidate

/-- The first loop of `_assemble_refined_chapters`. It raises where a candidate is missing. -/
def adjustedStartsMs : Option ℤ → List Chapter → List ℤ → Option (List ℤ)
  | _, [], _ => some []
  | _, _::_, [] => none
  | prev, chapter::chapters, candidate::candidates =>
    let start := keptStart prev chapter.startTimeMs candidate
    (adjustedStartsMs (some start) chapters candidates).map (start::·)

/-- The second loop: every chapter ends where the next one starts. -/
def adjustedChapters : List Chapter → List ℤ → List Chapter
  | chapter::chapters, start::starts =>
    Chapter.make chapter.elementId chapter.title start
        (max start (starts.head?.getD chapter.endTimeMs))::adjustedChapters chapters starts
  | _, _ => []

/-- `_assemble_refined_chapters`: the chapters, and how many of their starts have moved. -/
def assembleRefinedChapters (sortedChapters : List Chapter) (candidateStartsMs : List ℤ) :
    Option (List Chapter × ℕ) :=
  (adjustedStartsMs none sortedChapters candidateStartsMs).map fun starts =>
    (adjustedChapters sortedChapters starts,
      (List.zipWith (fun start chapter => decide (start ≠ chapter.startTimeMs)) starts
        sortedChapters).count true)

/-- The candidate for a start: an estimate, unless it lies too far away. -/
def candidateStartMs (maxShiftMs originalStartMs : ℤ) (estimatedStart : Option ℚ) : ℤ :=
  match estimatedStart with
  | none => originalStartMs
  | some seconds =>
    let candidate := roundHalfEven (seconds * 1000)
    if |candidate - originalStartMs| ≤ maxShiftMs then candidate else originalStartMs

/-- The chapters of `refine_description_chapters_with_word_refiner` and of
`_align_chapters_to_start_anchors`, given the estimate for each chapter. -/
def refineChapterStarts (maxShiftSeconds : ℚ) (estimate : Chapter → Option ℚ)
    (chapters : List Chapter) : Option (List Chapter × ℕ) :=
  let maxShiftMs := max 0 (maxShiftSeconds * 1000).floor
  let sortedChapters := sortByKey Chapter.startTimeMs chapters
  assembleRefinedChapters sortedChapters
    (sortedChapters.map (fun c => candidateStartMs maxShiftMs c.startTimeMs (estimate c)))

/-- The chapters are the same ones, in order and without a gap, and no start is far from where it
was. -/
structure StaysNear (shift : ℤ) (chapters refined : List Chapter) : Prop where
  same : refined.map (fun c => (c.elementId,c.title)) = chapters.map (fun c => (c.elementId,c.title))
  increasing : refined.Pairwise (fun a b => a.startTimeMs < b.startTimeMs)
  nonneg : ∀ c ∈ refined, 0 ≤ c.startTimeMs
  contiguous : refined.IsChain (fun a b => a.endTimeMs = b.startTimeMs)
  lastEnds : ∀ last ∈ refined.getLast?, last.startTimeMs ≤ last.endTimeMs
  near : ∀ (i : ℕ) (c r : Chapter), chapters[i]? = some c → refined[i]? = some r →
    |r.startTimeMs - c.startTimeMs| ≤ shift + i

/-- Every candidate lies near the start it is for. -/
def Candidates (shift : ℤ) : List Chapter → List ℤ → Prop :=
  List.Forall₂ (fun c candidate => |candidate - c.startTimeMs| ≤ shift)

section Starts
variable {shift n start : ℤ} {prev : Option ℤ} {chapters : List Chapter}
  {candidates starts : List ℤ}

/-- A chapter keeps a start after the one before it and near its own. The bound grows by a
millisecond with every chapter, as the one before may have been pushed past this one. -/
theorem keptStart_spec {originalStartMs candidate : ℤ} (hn : 0 ≤ n) (horiginal : 0 ≤ originalStartMs)
    (hcandidate : |candidate - originalStartMs| ≤ shift)
    (hprev : ∀ p ∈ prev, 0 ≤ p ∧ p < originalStartMs + shift + n) :
    (∀ p ∈ prev, p < keptStart prev originalStartMs candidate) ∧
      0 ≤ keptStart prev originalStartMs candidate ∧
      |keptStart prev originalStartMs candidate - originalStartMs| ≤ shift + n := by
  rw [abs_le] at hcandidate
  obtain ⟨hlow,hhigh⟩ := hcandidate
  cases prev with
  | none =>
    refine ⟨by simp,le_max_right _ _,?_⟩
    rw [keptStart,abs_le]
    omega
  | some p =>
    obtain ⟨hp,hpush⟩ := hprev p rfl
    simp only [Option.mem_some_iff,forall_eq',keptStart]
    split_ifs with hearly horder
    · refine ⟨by omega,by omega,?_⟩
      rw [abs_le]
      omega
    · refine ⟨by omega,horiginal,?_⟩
      rw [sub_self,abs_zero]
      omega
    · refine ⟨by omega,by omega,?_⟩
      rw [abs_le]
      omega

/-- The starts that are kept for chapters, from the one after `prev` on. -/
structure KeptStarts (shift n : ℤ) (prev : Option ℤ) (chapters : List Chapter) (starts : List ℤ) :
    Prop where
  length : starts.length = chapters.length
  later : ∀ p ∈ prev, ∀ s ∈ starts, p < s
  increasing : starts.Pairwise (· < ·)
  nonneg : ∀ s ∈ starts, 0 ≤ s
  near : ∀ (i : ℕ) (c : Chapter) (s : ℤ), chapters[i]? = some c → starts[i]? = some s →
    |s - c.startTimeMs| ≤ shift + n + i

theorem KeptStarts.cons {chapter : Chapter} (h : KeptStarts shift (n + 1) (some start) chapters starts)
    (hlater : ∀ p ∈ prev, p < start) (hnonneg : 0 ≤ start)
    (hnear : |start - chapter.startTimeMs| ≤ shift + n) :
    KeptStarts shift n prev (chapter::chapters) (start::starts) where
  length := by rw [List.length_cons,List.length_cons,h.length]
  later p hp := by
    intro s hs
    rcases List.mem_cons.mp hs with rfl | hs
    · exact hlater p hp
    · exact (hlater p hp).trans (h.later start rfl s hs)
  increasing := List.pairwise_cons.mpr ⟨h.later start rfl,h.increasing⟩
  nonneg := List.forall_mem_cons.mpr ⟨hnonneg,h.nonneg⟩
  near i c s hc hs := by
    cases i with
    | zero =>
      obtain rfl : chapter = c := by simpa using hc
      obtain rfl : start = s := by simpa using hs
      simpa using hnear
    | succ i =>
      have := h.near i c s (by simpa using hc) (by simpa using hs)
      push_cast
      omega

theorem adjustedStartsMs_kept (hn : 0 ≤ n) (hcandidates : Candidates shift chapters candidates)
    (hsorted : chapters.Pairwise (fun a b => a.startTimeMs ≤ b.startTimeMs))
    (hnonneg : ∀ c ∈ chapters, 0 ≤ c.startTimeMs)
    (hprev : ∀ p ∈ prev, 0 ≤ p ∧ ∀ c ∈ chapters.head?, p < c.startTimeMs + shift + n) :
    ∃ starts, adjustedStartsMs prev chapters candidates = some starts ∧
      KeptStarts shift n prev chapters starts := by
  induction hcandidates generalizing n prev with
  | nil => exact ⟨[],rfl,rfl,by simp,List.Pairwise.nil,by simp,by simp⟩
  | @cons chapter candidate chapters candidates hcandidate _ ih =>
    obtain ⟨hfirst,hsorted⟩ := List.pairwise_cons.mp hsorted
    obtain ⟨hpos,hnonneg⟩ := List.forall_mem_cons.mp hnonneg
    obtain ⟨hlater,hstart,hnear⟩ := keptStart_spec hn hpos hcandidate
      (fun p hp => ⟨(hprev p hp).1,(hprev p hp).2 chapter rfl⟩)
    -- the start that is kept here may overtake the next chapter, but by no more than the bound
    have hpush : ∀ c ∈ chapters.head?, keptStart prev chapter.startTimeMs candidate <
        c.startTimeMs + shift + (n + 1) := by
      intro c hc
      have hle := hfirst c (List.mem_of_mem_head? hc)
      rw [abs_le] at hnear
      omega
    obtain ⟨starts,hstarts,hkept⟩ := @ih (n + 1)
      (some (keptStart prev chapter.startTimeMs candidate)) (by omega) hsorted hnonneg
      (by
        intro p hp
        obtain rfl := Option.mem_some_iff.mp hp
        exact ⟨hstart,hpush⟩)
    refine ⟨_::starts,?_,hkept.cons hlater hstart hnear⟩
    rw [adjustedStartsMs,hstarts]
    rfl

end Starts

section Chapters
variable {chapters : List Chapter} {starts : List ℤ}

theorem Chapter.make_names (elementId title : String) (start stop : ℤ) :
    (Chapter.make elementId title start stop).elementId = elementId ∧
      (Chapter.make elementId title start stop).title = title := by
  unfold Chapter.make
  split <;> exact ⟨rfl,rfl⟩

theorem map_start_adjustedChapters (h : starts.length = chapters.length) :
    (adjustedChapters chapters starts).map Chapter.startTimeMs = starts := by
  induction chapters generalizing starts with
  | nil => rw [List.eq_nil_of_length_eq_zero h]; rfl
  | cons chapter chapters ih =>
    cases starts with
    | nil => cases h
    | cons start starts =>
      rw [adjustedChapters,List.map_cons,ih (Nat.succ.inj h),Chapter.make_startTimeMs]

theorem map_names_adjustedChapters (h : starts.length = chapters.length) :
    (adjustedChapters chapters starts).map (fun c => (c.elementId,c.title)) =
      chapters.map (fun c => (c.elementId,c.title)) := by
  induction chapters generalizing starts with
  | nil => rfl
  | cons chapter chapters ih =>
    cases starts with
    | nil => cases h
    | cons start starts =>
      rw [adjustedChapters,List.map_cons,ih (Nat.succ.inj h),(Chapter.make_names _ _ _ _).1,
        (Chapter.make_names _ _ _ _).2,List.map_cons]

/-- Every chapter ends where the next one starts. -/
theorem adjustedChapters_contiguous (hincreasing : starts.Pairwise (· < ·)) :
    (adjustedChapters chapters starts).IsChain (fun a b => a.endTimeMs = b.startTimeMs) := by
  induction chapters generalizing starts with
  | nil => exact List.isChain_nil
  | cons chapter chapters ih =>
    cases starts with
    | nil => exact List.isChain_nil
    | cons start starts =>
      obtain ⟨hlater,hincreasing⟩ := List.pairwise_cons.mp hincreasing
      rw [adjustedChapters,List.isChain_cons]
      refine ⟨?_,ih hincreasing⟩
      intro next hnext
      cases chapters with
      | nil => cases hnext
      | cons chapter' chapters =>
        cases starts with
        | nil => cases hnext
        | cons start' starts =>
          obtain rfl := Option.some.inj hnext
          rw [Chapter.make_startTimeMs,Chapter.make_endTimeMs,List.head?_cons,
            Option.getD_some,← max_assoc,max_self]
          exact max_eq_right (hlater start' List.mem_cons_self).le

end Chapters

/-- Refined chapters stay in order and near. -/
theorem assembleRefinedChapters_staysNear {shift : ℤ} {chapters : List Chapter}
    {candidates : List ℤ} (hsorted : chapters.Pairwise (fun a b => a.startTimeMs ≤ b.startTimeMs))
    (hnonneg : ∀ c ∈ chapters, 0 ≤ c.startTimeMs)
    (hcandidates : Candidates shift chapters candidates) :
    ∃ refined moved, assembleRefinedChapters chapters candidates = some (refined,moved) ∧
      StaysNear shift chapters refined := by
  have hnone : ∀ p ∈ (none : Option ℤ), 0 ≤ p ∧ ∀ c ∈ chapters.head?,
      p < c.startTimeMs + shift + 0 := by simp
  obtain ⟨starts,hstarts,hkept⟩ := adjustedStartsMs_kept le_rfl hcandidates hsorted hnonneg hnone
  have hmap := map_start_adjustedChapters hkept.length
  refine ⟨adjustedChapters chapters starts,_,by rw [assembleRefinedChapters,hstarts]; rfl,?_⟩
  constructor
  · exact map_names_adjustedChapters hkept.length
  · rw [← hmap] at hkept
    exact List.pairwise_map.mp hkept.increasing
  · intro c hc
    exact hkept.nonneg _ (hmap ▸ List.mem_map_of_mem hc)
  · exact adjustedChapters_contiguous hkept.increasing
  · exact fun last _ => last.le
  · intro i c r hc hr
    have hs : starts[i]? = some r.startTimeMs := by rw [← hmap,List.getElem?_map,hr]; rfl
    simpa using hkept.near i c r.startTimeMs hc hs

/-- The candidate of the first chapter jumps past the originals of the others. -/
theorem assembleRefinedChapters_staysNear_overtaken :
    ∃ refined moved, assembleRefinedChapters
        [⟨"chp0","Intro",0,1000,by decide⟩,⟨"chp1","News",1000,1000,by decide⟩,
          ⟨"chp2","Guest",1000,2000,by decide⟩,⟨"chp3","Outro",2000,9000,by decide⟩]
        [1800,900,1100,2500] = some (refined,moved) ∧
      StaysNear 1800
        [⟨"chp0","Intro",0,1000,by decide⟩,⟨"chp1","News",1000,1000,by decide⟩,
          ⟨"chp2","Guest",1000,2000,by decide⟩,⟨"chp3","Outro",2000,9000,by decide⟩] refined :=
  assembleRefinedChapters_staysNear (by decide) (by decide)
    (.cons (by decide) (.cons (by decide) (.cons (by decide) (.cons (by decide) .nil))))

theorem candidateStartMs_near {maxShiftMs : ℤ} (hshift : 0 ≤ maxShiftMs) (originalStartMs : ℤ)
    (estimatedStart : Option ℚ) :
    |candidateStartMs maxShiftMs originalStartMs estimatedStart - originalStartMs| ≤ maxShiftMs := by
  have hsame : |originalStartMs - originalStartMs| ≤ maxShiftMs := by
    rwa [sub_self,abs_zero]
  cases estimatedStart with
  | none => exact hsame
  | some seconds =>
    rw [candidateStartMs]
    split
    · assumption
    · exact hsame

/-- Both refinements of chapter starts move them by the configured shift at most, and by a
millisecond more for every chapter before. -/
theorem refineChapterStarts_staysNear (maxShiftSeconds : ℚ) (estimate : Chapter → Option ℚ)
    {chapters : List Chapter} (hnonneg : ∀ c ∈ chapters, 0 ≤ c.startTimeMs) :
    ∃ refined moved, refineChapterStarts maxShiftSeconds estimate chapters = some (refined,moved) ∧
      StaysNear (max 0 (maxShiftSeconds * 1000).floor) (sortByKey Chapter.startTimeMs chapters)
        refined := by
  apply assembleRefinedChapters_staysNear (sortByKey_sorted Chapter.startTimeMs chapters)
  · intro c hc
    exact hnonneg c ((mem_sortByKey _ _ c).mp hc)
  · refine List.forall₂_map_right_iff.mpr (List.forall₂_same.mpr ?_)
    intro c _
    exact candidateStartMs_near (le_max_left _ _) c.startTimeMs (estimate c)

end Podly.Chapters
