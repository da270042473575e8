import Podly.WordBoundary.Resolve
import Podly.WordBoundary.StoredWords

/-! The bundled refinement, which loads a range of the transcript and the wanted word arrays only,
next to the plain one, which loads everything, and when the two agree. -/
namespace Podly.WordBoundary
open Serde Intervals Lists

/-- A stored transcript segment: the columns the refinement reads. -/
structure Row where
  sequenceNum : ℤ
  startTime : ℚ
  endTime : ℚ
  text : String
deriving DecidableEq

/-- The transcript of a post in the order of its queries; the sequence numbers are unique. -/
structure Transcript where
  rows : List Row
  sorted : rows.Pairwise (fun r s => r.sequenceNum < s.sequenceNum)

/-- A segment with the words a map has for it. -/
def withWords (words : WordsBySeq) (row : Row) : WbSegment :=
  ⟨row.sequenceNum,row.startTime,row.endTime,row.text,(words.get row.sequenceNum).getD []⟩

variable (T : Text)

/-- The context of an ad and both sides of its refinement, on loaded segments. -/
def resolve (segments : List WbSegment) (adStart adEnd : ℚ) (firstSeq lastSeq : Option ℤ)
    (payload : Payload) : Side × Side :=
  let context := selectContext segments adStart adEnd firstSeq lastSeq
  (refineStart T segments context adStart payload,refineEnd T segments context adEnd payload)

/-- `run_transcript_wb_resolve`: all segments with all their words. -/
def wbResolve (rows : List Row) (stored : Option Value) (adStart adEnd : ℚ)
    (firstSeq lastSeq : Option ℤ) (payload : Payload) : Side × Side :=
  resolve T (rows.map (withWords (queryWbWordTimestampsBySeq stored))) adStart adEnd firstSeq
    lastSeq payload

/-- Widen a range of sequence numbers to one more of them. -/
def widen (range : ℤ × ℤ) (seq : Option ℤ) : ℤ × ℤ :=
  match seq with
  | none => range
  | some s => (min range.1 s,max range.2 s)

/-- The range of sequence numbers that is loaded for a window. -/
def loadRange (first last : ℤ) (payload : Payload) : ℤ × ℤ :=
  widen (widen (min first last - 4,max first last + 4) payload.startSegmentSeq)
    payload.endSegmentSeq

/-- `query_stats_transcript_segments_in_seq_range`, or all rows if there is no window. -/
def loadRows (rows : List Row) (firstSeq lastSeq : Option ℤ) (payload : Payload) : List Row :=
  match firstSeq, lastSeq with
  | some first, some last =>
    let range := loadRange first last payload
    rows.filter (fun r => range.1 ≤ r.sequenceNum && r.sequenceNum ≤ range.2)
  | _, _ => rows

/-- Does the payload ask for a phrase or a word? -/
def needsWords (payload : Payload) : Bool :=
  hasText T payload.startPhrase || hasText T payload.endPhrase || hasText T payload.startWord ||
    payload.startWordIndex.isSome

/-- The segments whose words the resolution may look at. -/
def wantedSeqs (segments : List WbSegment) (adStart adEnd : ℚ) (firstSeq lastSeq : Option ℤ)
    (payload : Payload) : List ℤ :=
  (selectContext segments adStart adEnd firstSeq lastSeq).map WbSegment.sequenceNum ++
    payload.startSegmentSeq.toList ++ payload.endSegmentSeq.toList

/-- `run_transcript_wb_refine_from_llm`, from the extracted payload on. -/
def wbRefineFromLlm (rows : List Row) (stored : Option Value) (adStart adEnd : ℚ)
    (firstSeq lastSeq : Option ℤ) (payload : Payload) : Side × Side :=
  let loaded := loadRows rows firstSeq lastSeq payload
  let wanted := wantedSeqs (loaded.map (withWords [])) adStart adEnd firstSeq lastSeq payload
  let words := if needsWords T payload then queryWbWordTimestampsForSeqs wanted stored else []
  resolve T (loaded.map (withWords words)) adStart adEnd firstSeq lastSeq payload

/-- The segments whose words are wanted of the loaded ones. -/
def wantedOfLoaded (rows : List Row) (adStart adEnd : ℚ) (firstSeq lastSeq : Option ℤ)
    (payload : Payload) : List ℤ :=
  wantedSeqs ((loadRows rows firstSeq lastSeq payload).map (withWords [])) adStart adEnd firstSeq
    lastSeq payload

/-- The window selects a stored segment; or, where the time overlap takes its place, everything it
selects of the transcript is loaded. -/
def ContextLoaded (rows : List Row) (adStart adEnd : ℚ) (first last : ℤ) (payload : Payload) :
    Prop :=
  (∃ r ∈ rows, first - 2 ≤ r.sequenceNum ∧ r.sequenceNum ≤ last + 2) ∨
    ∀ s ∈ contextByTimeOverlap (rows.map (withWords [])) adStart adEnd,
      (loadRange first last payload).1 ≤ s.sequenceNum ∧
        s.sequenceNum ≤ (loadRange first last payload).2

/-- The segment that the word estimate falls back to, the first one of the transcript, is loaded. -/
def FirstLoaded (rows : List Row) (first last : ℤ) (payload : Payload) : Prop :=
  ∀ r ∈ rows.head?, (loadRange first last payload).1 ≤ r.sequenceNum ∧
    r.sequenceNum ≤ (loadRange first last payload).2

/-- The words of a segment replaced by those a map has for it. -/
def attach (words : WordsBySeq) (s : WbSegment) : WbSegment :=
  { s with words := (words.get s.sequenceNum).getD [] }

theorem map_withWords (words : WordsBySeq) (rows : List Row) :
    rows.map (withWords words) = (rows.map (withWords [])).map (attach words) := by
  rw [List.map_map]
  rfl

section
variable {f : WbSegment → WbSegment} (hf : ∀ s, (f s).sequenceNum = s.sequenceNum ∧
  (f s).startTime = s.startTime ∧ (f s).endTime = s.endTime)
include hf

theorem findSegment_map (segments : List WbSegment) (seq : Option ℤ) :
    findSegment (segments.map f) seq = (findSegment segments seq).map f := by
  cases seq with
  | none => rfl
  | some seq => simp only [findSegment, Option.bind_some, List.find?_map, Function.comp_def, (hf _).1]

theorem contextBySeqWindow_map (segments : List WbSegment) (first last : ℤ) :
    contextBySeqWindow (segments.map f) first last =
      (contextBySeqWindow segments first last).map f := by
  have hseqs : (segments.map f).map WbSegment.sequenceNum = segments.map WbSegment.sequenceNum := by
    rw [List.map_map]
    exact List.map_congr_left (fun s _ => (hf s).1)
  unfold contextBySeqWindow
  rw [hseqs]
  split
  · simp only [List.filter_map, Function.comp_def, (hf _).1]
  · rfl

theorem contextByTimeOverlap_map (segments : List WbSegment) (adStart adEnd : ℚ) :
    contextByTimeOverlap (segments.map f) adStart adEnd =
      (contextByTimeOverlap segments adStart adEnd).map f := by
  simp only [contextByTimeOverlap, around_map, (hf _).2.1, (hf _).2.2]

/-- The context of an ad does not depend on words. -/
theorem selectContext_map (segments : List WbSegment) (adStart adEnd : ℚ)
    (firstSeq lastSeq : Option ℤ) : selectContext (segments.map f) adStart adEnd firstSeq lastSeq =
      (selectContext segments adStart adEnd firstSeq lastSeq).map f := by
  unfold selectContext
  split
  · simp only [contextBySeqWindow_map hf, contextByTimeOverlap_map hf, ne_eq, List.map_eq_nil_iff]
    split <;> rfl
  · exact contextByTimeOverlap_map hf segments adStart adEnd

theorem phraseCandidates_map (segments context : List WbSegment) (preferredSeq : Option ℤ)
    (directionEnd : Bool) :
    phraseCandidates (segments.map f) (context.map f) preferredSeq directionEnd =
      (phraseCandidates segments context preferredSeq directionEnd).map f := by
  have hsort : sortByKey WbSegment.sequenceNum (context.map f) =
      (sortByKey WbSegment.sequenceNum context).map f := by
    rw [sortByKey_map]
    simp only [(hf _).1]
  have hfound : ((findSegment segments preferredSeq).map f).toList =
      (findSegment segments preferredSeq).toList.map f := by
    cases findSegment segments preferredSeq <;> rfl
  unfold phraseCandidates
  rw [findSegment_map hf,hsort,hfound,List.map_append]
  cases directionEnd with
  | true => simp only [if_true, ← List.map_reverse, List.filter_map, Function.comp_def, (hf _).1]
  | false => simp only [Bool.false_eq_true, if_false, List.filter_map, Function.comp_def, (hf _).1]

end

theorem attach_times (words : WordsBySeq) (s : WbSegment) :
    (attach words s).sequenceNum = s.sequenceNum ∧ (attach words s).startTime = s.startTime ∧
      (attach words s).endTime = s.endTime := ⟨rfl,rfl,rfl⟩

/-- The window selects by sequence number alone. -/
theorem contextBySeqWindow_eq (segments : List WbSegment) (first last : ℤ) :
    contextBySeqWindow segments first last = segments.filter
      (fun s => first - 2 ≤ s.sequenceNum && s.sequenceNum ≤ last + 2) := by
  unfold contextBySeqWindow
  split
  · rename_i minSeq maxSeq hmin hmax
    apply List.filter_congr
    intro s hs
    have hmem : s.sequenceNum ∈ segments.map WbSegment.sequenceNum := List.mem_map_of_mem hs
    have hle : minSeq ≤ s.sequenceNum := (List.min?_eq_some_iff.mp hmin).2 _ hmem
    have hge : s.sequenceNum ≤ maxSeq := (List.max?_eq_some_iff.mp hmax).2 _ hmem
    simp only [max_le_iff, le_min_iff, hle, hge, true_and]
  · rename_i hnone
    cases segments with
    | nil => rfl
    | cons s segments => exact absurd rfl (hnone _ _ rfl)

theorem widen_le (range : ℤ × ℤ) (seq : Option ℤ) :
    (widen range seq).1 ≤ range.1 ∧ range.2 ≤ (widen range seq).2 := by
  cases seq with
  | none => exact ⟨le_rfl,le_rfl⟩
  | some s => exact ⟨min_le_left _ _,le_max_left _ _⟩

theorem mem_widen (range : ℤ × ℤ) {seq : Option ℤ} {s : ℤ} (h : seq = some s) :
    (widen range seq).1 ≤ s ∧ s ≤ (widen range seq).2 := by
  rw [h]
  exact ⟨min_le_right _ _,le_max_right _ _⟩

/-- The loaded range reaches four beyond the window and contains the named segments. -/
theorem loadRange_spec (first last : ℤ) (payload : Payload) :
    (loadRange first last payload).1 ≤ min first last - 4 ∧
    max first last + 4 ≤ (loadRange first last payload).2 ∧
    ∀ s, payload.startSegmentSeq = some s ∨ payload.endSegmentSeq = some s →
      (loadRange first last payload).1 ≤ s ∧ s ≤ (loadRange first last payload).2 := by
  let range := (min first last - 4,max first last + 4)
  have hstart := widen_le range payload.startSegmentSeq
  have hend := widen_le (widen range payload.startSegmentSeq) payload.endSegmentSeq
  refine ⟨hend.1.trans hstart.1,hstart.2.trans hend.2,?_⟩
  rintro s (hs | hs)
  · have hmem := mem_widen range hs
    exact ⟨hend.1.trans hmem.1,hmem.2.trans hend.2⟩
  · exact mem_widen _ hs

/-- The named segments are found among the loaded ones exactly if they are stored. -/
theorem findSegment_loadRows (rows : List Row) (firstSeq lastSeq : Option ℤ) (payload : Payload)
    {seq : Option ℤ} (h : seq = payload.startSegmentSeq ∨ seq = payload.endSegmentSeq) :
    findSegment ((loadRows rows firstSeq lastSeq payload).map (withWords [])) seq =
      findSegment (rows.map (withWords [])) seq := by
  cases hseq : seq with
  | none => rfl
  | some s =>
    unfold loadRows
    split
    · rename_i first last
      have hs := (loadRange_spec first last payload).2.2 s
        (h.imp (fun h => h.symm.trans hseq) (fun h => h.symm.trans hseq))
      simp only [findSegment, Option.bind_some, List.find?_map, List.find?_filter]
      congr 2
      funext r
      by_cases hr : r.sequenceNum = s
      · simp [withWords, hr, hs]
      · simp [withWords, hr]
    · rfl

/-- The time overlap is computed from the rows of a range if they have all that it selects. -/
theorem contextByTimeOverlap_contiguous {rows : List Row}
    (hsorted : rows.Pairwise (fun r s => r.sequenceNum < s.sequenceNum)) {adStart adEnd : ℚ}
    {lo hi : ℤ} (h : ∀ s ∈ contextByTimeOverlap (rows.map (withWords [])) adStart adEnd,
      lo ≤ s.sequenceNum ∧ s.sequenceNum ≤ hi) :
    contextByTimeOverlap (rows.map (withWords [])) adStart adEnd =
      contextByTimeOverlap ((rows.filter (fun r =>
        lo ≤ r.sequenceNum && r.sequenceNum ≤ hi)).map (withWords [])) adStart adEnd := by
  obtain ⟨ys,zs,hrows,hys,hzs⟩ := filter_range_contiguous hsorted lo hi
  have hmap : rows.map (withWords []) = ys.map (withWords []) ++ (rows.filter (fun r =>
      lo ≤ r.sequenceNum && r.sequenceNum ≤ hi)).map (withWords []) ++ zs.map (withWords []) := by
    rw [← List.map_append,← List.map_append,← hrows]
  rw [hmap] at h
  rw [hmap]
  apply around_contiguous
  · intro s hs hsel
    obtain ⟨r,hr,rfl⟩ := List.mem_map.mp hs
    have hlo : lo ≤ r.sequenceNum := (h _ hsel).1
    have hlt := hys r hr
    omega
  · intro s hs hsel
    obtain ⟨r,hr,rfl⟩ := List.mem_map.mp hs
    have hhi : r.sequenceNum ≤ hi := (h _ hsel).2
    have hlt := hzs r hr
    omega

/-- The context of the loaded segments is that of all segments. -/
theorem selectContext_loadRows (t : Transcript) (adStart adEnd : ℚ) (firstSeq lastSeq : Option ℤ)
    (payload : Payload) (h : ∀ first ∈ firstSeq, ∀ last ∈ lastSeq,
      ContextLoaded t.rows adStart adEnd first last payload) :
    selectContext ((loadRows t.rows firstSeq lastSeq payload).map (withWords [])) adStart adEnd
        firstSeq lastSeq =
      selectContext (t.rows.map (withWords [])) adStart adEnd firstSeq lastSeq := by
  unfold loadRows
  split
  · rename_i first last
    obtain ⟨hlo,hhi,-⟩ := loadRange_spec first last payload
    have hwindow : contextBySeqWindow ((t.rows.filter (fun r =>
          (loadRange first last payload).1 ≤ r.sequenceNum &&
            r.sequenceNum ≤ (loadRange first last payload).2)).map (withWords [])) first last =
        contextBySeqWindow (t.rows.map (withWords [])) first last := by
      simp only [contextBySeqWindow_eq, List.filter_map, List.filter_filter]
      congr 1
      apply List.filter_congr
      intro r _
      rw [Bool.and_eq_left_iff_imp]
      intro hr
      obtain ⟨h1,h2⟩ := Bool.and_eq_true_iff.mp hr
      have h1' : first - 2 ≤ r.sequenceNum := of_decide_eq_true h1
      have h2' : r.sequenceNum ≤ last + 2 := of_decide_eq_true h2
      simp only [Bool.and_eq_true, decide_eq_true_eq]
      omega
    simp only [selectContext]
    rw [hwindow]
    split
    · rfl
    · rename_i hempty
      rcases h first rfl last rfl with ⟨r,hr,hin⟩ | hloaded
      · refine absurd ?_ hempty
        rw [contextBySeqWindow_eq]
        refine List.ne_nil_of_mem (List.mem_filter.mpr ⟨List.mem_map_of_mem hr,?_⟩)
        exact Bool.and_eq_true_iff.mpr ⟨decide_eq_true hin.1,decide_eq_true hin.2⟩
      · exact (contextByTimeOverlap_contiguous t.sorted hloaded).symm
  · rfl

theorem mem_phraseCandidates {segments context : List WbSegment} {preferredSeq : Option ℤ}
    {directionEnd : Bool} {s : WbSegment}
    (h : s ∈ phraseCandidates segments context preferredSeq directionEnd) :
    findSegment segments preferredSeq = some s ∨ s ∈ context := by
  rcases List.mem_append.mp h with h | h
  · exact .inl (by simpa using h)
  · right
    have hmem := List.mem_of_mem_filter h
    split at hmem
    · simpa using hmem
    · simpa using hmem

section
variable {T}
variable {loaded all context : List WbSegment} {words words' : WordsBySeq} {payload : Payload}

/-- Segments that differ in the words of unwanted ones only give the same phrase time. -/
theorem estimatePhraseTime_attach {seq : Option ℤ}
    (hfind : findSegment loaded seq = findSegment all seq)
    (hwords : ∀ s, findSegment all seq = some s ∨ s ∈ context → attach words s = attach words' s)
    (phrase : Option String) (directionEnd : Bool) :
    estimatePhraseTime T (loaded.map (attach words)) (context.map (attach words)) seq phrase
        directionEnd =
      estimatePhraseTime T (all.map (attach words')) (context.map (attach words')) seq phrase
        directionEnd := by
  have hcandidates : phraseCandidates (loaded.map (attach words)) (context.map (attach words)) seq
        directionEnd =
      phraseCandidates (all.map (attach words')) (context.map (attach words')) seq
        directionEnd := by
    rw [phraseCandidates_map (attach_times words),phraseCandidates_map (attach_times words')]
    have hsame : phraseCandidates loaded context seq directionEnd =
        phraseCandidates all context seq directionEnd := by
      unfold phraseCandidates
      rw [hfind]
    rw [hsame]
    exact List.map_congr_left (fun s hs => hwords s (mem_phraseCandidates hs))
  unfold estimatePhraseTime
  rw [hcandidates]

/-- Boundary times do not depend on words. -/
theorem estimateSegmentBoundaryTime_attach {seq : Option ℤ}
    (hfind : findSegment loaded seq = findSegment all seq) (boundaryEnd : Bool) :
    estimateSegmentBoundaryTime (loaded.map (attach words)) seq boundaryEnd =
      estimateSegmentBoundaryTime (all.map (attach words')) seq boundaryEnd := by
  unfold estimateSegmentBoundaryTime
  rw [findSegment_map (attach_times words),findSegment_map (attach_times words'),hfind,
    Option.map_map,Option.map_map]
  rfl

/-- The word estimate of a segment that is not there is the start of the first one. -/
theorem estimateWordTime_attach {seq : Option ℤ}
    (hfind : findSegment loaded seq = findSegment all seq) (hnone : findSegment all seq = none)
    (hfirst : loaded.head? = all.head?) (word occurrence : Option String)
    (wordIndex : Option ℤ) :
    estimateWordTime T (loaded.map (attach words)) seq word occurrence wordIndex =
      estimateWordTime T (all.map (attach words')) seq word occurrence wordIndex := by
  unfold estimateWordTime
  rw [findSegment_map (attach_times words),findSegment_map (attach_times words'),hfind,hnone]
  simp only [Option.map_none, List.head?_map, Option.map_map, hfirst]
  rfl

theorem refineStart_attach {context' : List WbSegment}
    (hfind : findSegment loaded payload.startSegmentSeq = findSegment all payload.startSegmentSeq)
    (hphrase : hasText T payload.startPhrase → context = context' ∧
      ∀ s, findSegment all payload.startSegmentSeq = some s ∨ s ∈ context →
        attach words s = attach words' s)
    (hfirst : ¬hasText T payload.startPhrase → findSegment all payload.startSegmentSeq = none →
      hasText T payload.startWord ∨ payload.startWordIndex.isSome → loaded.head? = all.head?)
    (adStart : ℚ) :
    refineStart T (loaded.map (attach words)) (context.map (attach words)) adStart payload =
      refineStart T (all.map (attach words')) (context'.map (attach words')) adStart payload := by
  unfold refineStart
  split
  · rename_i htext
    obtain ⟨rfl,hwords⟩ := hphrase htext
    rw [estimatePhraseTime_attach hfind hwords]
  · rename_i htext
    have hboundary : estimateSegmentBoundaryTime (loaded.map (attach words))
          payload.startSegmentSeq false =
        estimateSegmentBoundaryTime (all.map (attach words')) payload.startSegmentSeq false :=
      estimateSegmentBoundaryTime_attach hfind false
    rw [hboundary]
    split
    · rfl
    · rename_i hnone
      rw [estimateSegmentBoundaryTime,Option.map_eq_none_iff,findSegment_map (attach_times words'),
        Option.map_eq_none_iff] at hnone
      split
      · rename_i hword
        have hword' : hasText T payload.startWord ∨ payload.startWordIndex.isSome := by
          simpa using hword
        rw [estimateWordTime_attach hfind hnone (hfirst htext hnone hword')]
      · rfl

theorem refineEnd_attach {context' : List WbSegment}
    (hfind : findSegment loaded payload.endSegmentSeq = findSegment all payload.endSegmentSeq)
    (hphrase : hasText T payload.endPhrase → context = context' ∧
      ∀ s, findSegment all payload.endSegmentSeq = some s ∨ s ∈ context →
        attach words s = attach words' s) (adEnd : ℚ) :
    refineEnd T (loaded.map (attach words)) (context.map (attach words)) adEnd payload =
      refineEnd T (all.map (attach words')) (context'.map (attach words')) adEnd payload := by
  unfold refineEnd
  split
  · rename_i htext
    obtain ⟨rfl,hwords⟩ := hphrase htext
    rw [estimatePhraseTime_attach hfind hwords]
  · have hboundary : estimateSegmentBoundaryTime (loaded.map (attach words))
          payload.endSegmentSeq true =
        estimateSegmentBoundaryTime (all.map (attach words')) payload.endSegmentSeq true :=
      estimateSegmentBoundaryTime_attach hfind true
    rw [hboundary]

theorem findSegment_eq_none {rows : List Row} {seq : Option ℤ}
    (h : findSegment (rows.map (withWords [])) seq = none) :
    ∀ r ∈ rows, seq ≠ some r.sequenceNum := by
  rintro r hr rfl
  have hne := List.find?_eq_none.mp h (withWords [] r) (List.mem_map_of_mem hr)
  exact hne (by simp [withWords])

theorem findSegment_sequenceNum {segments : List WbSegment} {seq : Option ℤ} {s : WbSegment}
    (h : findSegment segments seq = some s) : seq = some s.sequenceNum := by
  obtain ⟨n,rfl,hs⟩ := Option.bind_eq_some_iff.mp h
  have hn := List.find?_some hs
  rw [of_decide_eq_true hn]

/-- The first row is loaded if its sequence number lies in the loaded range. -/
theorem head?_loadRows {rows : List Row} {firstSeq lastSeq : Option ℤ}
    (h : ∀ first ∈ firstSeq, ∀ last ∈ lastSeq, FirstLoaded rows first last payload) :
    (loadRows rows firstSeq lastSeq payload).head? = rows.head? := by
  unfold loadRows
  split
  · rename_i first last
    cases rows with
    | nil => rfl
    | cons r rows =>
      obtain ⟨h1,h2⟩ := h first rfl last rfl r rfl
      rw [List.filter_cons_of_pos (by simp [h1, h2])]
      rfl
  · rfl

end

/-- What the bundled refinement leaves out does not change its sides. -/
theorem wbRefineFromLlm_of_loaded (t : Transcript) (stored : Option Value) (adStart adEnd : ℚ)
    (firstSeq lastSeq : Option ℤ) (payload : Payload)
    (hstored : hasText T payload.startPhrase ∨ hasText T payload.endPhrase →
      wantedOfLoaded t.rows adStart adEnd firstSeq lastSeq payload ≠ [] →
        StoredReadAlike (wantedOfLoaded t.rows adStart adEnd firstSeq lastSeq payload) stored)
    (hcontext : hasText T payload.startPhrase ∨ hasText T payload.endPhrase →
      ∀ first ∈ firstSeq, ∀ last ∈ lastSeq, ContextLoaded t.rows adStart adEnd first last payload)
    (hfirst : ¬hasText T payload.startPhrase →
      (∀ r ∈ t.rows, payload.startSegmentSeq ≠ some r.sequenceNum) →
      hasText T payload.startWord ∨ payload.startWordIndex.isSome →
      ∀ first ∈ firstSeq, ∀ last ∈ lastSeq, FirstLoaded t.rows first last payload) :
    wbRefineFromLlm T t.rows stored adStart adEnd firstSeq lastSeq payload =
      wbResolve T t.rows stored adStart adEnd firstSeq lastSeq payload := by
  let loaded := (loadRows t.rows firstSeq lastSeq payload).map (withWords [])
  let all := t.rows.map (withWords [])
  let wanted := wantedSeqs loaded adStart adEnd firstSeq lastSeq payload
  let words := if needsWords T payload then queryWbWordTimestampsForSeqs wanted stored else []
  let words' := queryWbWordTimestampsBySeq stored
  have hattach : hasText T payload.startPhrase ∨ hasText T payload.endPhrase →
      ∀ s : WbSegment, s.sequenceNum ∈ wanted → attach words s = attach words' s := by
    intro htext s hs
    have hneeds : needsWords T payload := by
      rcases htext with h | h <;> simp [needsWords, h]
    have hread : StoredReadAlike wanted stored := hstored htext (List.ne_nil_of_mem hs)
    simp only [attach, words, words', hneeds, if_true, get_queryWbWordTimestampsForSeqs hread hs]
  have hphrase : ∀ seq, seq = payload.startSegmentSeq ∨ seq = payload.endSegmentSeq →
      hasText T payload.startPhrase ∨ hasText T payload.endPhrase →
      selectContext loaded adStart adEnd firstSeq lastSeq =
        selectContext all adStart adEnd firstSeq lastSeq ∧
      ∀ s, findSegment all seq = some s ∨
        s ∈ selectContext loaded adStart adEnd firstSeq lastSeq →
        attach words s = attach words' s := by
    intro seq hseq htext
    refine ⟨selectContext_loadRows t adStart adEnd firstSeq lastSeq payload (hcontext htext),?_⟩
    rintro s (hs | hs)
    · apply hattach htext
      have hnum := findSegment_sequenceNum hs
      rcases hseq with rfl | rfl <;> simp [wanted, wantedSeqs, hnum]
    · apply hattach htext
      simp only [wanted, wantedSeqs, List.mem_append]
      exact .inl (.inl (List.mem_map_of_mem hs))
  have hfind : ∀ seq, seq = payload.startSegmentSeq ∨ seq = payload.endSegmentSeq →
      findSegment loaded seq = findSegment all seq :=
    fun seq hseq => findSegment_loadRows t.rows firstSeq lastSeq payload hseq
  change resolve T ((loadRows t.rows firstSeq lastSeq payload).map (withWords words)) adStart adEnd
      firstSeq lastSeq payload =
    resolve T (t.rows.map (withWords words')) adStart adEnd firstSeq lastSeq payload
  rw [map_withWords words,map_withWords words']
  simp only [resolve, selectContext_map (attach_times words),
    selectContext_map (attach_times words')]
  congr 1
  · refine refineStart_attach (hfind _ (.inl rfl)) (fun h => hphrase _ (.inl rfl) (.inl h)) ?_ adStart
    intro htext hnone hword
    have hhead := head?_loadRows (hfirst htext (findSegment_eq_none hnone) hword)
    simp only [loaded, all, List.head?_map, hhead]
  · exact refineEnd_attach (hfind _ (.inr rfl)) (fun h => hphrase _ (.inr rfl) (.inr h)) adEnd

/-- The text functions on ASCII. -/
def asciiText : Text := ⟨isWhitespace,fun s => String.ofList (s.toList.map Char.toLower)⟩

/-- One stored entry with one timed word. -/
def helloEntry (seq : ℤ) : Value :=
  .object [("sequence_num",.int seq),
    ("words",.array [.object [("word",.str "Hello"),("start",.int 3),("end",.int 4)]])]

/-- A payload that asks for a start phrase. -/
def helloPayload : Payload := ⟨none,some "hello",none,none,none,none,none,"",""⟩

/-- A payload that asks for a start word without a segment. -/
def wordPayload : Payload := ⟨none,none,none,none,some "hello",none,none,"",""⟩

def helloTranscript : Transcript where
  rows := [⟨0,0,10,"Oh, hello"⟩,⟨20,100,110,"the ad"⟩]
  sorted := by decide

/-- Without a loaded segment no word is wanted and no stored entry is read. -/
example : wantedOfLoaded [] 0 10 (some 0) (some 0) helloPayload = [] := rfl

end Podly.WordBoundary

/-! The payload of a parsed reply as the sidecar takes it, and the sidecar's answer to a reply. -/
namespace Podly.WordBoundary
open Serde

/-- How strings are read as numbers; `none` where that fails. -/
structure Numerals where
  toInt : String → Option ℤ
  toFloat : String → Option ℚ

/-- A float cut off towards zero. -/
def truncate (q : ℚ) : ℤ := q.num.tdiv q.den

/-- The conversion of a float to a 64-bit integer; outside the range, to its nearest end. -/
def floatAsI64 (q : ℚ) : ℤ := max (-9223372036854775808) (min (truncate q) 9223372036854775807)

variable (T : Text) (N : Numerals)

/-- `wb_coerce_int`. -/
def coerceInt : Option Value → Option ℤ
  | none | some .null => none
  | some (.str s) =>
    match N.toInt (T.trim s) with
    | some n => some n
    | none => (N.toFloat (T.trim s)).map floatAsI64
  | some value =>
    match value.asI64 with
    | some n => some n
    | none => value.asF64.map floatAsI64

/-- `wb_coerce_optional_str`. -/
def coerceOptionalStr (value : Option Value) : Option String :=
  (value.bind Value.asStr).bind (fun s => if T.trim s = "" then none else some (T.trim s))

/-- `wb_coerce_reason_str`. -/
def coerceReasonStr (value : Option Value) : String := (value.bind Value.asStr).getD ""

/-- `wb_extract_payload`. -/
def wbExtractPayload (parsed : Value) : Payload :=
  let occurrence := parsed.get "occurrence" <|> parsed.get "occurance"
  { startSegmentSeq := coerceInt T N (parsed.get "refined_start_segment_seq"),
    startPhrase := coerceOptionalStr T (parsed.get "refined_start_phrase"),
    endSegmentSeq := coerceInt T N (parsed.get "refined_end_segment_seq"),
    endPhrase := coerceOptionalStr T (parsed.get "refined_end_phrase"),
    startWord := coerceOptionalStr T (parsed.get "refined_start_word"),
    startOccurrence := coerceOptionalStr T occurrence,
    startWordIndex := coerceInt T N (parsed.get "refined_start_word_index"),
    startReason := coerceReasonStr (parsed.get "start_adjustment_reason"),
    endReason := coerceReasonStr (parsed.get "end_adjustment_reason") }

inductive ParseStatus
  | ok
  | salvaged
  | failed
deriving DecidableEq, Repr

/-- What the sidecar answers to a reply of the model. -/
structure SidecarAnswer where
  parseStatus : ParseStatus
  start : Side
  stop : Side
  startReason : String
  endReason : String
deriving DecidableEq

/-- `run_transcript_wb_refine_from_llm`, for any parser of replies: the parsed object, if there is
one, and whether it was salvaged from single fields. -/
def runTranscriptWbRefineFromLlm (parse : String → Option Value × Bool) (rows : List Row)
    (stored : Option Value) (adStart adEnd : ℚ) (firstSeq lastSeq : Option ℤ) (content : String) :
    SidecarAnswer :=
  match parse content with
  | (none,_) => ⟨.failed,⟨adStart,false,none⟩,⟨adEnd,false,none⟩,"",""⟩
  | (some parsed,salvaged) =>
    let payload := wbExtractPayload T N parsed
    let sides := wbRefineFromLlm T rows stored adStart adEnd firstSeq lastSeq payload
    ⟨if salvaged then .salvaged else .ok,sides.1,sides.2,payload.startReason,payload.endReason⟩

/-- No start moves further ahead of the ad than allowed. -/
theorem le_refineStart (segments context : List WbSegment) (adStart : ℚ) (payload : Payload) :
    adStart - maxStartExtensionSeconds ≤ (refineStart T segments context adStart payload).time := by
  have horig : adStart - maxStartExtensionSeconds ≤ adStart := by
    simp [maxStartExtensionSeconds]
  unfold refineStart
  split
  · split
    · exact le_max_right _ _
    · exact horig
  · split
    · exact le_max_right _ _
    · split
      · exact le_max_right _ _
      · exact horig

/-- No end moves further behind the ad than allowed. -/
theorem refineEnd_le (segments context : List WbSegment) (adEnd : ℚ) (payload : Payload) :
    (refineEnd T segments context adEnd payload).time ≤ adEnd + maxEndExtensionSeconds := by
  have horig : adEnd ≤ adEnd + maxEndExtensionSeconds := by
    simp [maxEndExtensionSeconds]
  unfold refineEnd
  split
  · split
    · exact min_le_right _ _
    · exact horig
  · split
    · exact min_le_right _ _
    · exact horig

/-- The sidecar's answer stays within the extensions, whatever the reply. -/
theorem sidecar_bounds (parse : String → Option Value × Bool) (rows : List Row)
    (stored : Option Value) (adStart adEnd : ℚ) (firstSeq lastSeq : Option ℤ) (content : String) :
    adStart - maxStartExtensionSeconds ≤ (runTranscriptWbRefineFromLlm T N parse rows stored
        adStart adEnd firstSeq lastSeq content).start.time ∧
      (runTranscriptWbRefineFromLlm T N parse rows stored adStart adEnd firstSeq lastSeq
        content).stop.time ≤ adEnd + maxEndExtensionSeconds := by
  unfold runTranscriptWbRefineFromLlm
  split
  · simp [maxStartExtensionSeconds, maxEndExtensionSeconds]
  · exact ⟨le_refineStart T _ _ adStart _,refineEnd_le T _ _ adEnd _⟩

end Podly.WordBoundary
