import Podly.Classifier.Blocks
import Podly.Classifier.Marks
import Podly.Classifier.Requests
import Podly.RepeatAds.Scan

/-! Detection marks each segment once: what the loop over the chunks, the expansion to neighbours and
the pass over repeated ads do to the marks. -/
namespace Podly.Classifier
open Store Processes Process

/-- No segment carries two identifications, and those that were marked are. -/
structure Once (before after : IdentificationTable) : Prop where
  once : MarkedOnce after
  kept : ∀ segmentId, Marked before segmentId → Marked after segmentId

theorem Once.refl {t : IdentificationTable} (h : MarkedOnce t) : Once t t := ⟨h,fun _ h => h⟩

/-- Rows for different segments without identifications. -/
theorem Once.inserts {t u : IdentificationTable} (h : Once t u) {rows : List NewIdentification}
    (hrows : (rows.map NewIdentification.transcriptSegmentId).Nodup)
    (hnew : ∀ new ∈ rows, ¬Marked u new.transcriptSegmentId) :
    Once t (rows.foldl insertIdentification u) := by
  refine ⟨?_,fun segmentId hmarked => ?_⟩
  · rw [markedOnce_insertIdentifications h.once hrows]
    exact fun new hmem hmarked => absurd hmarked (hnew new hmem)
  · exact marked_insertIdentifications.mpr (.inl (h.kept segmentId hmarked))

namespace Setup
variable {setup : Setup} {records : Records}

section Loop
variable {t : IdentificationTable}

theorem performLlmCall_quiet (adaptive : Option ℤ) (call : ModelCall) :
    (setup.performLlmCall adaptive call).Labels Quiet := by
  unfold performLlmCall
  split
  · split
    · exact (updateModelCall_quiet _ _).bind fun _ => trivial
    · exact callModel_quiet _ _ _ _ _ _ _
  · split <;> trivial

theorem processOutcome_once (chunk : List TranscriptSegment) (call : ModelCall)
    (h : Once t records.identifications) :
    (setup.processOutcome chunk call).Meets Records.act (fun _ _ => True)
      (fun _ records => Once t records.identifications) records := by
  unfold processOutcome
  simp only [meets_bind,meets_store]
  cases records.modelCalls.table.get call.id with
  | none => exact h
  | some call =>
    dsimp only
    cases call.response with
    | none => exact h
    | some response =>
      dsimp only
      split
      · rw [processSuccessfulResponse_meets]
        cases setup.cleanAndParseModelOutput response with
        | none => exact h
        | some predictions =>
          have hfresh : (createIdentifications records.identifications call.id setup.minConfidence
              chunk predictions).Fresh records.identifications :=
            createIdentifications_fresh predictions
          exact h.inserts hfresh.distinct fun new hnew => (hfresh.unmarked new hnew).1
      · exact h

theorem processChunk_once (adaptive : Option ℤ) (first last : TranscriptSegment)
    (chunk : List TranscriptSegment) (userPrompt : String)
    (h : Once t records.identifications) :
    (setup.processChunk adaptive first last chunk userPrompt).Meets Records.act (fun _ _ => True)
      (fun _ records => Once t records.identifications) records := by
  unfold processChunk
  refine (meets_of_quiet (upsertModelCall_quiet _ _) h).bind ?_
  intro call records h
  cases call with
  | none => exact h
  | some call =>
    refine (meets_of_quiet (performLlmCall_quiet adaptive call) h).bind ?_
    intro result records h
    cases result with
    | returned => exact (processOutcome_once chunk call h).bind fun _ _ h => h
    | _ => exact h

theorem stepChunk_once (overlap : List TranscriptSegment) (index rounds : ℕ)
    (round : ℕ × ClassifierState) (h : Once t records.identifications) :
    (setup.stepChunk overlap index rounds round).Meets Records.act (fun _ _ => True)
      (fun _ records => Once t records.identifications) records := by
  induction rounds generalizing records round with
  | zero => exact h
  | succ rounds ih =>
    obtain ⟨maxNewSegments,state⟩ := round
    unfold stepChunk
    dsimp only
    split
    · split
      · exact h
      · refine (processChunk_once _ _ _ _ _ h).bind ?_
        intro result records h
        cases result with
        | error error => exact h
        | ok answer =>
          dsimp only
          split
          · exact ih _ h
          · exact h
          · exact h
    · exact h

/-- The loop over the chunks marks each segment once. -/
theorem classifyChunks_once (n index : ℕ) (overlap : List TranscriptSegment)
    (state : ClassifierState) (h : Once t records.identifications) :
    (setup.classifyChunks n index overlap state).Meets Records.act (fun _ _ => True)
      (fun _ records => Once t records.identifications) records := by
  induction n generalizing records index overlap state with
  | zero => exact h
  | succ n ih =>
    unfold classifyChunks
    split
    · refine (stepChunk_once _ _ _ _ h).bind ?_
      rintro ⟨result,state⟩ records h
      cases result with
      | error error => exact h
      | ok next =>
        dsimp only
        split
        · exact h
        · exact ih _ _ _ h
    · exact h

end Loop

end Setup

/-! The expansion to neighbours -/

section Expand
variable {transcript : PostTranscript} {analyze : String → Signals}
  {enableBoundaryRefinement : Bool} {modelCallId : ℕ} {existing : List ℤ}
  {state : List ℤ × List NewIdentification} {done : ℤ → Prop}

/-- The rule lets a segment be marked next to an ad. -/
def Joins (analyze : String → Signals) (enableBoundaryRefinement : Bool)
    (ad segment : TranscriptSegment) : Prop :=
  shouldExpandNeighbor enableBoundaryRefinement (analyze segment.text)
    |segment.startTime - ad.startTime|

/-- The rows so far are for the segments that the rule let join and that were not there, once each,
and the list of those that are there knows them. -/
structure Expanded (modelCallId : ℕ) (existing : List ℤ) (done : ℤ → Prop)
    (state : List ℤ × List NewIdentification) : Prop where
  seen : ∀ segmentId, segmentId ∈ state.1 ↔
    segmentId ∈ existing ∨ ∃ row ∈ state.2, row.transcriptSegmentId = segmentId
  rows : ∀ segmentId, (∃ row ∈ state.2, row.transcriptSegmentId = segmentId) ↔
    segmentId ∉ existing ∧ done segmentId
  distinct : (state.2.map NewIdentification.transcriptSegmentId).Nodup
  call : ∀ row ∈ state.2, row.modelCallId = modelCallId

theorem Expanded.congr {done' : ℤ → Prop} (h : Expanded modelCallId existing done state)
    (hdone : ∀ segmentId, segmentId ∉ existing → (done segmentId ↔ done' segmentId)) :
    Expanded modelCallId existing done' state := by
  refine ⟨h.seen,fun segmentId => ?_,h.distinct,h.call⟩
  rw [h.rows]
  exact and_congr_right (hdone segmentId)

/-- One neighbour is marked where the rule lets it join and it is not marked under the call. -/
theorem expandNeighbor_expanded (h : Expanded modelCallId existing done state)
    (ad segment : TranscriptSegment) :
    Expanded modelCallId existing (fun segmentId => done segmentId ∨
        segment.id = segmentId ∧ Joins analyze enableBoundaryRefinement ad segment)
      (expandNeighbor analyze enableBoundaryRefinement modelCallId ad state segment) := by
  rw [expandNeighbor]
  split
  · rename_i hseen
    refine h.congr fun segmentId hnot => (or_iff_left_of_imp ?_).symm
    rintro ⟨rfl,-⟩
    have hrow := ((h.seen segment.id).mp hseen).resolve_left hnot
    exact ((h.rows segment.id).mp hrow).2
  · rename_i hnew
    split
    · rename_i hjoins
      have hexisting : segment.id ∉ existing := fun hmem => hnew ((h.seen _).mpr (.inl hmem))
      have hrow : ¬∃ row ∈ state.2, row.transcriptSegmentId = segment.id := fun hmem =>
        hnew ((h.seen _).mpr (.inr hmem))
      have hrows : ∀ segmentId confidence, (∃ row ∈ state.2 ++
          [⟨segment.id,modelCallId,confidence⟩], row.transcriptSegmentId = segmentId) ↔
            (∃ row ∈ state.2, row.transcriptSegmentId = segmentId) ∨ segment.id = segmentId := by
        intro segmentId confidence
        simp [or_and_right,exists_or]
      refine ⟨?_,?_,?_,?_⟩
      · intro segmentId
        rw [hrows,List.mem_cons,h.seen,eq_comm (a := segmentId),or_comm,or_assoc]
      · intro segmentId
        rw [hrows,h.rows]
        constructor
        · rintro (⟨hnot,hdone⟩ | rfl)
          · exact ⟨hnot,.inl hdone⟩
          · exact ⟨hexisting,.inr ⟨rfl,hjoins⟩⟩
        · rintro ⟨hnot,hdone | ⟨rfl,-⟩⟩
          · exact .inl ⟨hnot,hdone⟩
          · exact .inr rfl
      · rw [List.map_append,List.nodup_append]
        refine ⟨h.distinct,by simp,?_⟩
        rintro a ha b hb rfl
        have hid : a = segment.id := List.mem_singleton.mp hb
        rw [hid] at ha
        exact hrow (List.mem_map.mp ha)
      · intro row hmem
        rcases List.mem_append.mp hmem with hmem | hmem
        · exact h.call row hmem
        · rw [List.mem_singleton.mp hmem]
    · rename_i hjoins
      exact h.congr fun segmentId _ => (or_iff_left_of_imp fun hpair => absurd hpair.2 hjoins).symm

theorem foldl_expandNeighbor_expanded (h : Expanded modelCallId existing done state)
    (ad : TranscriptSegment) (segments : List TranscriptSegment) :
    Expanded modelCallId existing (fun segmentId => done segmentId ∨ ∃ segment ∈ segments,
        segment.id = segmentId ∧ Joins analyze enableBoundaryRefinement ad segment)
      (segments.foldl (expandNeighbor analyze enableBoundaryRefinement modelCallId ad) state) := by
  induction segments generalizing done state with
  | nil => exact h.congr fun segmentId _ => by simp
  | cons segment segments ih =>
    refine (ih (expandNeighbor_expanded h ad segment)).congr fun segmentId _ => ?_
    simp only [List.mem_cons,exists_eq_or_imp,or_assoc]

theorem foldl_neighbors_expanded (transcript : PostTranscript) (analyze : String → Signals)
    (enableBoundaryRefinement : Bool) (window : ℕ) (h : Expanded modelCallId existing done state)
    (ads : List AdRow) :
    Expanded modelCallId existing (fun segmentId => done segmentId ∨ ∃ ad ∈ ads,
        ∃ segment ∈ neighbors transcript window ad.segment, segment.id = segmentId ∧
          Joins analyze enableBoundaryRefinement ad.segment segment)
      (ads.foldl (fun state ad => (neighbors transcript window ad.segment).foldl
        (expandNeighbor analyze enableBoundaryRefinement modelCallId ad.segment) state) state) := by
  induction ads generalizing done state with
  | nil => exact h.congr fun segmentId _ => by simp
  | cons ad ads ih =>
    refine (ih (foldl_expandNeighbor_expanded h ad.segment _)).congr fun segmentId _ => ?_
    simp only [List.mem_cons,exists_eq_or_imp,or_assoc]

end Expand

namespace Setup
variable (setup : Setup)

/-- `expand_neighbors_bulk` as `classify` calls it, with a window of any size. -/
def expandNeighborsBy (window : ℕ) : Classification PUnit := do
  let records ← store
  let ads := adIdentifications setup.rowOrder setup.transcript records.identifications
  match ads with
  | [] => pure ⟨⟩
  | ad::_ =>
    match records.modelCalls.table.get ad.identification.modelCallId with
    | none => pure ⟨⟩
    | some call => setup.insertIdentificationsBatched (expandNeighborsBulk setup.transcript
        setup.analyze setup.refiner.isSome call.id window ads)

theorem expandNeighbors_eq : setup.expandNeighbors = setup.expandNeighborsBy 5 := rfl

/-- A segment within the window of an identified one that the rule lets join it. -/
def ExpandsTo (window : ℕ) (t : IdentificationTable) (segmentId : ℤ) : Prop :=
  ∃ ad ∈ adIdentifications setup.rowOrder setup.transcript t,
    ∃ segment ∈ neighbors setup.transcript window ad.segment, segment.id = segmentId ∧
      Joins setup.analyze setup.refiner.isSome ad.segment segment

/-- Every segment to expand to that carries an identification carries one of the call that the
expansion uses, which is that of the first identification. -/
def ExpandsPastMarks (window : ℕ) (t : IdentificationTable) : Prop :=
  ∀ ad ∈ (adIdentifications setup.rowOrder setup.transcript t).head?, ∀ segmentId,
    setup.ExpandsTo window t segmentId → Marked t segmentId →
      MarkedBy t segmentId ad.identification.modelCallId

/-- The identifications after the expansion. -/
def expansion (window : ℕ) (t : IdentificationTable) : IdentificationTable :=
  match adIdentifications setup.rowOrder setup.transcript t with
  | [] => t
  | ad::ads => (expandNeighborsBulk setup.transcript setup.analyze setup.refiner.isSome
      ad.identification.modelCallId window (ad::ads)).foldl insertIdentification t

section Expansion
variable {setup} {window : ℕ} {t : IdentificationTable} {records : Records} {segmentId : ℤ}

theorem mem_neighbors {transcript : PostTranscript} {segment neighbor : TranscriptSegment}
    (h : neighbor ∈ neighbors transcript window segment) :
    neighbor ∈ transcript.segments.rows := by
  obtain ⟨offset,-,hfound⟩ := List.mem_filterMap.mp h
  split at hfound
  · cases hfound
  · exact List.mem_of_find?_eq_some hfound

/-- The rows of the expansion are for the segments to expand to that are not marked under its
call. -/
theorem expandNeighborsBulk_spec (window : ℕ) {ad : AdRow} {ads : List AdRow}
    (hads : adIdentifications setup.rowOrder setup.transcript t = ad::ads) :
    let rows := expandNeighborsBulk setup.transcript setup.analyze setup.refiner.isSome
      ad.identification.modelCallId window (ad::ads)
    (rows.map NewIdentification.transcriptSegmentId).Nodup ∧
      (∀ row ∈ rows, row.modelCallId = ad.identification.modelCallId) ∧
      ∀ segmentId, (∃ row ∈ rows, row.transcriptSegmentId = segmentId) ↔
        ¬MarkedBy t segmentId ad.identification.modelCallId ∧
          setup.ExpandsTo window t segmentId := by
  intro rows
  have hempty : Expanded ad.identification.modelCallId
      (((ad::ads).filter (fun other =>
          other.identification.modelCallId = ad.identification.modelCallId)).map
        (fun other => other.segment.id)) (fun _ => False)
      (((ad::ads).filter (fun other =>
          other.identification.modelCallId = ad.identification.modelCallId)).map
        (fun other => other.segment.id),[]) := ⟨by simp,by simp,List.nodup_nil,nofun⟩
  have hrows := foldl_neighbors_expanded setup.transcript setup.analyze setup.refiner.isSome window
    hempty (ad::ads)
  refine ⟨hrows.distinct,hrows.call,fun segmentId => (hrows.rows segmentId).trans ?_⟩
  rw [false_or,ExpandsTo,hads]
  refine and_congr_left fun hexpands => not_congr ?_
  obtain ⟨other,-,segment,hsegment,rfl,-⟩ := hexpands
  have hsegment := mem_neighbors hsegment
  simp only [List.mem_map,List.mem_filter,decide_eq_true_eq,← hads]
  constructor
  · rintro ⟨other,⟨hmem,hcall⟩,hid⟩
    obtain ⟨hidentification,-,hsame⟩ := mem_adIdentifications.mp hmem
    exact ⟨other.identification,hidentification,hsame.symm.trans hid,hcall⟩
  · rintro ⟨identification,hmem,hid,hcall⟩
    exact ⟨⟨identification,segment⟩,
      ⟨mem_adIdentifications.mpr ⟨hmem,hsegment,hid.symm⟩,hcall⟩,rfl⟩

/-- The expansion gives no segment a second identification exactly when it expands past the marks of
other calls. -/
theorem markedOnce_expansion_iff (h : MarkedOnce t) :
    MarkedOnce (setup.expansion window t) ↔ setup.ExpandsPastMarks window t := by
  rw [expansion,ExpandsPastMarks]
  cases hads : adIdentifications setup.rowOrder setup.transcript t with
  | nil => simpa using h
  | cons ad ads =>
    obtain ⟨hdistinct,hcall,hrows⟩ := expandNeighborsBulk_spec window hads
    dsimp only
    rw [markedOnce_insertIdentifications h hdistinct]
    simp only [List.head?_cons,Option.mem_some_iff,forall_eq']
    constructor
    · intro hall segmentId hexpands hmarked
      by_contra hnot
      obtain ⟨row,hrow,rfl⟩ := (hrows segmentId).mpr ⟨hnot,hexpands⟩
      have hby := hall row hrow hmarked
      rw [hcall row hrow] at hby
      exact hnot hby
    · intro hpast row hrow hmarked
      have hexpands := ((hrows row.transcriptSegmentId).mp ⟨row,hrow,rfl⟩).2
      rw [hcall row hrow]
      exact hpast row.transcriptSegmentId hexpands hmarked

theorem marked_expansion (h : Marked t segmentId) :
    Marked (setup.expansion window t) segmentId := by
  rw [expansion]
  split
  · exact h
  · exact marked_insertIdentifications.mpr (.inl h)

/-- Past the marks of other calls the expansion marks the unmarked segments to expand to. -/
theorem gains_expansion (hpast : setup.ExpandsPastMarks window t) :
    Gains t (setup.expansion window t) segmentId ↔
      ¬Marked t segmentId ∧ setup.ExpandsTo window t segmentId := by
  rw [ExpandsPastMarks] at hpast
  rw [expansion]
  cases hads : adIdentifications setup.rowOrder setup.transcript t with
  | nil =>
    refine iff_of_false ?_ ?_
    · rintro ⟨ad,hmem,hnew,-⟩
      exact hnew hmem
    · rintro ⟨-,ad,hmem,-⟩
      rw [hads] at hmem
      cases hmem
  | cons ad ads =>
    obtain ⟨hdistinct,hcall,hrows⟩ := expandNeighborsBulk_spec window hads
    rw [hads] at hpast
    dsimp only
    rw [gains_insertIdentifications hdistinct,hrows]
    · refine and_congr_left fun hexpands => not_congr ⟨MarkedBy.marked,fun hmarked => ?_⟩
      exact hpast ad rfl segmentId hexpands hmarked
    · intro row hrow
      rw [hcall row hrow]
      exact ((hrows row.transcriptSegmentId).mp ⟨row,hrow,rfl⟩).1

/-- The process of the expansion leaves its identifications. -/
theorem expandNeighborsBy_meets {Q : PUnit → Records → Prop} (howned : records.AdsOwned) :
    (setup.expandNeighborsBy window).Meets Records.act (fun _ _ => True) Q records ↔
      Q ⟨⟩ { records with
        identifications := setup.expansion window records.identifications } := by
  unfold expandNeighborsBy
  rw [meets_bind,meets_store]
  dsimp only
  rw [expansion]
  cases hads : adIdentifications setup.rowOrder setup.transcript records.identifications with
  | nil => exact Iff.rfl
  | cons ad ads =>
    have hmem : ad ∈ adIdentifications setup.rowOrder setup.transcript records.identifications :=
      hads ▸ List.mem_cons_self
    obtain ⟨caller,-,call,hcall,hid,-⟩ := howned _ (mem_adIdentifications.mp hmem).1
    have hget := Table.get_eq_some.mpr ⟨hcall,hid⟩
    simp only [hget]
    rw [insertIdentificationsBatched_meets,hid]
    exact Iff.rfl

end Expansion

/-! The pass over repeated ads -/

/-- The transcript as the search for repeats is given it. -/
def repeatSegments : List Podly.RepeatAds.Segment :=
  setup.segments.map (fun s => ⟨s.sequenceNum,s.startTime,Block.stopOf s,s.text⟩)

/-- The candidates are those of the scan of the transcript. -/
def ScansRepeats : Prop :=
  ∀ repeatAds ∈ setup.repeatAds, ∃ (tokenize : String → List String) (threshold : ℚ),
    ∀ first last detected, ∃ candidates, Podly.RepeatAds.findRepeatCandidates tokenize
        (setup.segments.length + 1) setup.repeatSegments first last detected threshold =
          some candidates ∧
      repeatAds.findRepeatCandidates first last detected =
        candidates.map (fun c => (c.firstSeq,c.lastSeq))

/-- No segment of a range carries an identification. -/
def Clean (u : IdentificationTable) (candidate : ℤ × ℤ) : Prop :=
  ∀ s ∈ setup.segments, candidate.1 ≤ s.sequenceNum → s.sequenceNum ≤ candidate.2 →
    ¬Marked u s.id

/-- The rows found so far are for different segments that carry no identification, and whose sequence
numbers are kept. -/
structure FoundFresh (u : IdentificationTable) (found : Repeats) : Prop where
  rows : ∀ row ∈ found.newIdentifications, ∃ s ∈ setup.segments,
    row.transcriptSegmentId = s.id ∧ s.sequenceNum ∈ found.foundSeqs ∧ ¬Marked u s.id
  distinct : (found.newIdentifications.map NewIdentification.transcriptSegmentId).Nodup

section Repeats
variable {setup} {t u : IdentificationTable} {records : Records} {found : Repeats}
  {repeatAds : RepeatAds}

theorem mem_windowSegments {first last : ℤ} {s : TranscriptSegment}
    (h : s ∈ setup.windowSegments first last) :
    s ∈ setup.segments ∧ first ≤ s.sequenceNum ∧ s.sequenceNum ≤ last := by
  obtain ⟨seq,hseq,hfound⟩ := List.mem_filterMap.mp h
  obtain ⟨n,hn,rfl⟩ := List.mem_map.mp hseq
  rw [List.mem_range] at hn
  have hnum : s.sequenceNum = first + n := by simpa using List.find?_some hfound
  exact ⟨List.mem_of_find?_eq_some hfound,by omega,by omega⟩

theorem windowSegments_nodup (first last : ℤ) :
    ((setup.windowSegments first last).map TranscriptSegment.id).Nodup := by
  have hnum : ∀ {s : TranscriptSegment} {seq : ℤ}, setup.transcript.bySequenceNum seq = some s →
      s.sequenceNum = seq := fun h => by simpa using List.find?_some h
  have hseqs : (((List.range (last + 1 - first).toNat).map (fun n : ℕ => first + n))).Nodup :=
    List.nodup_range.map (fun a b h => by simpa using h)
  have hsegments : (setup.windowSegments first last).Nodup := by
    refine hseqs.filterMap ?_
    intro a b s ha hb
    exact (hnum ha).symm.trans (hnum hb)
  refine List.Nodup.map_on ?_ hsegments
  intro a ha b hb h
  exact Table.eq_of_key_eq (mem_windowSegments ha).1 (mem_windowSegments hb).1 h

/-- A candidate that is confirmed gives a row for each segment of its window. -/
theorem confirmAndRecordRepeat_rows (ad : AdMeta) (candidate : ℤ × ℤ)
    (hu : records.identifications = u) :
    (setup.confirmAndRecordRepeat repeatAds ad candidate).Meets Records.act (fun _ _ => True)
      (fun rows records => records.identifications = u ∧ (rows = [] ∨ ∃ id confidence,
        rows = (setup.windowSegments candidate.1 candidate.2).map
          (fun s => ⟨s.id,id,confidence⟩))) records := by
  unfold confirmAndRecordRepeat
  dsimp only
  split
  · exact ⟨hu,.inl rfl⟩
  · refine (meets_of_quiet (I := (· = u)) (confirm_quiet _ _ _ _ _ _) hu).bind ?_
    intro confirmation records hu
    split
    · exact ⟨hu,.inl rfl⟩
    · split
      · exact ⟨hu,.inl rfl⟩
      · exact ⟨hu,.inr ⟨_,_,rfl⟩⟩

theorem FoundFresh.window (h : setup.FoundFresh u found) {candidate : ℤ × ℤ}
    (hclean : setup.Clean u candidate) {seqs : List ℤ}
    (hseqs : ∀ seq, seq ∈ seqs ↔ candidate.1 ≤ seq ∧ seq ≤ candidate.2)
    (hnew : ∀ seq ∈ seqs, seq ∉ found.foundSeqs) (id : ℕ) (confidence : ℚ) :
    setup.FoundFresh u { found with
      foundSeqs := found.foundSeqs ++ seqs,
      newIdentifications := found.newIdentifications ++
        (setup.windowSegments candidate.1 candidate.2).map (fun s => ⟨s.id,id,confidence⟩) } := by
  constructor
  · intro row hrow
    rcases List.mem_append.mp hrow with hrow | hrow
    · obtain ⟨s,hs,hid,hseq,hunmarked⟩ := h.rows row hrow
      exact ⟨s,hs,hid,List.mem_append_left _ hseq,hunmarked⟩
    · obtain ⟨s,hs,rfl⟩ := List.mem_map.mp hrow
      obtain ⟨hmem,hfirst,hlast⟩ := mem_windowSegments hs
      exact ⟨s,hmem,rfl,List.mem_append_right _ ((hseqs _).mpr ⟨hfirst,hlast⟩),
        hclean s hmem hfirst hlast⟩
  · rw [List.map_append,List.map_map,List.nodup_append]
    refine ⟨h.distinct,windowSegments_nodup _ _,?_⟩
    rintro _ ha b hb rfl
    obtain ⟨row,hrow,hid⟩ := List.mem_map.mp ha
    obtain ⟨s,hs,hsid⟩ := List.mem_map.mp hb
    obtain ⟨other,hother,hrowId,hseq,-⟩ := h.rows row hrow
    obtain ⟨hmem,hfirst,hlast⟩ := mem_windowSegments hs
    obtain rfl : other = s :=
      Table.eq_of_key_eq hother hmem (hrowId.symm.trans (hid.trans hsid.symm))
    exact hnew _ ((hseqs _).mpr ⟨hfirst,hlast⟩) hseq

theorem confirmCandidates_fresh (ad : AdMeta) (candidates : List (ℤ × ℤ))
    (hclean : ∀ candidate ∈ candidates, setup.Clean u candidate)
    (hu : records.identifications = u) (h : setup.FoundFresh u found) :
    (setup.confirmCandidates repeatAds ad candidates found).Meets Records.act (fun _ _ => True)
      (fun found records => records.identifications = u ∧ setup.FoundFresh u found) records := by
  induction candidates generalizing records found with
  | nil => exact ⟨hu,h⟩
  | cons candidate candidates ih =>
    obtain ⟨hfirst,hrest⟩ := List.forall_mem_cons.mp hclean
    unfold confirmCandidates
    dsimp only
    split
    · exact ih hrest hu h
    · rename_i hnew
      refine (confirmAndRecordRepeat_rows ad candidate hu).bind ?_
      rintro rows records ⟨hu,hrows⟩
      split
      · exact ih hrest hu h
      · rename_i hne
        obtain ⟨id,confidence,rfl⟩ := hrows.resolve_left hne
        refine ih hrest hu (h.window hfirst ?_ ?_ id confidence)
        · intro seq
          rw [← Podly.RepeatAds.mem_seqRange,Podly.RepeatAds.seqRange,List.mem_toFinset]
        · intro seq hseq hfound
          exact hnew (List.any_eq_true.mpr ⟨seq,hseq,by simpa using hfound⟩)

theorem detectRepeats_fresh (detected : List (ℤ × ℤ)) (ads : List AdMeta)
    (hclean : ∀ first last, ∀ candidate ∈ repeatAds.findRepeatCandidates first last detected,
      setup.Clean u candidate)
    (hu : records.identifications = u) (h : setup.FoundFresh u found) :
    (setup.detectRepeats repeatAds detected ads found).Meets Records.act (fun _ _ => True)
      (fun found records => records.identifications = u ∧ setup.FoundFresh u found) records := by
  induction ads generalizing records found with
  | nil => exact ⟨hu,h⟩
  | cons ad ads ih =>
    unfold detectRepeats
    dsimp only
    split
    · exact ih hu h
    · have hsame : setup.FoundFresh u { found with
          seenSignatures := repeatAds.signature ad.text::found.seenSignatures } :=
        ⟨h.rows,h.distinct⟩
      refine (confirmCandidates_fresh ad _ (hclean _ _) hu hsame).bind ?_
      rintro found records ⟨hu,h⟩
      exact ih hu h

/-- A marked segment lies in the range of a detected block. -/
theorem exists_detected {s : TranscriptSegment} (hs : s ∈ setup.segments) (hmarked : Marked u s.id) :
    ∃ block ∈ groupIntoBlocks (adIdentifications setup.rowOrder setup.transcript u),
      block.firstSequenceNum ≤ s.sequenceNum ∧ s.sequenceNum ≤ block.lastSequenceNum := by
  obtain ⟨identification,hmem,hid⟩ := hmarked
  have hrow : (⟨identification,s⟩ : AdRow) ∈ adIdentifications setup.rowOrder setup.transcript u :=
    mem_adIdentifications.mpr ⟨hmem,hs,hid.symm⟩
  obtain ⟨block,hblock,hrow⟩ := exists_block_of_mem hrow
  have hnum : s.sequenceNum ∈ block.first.segment.sequenceNum::
      block.rest.map (fun row => row.segment.sequenceNum) :=
    List.mem_map_of_mem (f := fun row : AdRow => row.segment.sequenceNum) hrow
  exact ⟨block,hblock,(foldl_min_spec _ _).2 _ hnum,(foldl_max_spec _ _).2 _ hnum⟩

/-- The scan finds clean ranges, as it skips what is detected. -/
theorem clean_of_scansRepeats (hscan : setup.ScansRepeats) (hrepeat : repeatAds ∈ setup.repeatAds)
    (first last : ℤ) :
    ∀ candidate ∈ repeatAds.findRepeatCandidates first last
        (((groupIntoBlocks (adIdentifications setup.rowOrder setup.transcript u)).map adMeta).map
          (fun ad => (ad.firstSeq,ad.lastSeq))), setup.Clean u candidate := by
  obtain ⟨tokenize,threshold,hfinder⟩ := hscan repeatAds hrepeat
  obtain ⟨candidates,hrun,heq⟩ := hfinder first last _
  have hdistinct : (setup.repeatSegments.map Podly.RepeatAds.Segment.sequenceNum).Nodup := by
    rw [repeatSegments,List.map_map]
    exact setup.transcript.sequence_nodup
  obtain ⟨sound,hsound,-,hcandidates⟩ := Podly.RepeatAds.findRepeatCandidates_finds tokenize
    setup.repeatSegments first last
    (((groupIntoBlocks (adIdentifications setup.rowOrder setup.transcript u)).map adMeta).map
      (fun ad => (ad.firstSeq,ad.lastSeq))) threshold rfl
    (Podly.RepeatAds.searchOf_sorted tokenize first last threshold hdistinct)
  have hlength : (Podly.RepeatAds.searchOf tokenize setup.repeatSegments first last
      threshold).segs.length < setup.segments.length + 1 := by
    rw [Podly.RepeatAds.searchOf_length,repeatSegments,List.length_map]
    exact Nat.lt_succ_self _
  obtain rfl := Option.some.inj ((hsound _ hlength).symm.trans hrun)
  rw [heq]
  intro candidate hcandidate s hs hfirst hlast hmarked
  obtain ⟨c,hc,rfl⟩ := List.mem_map.mp hcandidate
  obtain ⟨block,hblock,hrange⟩ := exists_detected hs hmarked
  have hwindow : (⟨s.sequenceNum,s.startTime,Block.stopOf s,s.text⟩ : Podly.RepeatAds.Segment) ∈
      (Podly.RepeatAds.searchOf tokenize setup.repeatSegments first last threshold).windowOf c := by
    refine List.mem_filter.mpr ⟨(Intervals.mem_sortByKey _ _ _).mpr ?_,by simpa using ⟨hfirst,hlast⟩⟩
    exact List.mem_map_of_mem hs
  refine (hcandidates c hc).unknown _ hwindow (.inr ⟨(block.firstSequenceNum,
    block.lastSequenceNum),?_,hrange⟩)
  exact List.mem_map.mpr ⟨adMeta block,List.mem_map_of_mem hblock,rfl⟩

/-- The pass over repeated ads inserts rows for different segments without identifications. -/
theorem detectRepeatAds_inserts (hscan : setup.ScansRepeats) (records : Records) :
    setup.detectRepeatAds.Meets Records.act (fun _ _ => True) (fun _ after =>
      ∃ rows : List NewIdentification, (rows.map NewIdentification.transcriptSegmentId).Nodup ∧
        (∀ new ∈ rows, ¬Marked records.identifications new.transcriptSegmentId) ∧
        after.identifications = rows.foldl insertIdentification records.identifications)
      records := by
  unfold detectRepeatAds
  split
  · exact ⟨[],List.nodup_nil,nofun,rfl⟩
  · rename_i repeatAds hrepeat
    rw [meets_bind,meets_store]
    dsimp only
    have hnone : setup.FoundFresh records.identifications ⟨[],[],[]⟩ :=
      ⟨by simp,List.nodup_nil⟩
    refine (detectRepeats_fresh _ _ (clean_of_scansRepeats hscan hrepeat) rfl hnone).bind ?_
    rintro found after ⟨hu,hfound⟩
    rw [insertIdentificationsBatched_meets]
    refine ⟨found.newIdentifications,hfound.distinct,?_,
      congrArg (fun t => found.newIdentifications.foldl insertIdentification t) hu⟩
    intro new hnew
    obtain ⟨s,-,hid,-,hunmarked⟩ := hfound.rows new hnew
    rw [hid]
    exact hunmarked

end Repeats

/-! Detection as a whole -/

/-- The records after the loop over the chunks, after the expansion behind it, and after the pass
over repeated ads behind that. -/
def afterLoop (records : Records) : Records :=
  (setup.classifyChunks (setup.segments.length + 10) 0 [] ⟨setup.adaptive,[]⟩).final Records.act
    records

def afterExpansion (window : ℕ) (records : Records) : Records :=
  (setup.expandNeighborsBy window).final Records.act (setup.afterLoop records)

def afterRepeats (window : ℕ) (records : Records) : Records :=
  setup.detectRepeatAds.final Records.act (setup.afterExpansion window records)

/-- Detection marks each segment once: no segment has two identifications after it, no segment loses
its mark, and the expansion marks the segments to expand to that had none. -/
structure DetectsOnce (window : ℕ) (records : Records) : Prop where
  looped : MarkedOnce (setup.afterLoop records).identifications
  once : MarkedOnce (setup.afterRepeats window records).identifications
  kept : ∀ segmentId, Marked (setup.afterLoop records).identifications segmentId →
    Marked (setup.afterRepeats window records).identifications segmentId
  expands : ∀ segmentId, Gains (setup.afterLoop records).identifications
      (setup.afterExpansion window records).identifications segmentId ↔
    ¬Marked (setup.afterLoop records).identifications segmentId ∧
      setup.ExpandsTo window (setup.afterLoop records).identifications segmentId

end Setup

/-- A run of detection marks each segment once exactly when the expansion in it expands past the
marks of other calls. -/
theorem detectsOnce_iff (setup : Setup) (window : ℕ) (records : Records)
    (hscan : setup.ScansRepeats) (honce : MarkedOnce records.identifications)
    (howned : records.AdsOwned) : setup.DetectsOnce window records ↔
      setup.ExpandsPastMarks window (setup.afterLoop records).identifications := by
  have hloop : Once records.identifications (setup.afterLoop records).identifications :=
    (meets_iff.mp (Setup.classifyChunks_once _ _ _ _ (Once.refl honce))).2
  have hloopOwned : (setup.afterLoop records).AdsOwned :=
    (meets_iff.mp (adsOwned_stable.after howned
      (Setup.classifyChunks_proper _ _ (List.nil_subset _) _) fun _ _ _ h => h)).2
  have hexpansion : (setup.afterExpansion window records).identifications =
      setup.expansion window (setup.afterLoop records).identifications := by
    have h : (setup.expandNeighborsBy window).Meets Records.act (fun _ _ => True) (fun _ after =>
        after.identifications = setup.expansion window (setup.afterLoop records).identifications)
        (setup.afterLoop records) := (Setup.expandNeighborsBy_meets hloopOwned).mpr rfl
    exact (meets_iff.mp h).2
  obtain ⟨rows,hdistinct,hunmarked,hrepeats⟩ := (meets_iff.mp
    (Setup.detectRepeatAds_inserts hscan (setup.afterExpansion window records))).2
  have hrepeats : (setup.afterRepeats window records).identifications =
      rows.foldl insertIdentification (setup.afterExpansion window records).identifications :=
    hrepeats
  rw [hexpansion] at hunmarked hrepeats
  constructor
  · intro h
    rw [← Setup.markedOnce_expansion_iff hloop.once]
    have honce := h.once
    rw [hrepeats] at honce
    exact honce.of_inserts
  · intro hpast
    have hexpanded := (Setup.markedOnce_expansion_iff hloop.once).mpr hpast
    have hall := (Once.refl hexpanded).inserts hdistinct hunmarked
    refine ⟨hloop.once,hrepeats ▸ hall.once,?_,?_⟩
    · intro segmentId hmarked
      rw [hrepeats]
      exact hall.kept segmentId (Setup.marked_expansion hmarked)
    · intro segmentId
      rw [hexpansion]
      exact Setup.gains_expansion hpast

section Repeated

/-- An ad of seven words, and the same words two segments later. -/
def repeatedTranscript : PostTranscript where
  segments := ⟨[⟨0,0,0,some 9,"get ten percent off with code ten",none⟩,
    ⟨1,1,9,some 12,"back to the show",none⟩,
    ⟨2,2,12,some 21,"get ten percent off with code ten",none⟩],by decide⟩
  sequence_nodup := by decide
  sequence_nonneg := by decide

/-- The scan of this transcript. -/
def repeatedScan : RepeatAds where
  signature := String.toLower
  findRepeatCandidates := fun first last detected =>
    ((Podly.RepeatAds.findRepeatCandidates
      (Podly.RepeatAds.tokenize ⟨WordBoundary.isWhitespace,String.toLower⟩) 4
      (repeatedTranscript.segments.rows.map
        (fun s => ⟨s.sequenceNum,s.startTime,Block.stopOf s,s.text⟩)) first last detected
      (17/20)).getD []).map (fun c => (c.firstSeq,c.lastSeq))
  prompt := fun _ _ => "confirm"
  parse := fun hint text => if text = "yes" then some (true,hint) else none

/-- A model that finds the first ad, and confirms the second. -/
def repeated : Setup where
  params := ⟨"",fun _ _ _ => "chunk",3,Nat.succ_pos 2,0,none⟩
  transcript := repeatedTranscript
  rowOrder := .bySegment
  llmModel := "model"
  adaptive := none
  minConfidence := 1/2
  maxRetries := 1
  testMode := false
  batchSize := defaultWriterBatchSize
  batchSize_pos := defaultWriterBatchSize_pos
  cleanAndParseModelOutput := fun text => if text = "first" then some ⟨[⟨0,9/10⟩],none⟩ else none
  tooLargeFromMessage := fun _ => none
  analyze := fun _ => ⟨false,false,false⟩
  refiner := none
  repeatAds := some repeatedScan
  provider := fun number _ => if number = 0 then ⟨[],.content "first"⟩ else ⟨[],.content "yes"⟩

theorem repeated_scansRepeats : repeated.ScansRepeats := by
  intro repeatAds hrepeat
  obtain rfl := Option.mem_some_iff.mp hrepeat
  refine ⟨Podly.RepeatAds.tokenize ⟨WordBoundary.isWhitespace,String.toLower⟩,17/20,?_⟩
  intro first last detected
  obtain ⟨candidates,hrun,-⟩ := Podly.RepeatAds.findRepeatCandidates_finds
    (Podly.RepeatAds.tokenize ⟨WordBoundary.isWhitespace,String.toLower⟩) repeated.repeatSegments
    first last detected (17/20) rfl
    (Podly.RepeatAds.searchOf_sorted _ first last (17/20) (by decide))
  have hrun := hrun 4 (by rw [Podly.RepeatAds.searchOf_length]; decide)
  refine ⟨candidates,hrun,?_⟩
  exact congrArg (fun found => (found.getD []).map (fun c => (c.firstSeq,c.lastSeq))) hrun

/-- The first ad is found and the second one confirmed, and neither is marked twice. -/
theorem detectsOnce_repeated : repeated.DetectsOnce 5 Records.empty := by
  refine (detectsOnce_iff repeated 5 Records.empty repeated_scansRepeats (by decide) nofun).mpr ?_
  rintro ad - segmentId ⟨other,-,segment,-,-,hjoins⟩
  exact absurd hjoins Bool.false_ne_true

end Repeated

section Twice

/-- A model that finds an ad in every chunk, with boundaries to refine, so that segments ten seconds
apart join. -/
def twoChunks : Setup where
  params := ⟨"",fun _ _ _ => "chunk",1,Nat.one_pos,0,none⟩
  transcript := PostTranscript.twoSegments
  rowOrder := .bySegment
  llmModel := "model"
  adaptive := none
  minConfidence := 1/2
  maxRetries := 1
  testMode := false
  batchSize := defaultWriterBatchSize
  batchSize_pos := defaultWriterBatchSize_pos
  cleanAndParseModelOutput := fun text =>
    if text = "first" then some ⟨[⟨0,9/10⟩],none⟩
    else if text = "second" then some ⟨[⟨10,9/10⟩],none⟩ else none
  tooLargeFromMessage := fun _ => none
  analyze := fun _ => ⟨false,false,false⟩
  refiner := some ⟨fun _ _ => "refine",fun _ _ _ => ([],(0,0)),fun block _ =>
    (block.start,block.stop)⟩
  repeatAds := none
  provider := fun number _ => if number = 0 then ⟨[],.content "first"⟩ else ⟨[],.content "second"⟩

/-- Each chunk marks its segment under its own call, and the expansion marks the second segment again
under the call of the first. -/
theorem not_detectsOnce_twoChunks : ¬twoChunks.DetectsOnce 5 Records.empty :=
  fun h => absurd h.once (by decide +kernel)

end Twice

end Podly.Classifier
