import Podly.Classifier.Classify

/-! The marks of the segments: which segments carry an identification, and what inserting more of them
does to that. -/
namespace Podly.Classifier
open Store Processes Process

/-- A segment carries an identification. -/
def Marked (t : IdentificationTable) (segmentId : ℤ) : Prop :=
  ∃ ad ∈ t.rows, ad.transcriptSegmentId = segmentId

/-- A segment carries an identification of a call. -/
def MarkedBy (t : IdentificationTable) (segmentId : ℤ) (modelCallId : ℕ) : Prop :=
  ∃ ad ∈ t.rows, ad.transcriptSegmentId = segmentId ∧ ad.modelCallId = modelCallId

/-- No segment carries two identifications. -/
def MarkedOnce (t : IdentificationTable) : Prop :=
  (t.rows.map Identification.transcriptSegmentId).Nodup

section Inserts
variable {t : IdentificationTable} {new : NewIdentification} {rows : List NewIdentification}
  {segmentId : ℤ} {modelCallId : ℕ}

instance : Decidable (Marked t segmentId) := inferInstanceAs (Decidable (∃ ad ∈ t.rows, _))

instance : Decidable (MarkedBy t segmentId modelCallId) :=
  inferInstanceAs (Decidable (∃ ad ∈ t.rows, _))

instance : Decidable (MarkedOnce t) := inferInstanceAs (Decidable (List.Nodup _))

theorem hasAdIdentification_iff : hasAdIdentification t segmentId ↔ Marked t segmentId := by
  simp [hasAdIdentification,Marked]

theorem MarkedBy.marked (h : MarkedBy t segmentId modelCallId) : Marked t segmentId := by
  obtain ⟨ad,had,hsegment,-⟩ := h
  exact ⟨ad,had,hsegment⟩

theorem not_marked_empty : ¬Marked Table.empty segmentId := by
  rintro ⟨ad,had,-⟩
  cases had

/-- A row is inserted unless the segment has one of its call. -/
theorem insertIdentification_cases (t : IdentificationTable) (new : NewIdentification) :
    MarkedBy t new.transcriptSegmentId new.modelCallId ∧ insertIdentification t new = t ∨
      ¬MarkedBy t new.transcriptSegmentId new.modelCallId ∧ ∃ id,
        (insertIdentification t new).rows = t.rows ++
          [⟨id,new.transcriptSegmentId,new.modelCallId,new.confidence⟩] := by
  have hany : t.rows.any (fun old =>
      old.transcriptSegmentId = new.transcriptSegmentId ∧ old.modelCallId = new.modelCallId) ↔
        MarkedBy t new.transcriptSegmentId new.modelCallId := by
    simp [MarkedBy]
  by_cases h : MarkedBy t new.transcriptSegmentId new.modelCallId
  · exact .inl ⟨h,by rw [insertIdentification,if_pos (hany.mpr h)]⟩
  · refine .inr ⟨h,?_⟩
    rw [insertIdentification,if_neg (fun hmem => h (hany.mp hmem))]
    exact ⟨_,rfl⟩

theorem marked_insertIdentification : Marked (insertIdentification t new) segmentId ↔
    Marked t segmentId ∨ new.transcriptSegmentId = segmentId := by
  rcases insertIdentification_cases t new with ⟨hmarked,heq⟩ | ⟨-,id,heq⟩
  · rw [heq]
    exact (or_iff_left_of_imp fun h => h ▸ hmarked.marked).symm
  · simp [Marked,heq,or_and_right,exists_or]

theorem markedBy_insertIdentification :
    MarkedBy (insertIdentification t new) segmentId modelCallId ↔
      MarkedBy t segmentId modelCallId ∨
        new.transcriptSegmentId = segmentId ∧ new.modelCallId = modelCallId := by
  rcases insertIdentification_cases t new with ⟨hmarked,heq⟩ | ⟨-,id,heq⟩
  · rw [heq]
    exact (or_iff_left_of_imp (by rintro ⟨rfl,rfl⟩; exact hmarked)).symm
  · simp [MarkedBy,heq,or_and_right,exists_or]

/-- After inserts those segments are marked that were, and those of the rows. -/
theorem marked_insertIdentifications : Marked (rows.foldl insertIdentification t) segmentId ↔
    Marked t segmentId ∨ ∃ new ∈ rows, new.transcriptSegmentId = segmentId := by
  induction rows generalizing t with
  | nil => simp
  | cons new rows ih =>
    rw [List.foldl_cons,ih,marked_insertIdentification,or_assoc]
    simp only [List.mem_cons,exists_eq_or_imp]

theorem markedBy_insertIdentifications :
    MarkedBy (rows.foldl insertIdentification t) segmentId modelCallId ↔
      MarkedBy t segmentId modelCallId ∨ ∃ new ∈ rows,
        new.transcriptSegmentId = segmentId ∧ new.modelCallId = modelCallId := by
  induction rows generalizing t with
  | nil => simp
  | cons new rows ih =>
    rw [List.foldl_cons,ih,markedBy_insertIdentification,or_assoc]
    simp only [List.mem_cons,exists_eq_or_imp]

/-- No row is lost by an insert. -/
theorem insertIdentification_sublist (t : IdentificationTable) (new : NewIdentification) :
    t.rows.Sublist (insertIdentification t new).rows := by
  rcases insertIdentification_cases t new with ⟨-,heq⟩ | ⟨-,id,heq⟩
  · rw [heq]
  · rw [heq]
    exact List.sublist_append_left _ _

theorem insertIdentifications_sublist (t : IdentificationTable) (rows : List NewIdentification) :
    t.rows.Sublist (rows.foldl insertIdentification t).rows := by
  induction rows generalizing t with
  | nil => exact List.Sublist.refl _
  | cons new rows ih => exact (insertIdentification_sublist t new).trans (ih _)

theorem MarkedOnce.of_inserts (h : MarkedOnce (rows.foldl insertIdentification t)) :
    MarkedOnce t :=
  h.sublist ((insertIdentifications_sublist t rows).map _)

/-- An insert gives no segment a second mark exactly when the segment of the row has none, or one of
its call. -/
theorem markedOnce_insertIdentification (h : MarkedOnce t) :
    MarkedOnce (insertIdentification t new) ↔ (Marked t new.transcriptSegmentId →
      MarkedBy t new.transcriptSegmentId new.modelCallId) := by
  rcases insertIdentification_cases t new with ⟨hmarked,heq⟩ | ⟨hnot,id,heq⟩
  · rw [heq]
    exact iff_of_true h fun _ => hmarked
  · have hmem : new.transcriptSegmentId ∈ t.rows.map Identification.transcriptSegmentId ↔
        Marked t new.transcriptSegmentId := List.mem_map
    rw [MarkedOnce,heq,List.map_append,List.nodup_append]
    constructor
    · rintro ⟨-,-,hnew⟩ hmarked
      exact absurd rfl (hnew _ (hmem.mpr hmarked) _ (by simp))
    · intro himp
      refine ⟨h,by simp,?_⟩
      intro a ha b hb
      obtain rfl := List.mem_singleton.mp hb
      rintro rfl
      exact hnot (himp (hmem.mp ha))

/-- Rows for different segments give none a second mark exactly when no segment of a row has one of
another call alone. -/
theorem markedOnce_insertIdentifications (h : MarkedOnce t)
    (hrows : (rows.map NewIdentification.transcriptSegmentId).Nodup) :
    MarkedOnce (rows.foldl insertIdentification t) ↔ ∀ new ∈ rows,
      Marked t new.transcriptSegmentId → MarkedBy t new.transcriptSegmentId new.modelCallId := by
  induction rows generalizing t with
  | nil => simpa using h
  | cons new rows ih =>
    rw [List.map_cons,List.nodup_cons] at hrows
    rw [List.foldl_cons,List.forall_mem_cons]
    by_cases hnew : Marked t new.transcriptSegmentId →
        MarkedBy t new.transcriptSegmentId new.modelCallId
    · rw [ih ((markedOnce_insertIdentification h).mpr hnew) hrows.2,and_iff_right hnew]
      refine forall₂_congr ?_
      intro other hother
      have hne : new.transcriptSegmentId ≠ other.transcriptSegmentId :=
        fun he => hrows.1 (he ▸ List.mem_map_of_mem hother)
      rw [marked_insertIdentification,markedBy_insertIdentification,or_iff_left hne,
        or_iff_left (fun he => hne he.1)]
    · refine iff_of_false ?_ (fun hall => hnew hall.1)
      intro hafter
      exact hnew ((markedOnce_insertIdentification h).mp hafter.of_inserts)

/-- Rows for different segments, none with an identification of its call, are all inserted. -/
theorem insertIdentifications_rows
    (hrows : (rows.map NewIdentification.transcriptSegmentId).Nodup)
    (hnew : ∀ new ∈ rows, ¬MarkedBy t new.transcriptSegmentId new.modelCallId) :
    ∃ added : List Identification, (rows.foldl insertIdentification t).rows = t.rows ++ added ∧
      added.map Identification.transcriptSegmentId =
        rows.map NewIdentification.transcriptSegmentId := by
  induction rows generalizing t with
  | nil => exact ⟨[],(List.append_nil _).symm,rfl⟩
  | cons new rows ih =>
    rw [List.map_cons,List.nodup_cons] at hrows
    obtain ⟨hfirst,hrest⟩ := List.forall_mem_cons.mp hnew
    rcases insertIdentification_cases t new with ⟨hmarked,-⟩ | ⟨-,id,heq⟩
    · exact absurd hmarked hfirst
    · have hlater : ∀ other ∈ rows, ¬MarkedBy (insertIdentification t new)
          other.transcriptSegmentId other.modelCallId := by
        intro other hother
        rw [markedBy_insertIdentification,not_or]
        refine ⟨hrest other hother,fun hsame => hrows.1 ?_⟩
        rw [hsame.1]
        exact List.mem_map_of_mem hother
      obtain ⟨added,hadded,hsegments⟩ := ih hrows.2 hlater
      refine ⟨⟨id,new.transcriptSegmentId,new.modelCallId,new.confidence⟩::added,?_,?_⟩
      · rw [List.foldl_cons,hadded,heq,List.append_assoc]
        rfl
      · rw [List.map_cons,List.map_cons,hsegments]

/-- A segment has an identification that it had not before. -/
def Gains (before after : IdentificationTable) (segmentId : ℤ) : Prop :=
  ∃ ad ∈ after.rows, ad ∉ before.rows ∧ ad.transcriptSegmentId = segmentId

theorem gains_insertIdentifications
    (hrows : (rows.map NewIdentification.transcriptSegmentId).Nodup)
    (hnew : ∀ new ∈ rows, ¬MarkedBy t new.transcriptSegmentId new.modelCallId) :
    Gains t (rows.foldl insertIdentification t) segmentId ↔
      ∃ new ∈ rows, new.transcriptSegmentId = segmentId := by
  obtain ⟨added,hadded,hsegments⟩ := insertIdentifications_rows hrows hnew
  have hnodup := (rows.foldl insertIdentification t).nodup
  rw [hadded,List.map_append,List.nodup_append] at hnodup
  have hmem : (∃ new ∈ rows, new.transcriptSegmentId = segmentId) ↔
      ∃ ad ∈ added, ad.transcriptSegmentId = segmentId := by
    rw [← List.mem_map,← hsegments,List.mem_map]
  rw [hmem,Gains,hadded]
  constructor
  · rintro ⟨ad,had,hold,hsegment⟩
    exact ⟨ad,(List.mem_append.mp had).resolve_left hold,hsegment⟩
  · rintro ⟨ad,had,hsegment⟩
    refine ⟨ad,List.mem_append_right _ had,fun hold => ?_,hsegment⟩
    exact hnodup.2.2 _ (List.mem_map_of_mem hold) _ (List.mem_map_of_mem had) rfl

end Inserts

/-! The rows for the predictions of a chunk -/

/-- What is known of a matching, given the identifications that are there: its rows are for different
segments that it has processed and that carry none, and all others it has processed carry one. -/
structure Matching.Fresh (t : IdentificationTable) (m : Matching) : Prop where
  covered : ∀ segmentId ∈ m.processed,
    Marked t segmentId ∨ ∃ row ∈ m.toInsert, row.transcriptSegmentId = segmentId
  distinct : (m.toInsert.map NewIdentification.transcriptSegmentId).Nodup
  unmarked : ∀ row ∈ m.toInsert,
    ¬Marked t row.transcriptSegmentId ∧ row.transcriptSegmentId ∈ m.processed

/-- The identifications after `_create_identifications`. -/
def identificationsAfter (identifications : IdentificationTable) (modelCallId : ℕ)
    (minConfidence : ℚ) (chunk : List TranscriptSegment) (predictions : AdSegmentPredictionList) :
    IdentificationTable :=
  (createIdentifications identifications modelCallId minConfidence chunk
    predictions).toInsert.foldl insertIdentification identifications

section Matchings
variable {t : IdentificationTable} {modelCallId : ℕ} {minConfidence baseConfidence : ℚ}
  {chunk segments : List TranscriptSegment} {contentType : Option ContentType} {m : Matching}
  {segment : TranscriptSegment}

theorem Matching.fresh_nil : Matching.Fresh t ⟨[],[]⟩ := ⟨nofun,List.nodup_nil,nofun⟩

theorem Matching.processed_append (rows : List NewIdentification) :
    (⟨rows,m.matched ++ [segment]⟩ : Matching).processed = m.processed ++ [segment.id] :=
  List.map_append

/-- A row for a segment that was not processed and carries no identification. -/
theorem Matching.Fresh.insert (h : m.Fresh t) (hnew : segment.id ∉ m.processed)
    (hunmarked : ¬Marked t segment.id) (modelCallId : ℕ) (confidence : ℚ) :
    Matching.Fresh t ⟨m.toInsert ++ [⟨segment.id,modelCallId,confidence⟩],
      m.matched ++ [segment]⟩ := by
  constructor
  · intro segmentId hsegment
    rw [processed_append,List.mem_append,List.mem_singleton] at hsegment
    rcases hsegment with hsegment | rfl
    · refine (h.covered segmentId hsegment).imp_right ?_
      rintro ⟨row,hrow,heq⟩
      exact ⟨row,List.mem_append_left _ hrow,heq⟩
    · exact .inr ⟨_,List.mem_append_right _ List.mem_cons_self,rfl⟩
  · rw [List.map_append,List.nodup_append]
    refine ⟨h.distinct,by simp,?_⟩
    rintro _ ha _ hb rfl
    obtain ⟨row,hrow,heq⟩ := List.mem_map.mp ha
    rw [List.map_singleton,List.mem_singleton] at hb
    have hid : row.transcriptSegmentId = segment.id := heq.trans hb
    exact hnew (hid ▸ (h.unmarked row hrow).2)
  · intro row hrow
    rw [processed_append]
    rcases List.mem_append.mp hrow with hrow | hrow
    · exact ⟨(h.unmarked row hrow).1,List.mem_append_left _ (h.unmarked row hrow).2⟩
    · rw [List.mem_singleton.mp hrow]
      exact ⟨hunmarked,List.mem_append_right _ List.mem_cons_self⟩

/-- A segment that carries an identification is processed without a row. -/
theorem Matching.Fresh.skip (h : m.Fresh t) (hmarked : Marked t segment.id) :
    Matching.Fresh t ⟨m.toInsert,m.matched ++ [segment]⟩ := by
  refine ⟨?_,h.distinct,?_⟩
  · intro segmentId hsegment
    rw [processed_append,List.mem_append,List.mem_singleton] at hsegment
    rcases hsegment with hsegment | rfl
    · exact h.covered segmentId hsegment
    · exact .inl hmarked
  · intro row hrow
    rw [processed_append]
    exact ⟨(h.unmarked row hrow).1,List.mem_append_left _ (h.unmarked row hrow).2⟩

theorem addPreroll_fresh (modelCallId : ℕ) (minConfidence baseConfidence : ℚ) (h : m.Fresh t)
    (segment : TranscriptSegment) :
    (addPreroll t modelCallId minConfidence baseConfidence m segment).Fresh t ∧
      m.toInsert.Sublist
        (addPreroll t modelCallId minConfidence baseConfidence m segment).toInsert := by
  rw [addPreroll]
  split
  · exact ⟨h,List.Sublist.refl _⟩
  · rename_i hnew
    rw [not_or,hasAdIdentification_iff] at hnew
    exact ⟨h.insert hnew.1 hnew.2 _ _,List.sublist_append_left _ _⟩

theorem foldl_addPreroll_fresh (modelCallId : ℕ) (minConfidence baseConfidence : ℚ) (h : m.Fresh t)
    (segments : List TranscriptSegment) :
    (segments.foldl (addPreroll t modelCallId minConfidence baseConfidence) m).Fresh t ∧
      m.toInsert.Sublist
        (segments.foldl (addPreroll t modelCallId minConfidence baseConfidence) m).toInsert := by
  induction segments generalizing m with
  | nil => exact ⟨h,List.Sublist.refl _⟩
  | cons segment segments ih =>
    obtain ⟨hfresh,hsub⟩ := addPreroll_fresh modelCallId minConfidence baseConfidence h segment
    obtain ⟨hall,hrest⟩ := ih hfresh
    exact ⟨hall,hsub.trans hrest⟩

/-- A prediction keeps the rows and what is known of them, and leaves the segment that it names
marked or with a row. -/
theorem createIdentification_fresh (modelCallId : ℕ) (minConfidence : ℚ)
    (chunk : List TranscriptSegment) (contentType : Option ContentType) (h : m.Fresh t)
    (prediction : AdSegmentPrediction) :
    (createIdentification t modelCallId minConfidence chunk contentType m prediction).Fresh t ∧
      m.toInsert.Sublist
        (createIdentification t modelCallId minConfidence chunk contentType m
          prediction).toInsert ∧
      (minConfidence ≤ adjustConfidence prediction.confidence contentType → ∀ segment,
        findMatchingSegment prediction.segmentOffset chunk = some segment →
          Marked t segment.id ∨ ∃ row ∈ (createIdentification t modelCallId minConfidence chunk
            contentType m prediction).toInsert, row.transcriptSegmentId = segment.id) := by
  rw [createIdentification]
  split
  · rename_i hlow
    exact ⟨h,List.Sublist.refl _,fun hhigh => absurd hhigh (not_le.mpr hlow)⟩
  · split
    · rename_i hnone
      exact ⟨h,List.Sublist.refl _,fun _ _ hsome => nomatch hnone.symm.trans hsome⟩
    · rename_i found hfound
      have hsame : ∀ segment, findMatchingSegment prediction.segmentOffset chunk = some segment →
          found = segment := fun _ hsome => Option.some.inj (hfound.symm.trans hsome)
      split
      · rename_i hprocessed
        refine ⟨h,List.Sublist.refl _,fun _ segment hsome => ?_⟩
        exact h.covered segment.id (hsame segment hsome ▸ hprocessed)
      · rename_i hnew
        split
        · rename_i hmarked
          rw [hasAdIdentification_iff] at hmarked
          refine ⟨h.skip hmarked,List.Sublist.refl _,fun _ segment hsome => ?_⟩
          exact .inl (hsame segment hsome ▸ hmarked)
        · rename_i hunmarked
          rw [hasAdIdentification_iff] at hunmarked
          obtain ⟨hfresh,hsub⟩ := foldl_addPreroll_fresh modelCallId minConfidence
            (adjustConfidence prediction.confidence contentType)
            (h.insert hnew hunmarked modelCallId
              (adjustConfidence prediction.confidence contentType)) (prerollSegments chunk found)
          refine ⟨hfresh,(List.sublist_append_left _ _).trans hsub,fun _ segment hsome => .inr ?_⟩
          exact ⟨_,hsub.mem (List.mem_append_right _ List.mem_cons_self),
            congrArg TranscriptSegment.id (hsame segment hsome)⟩

theorem foldl_createIdentification_fresh (h : m.Fresh t) (predictions : List AdSegmentPrediction) :
    (predictions.foldl (createIdentification t modelCallId minConfidence chunk contentType) m).Fresh
        t ∧
      m.toInsert.Sublist (predictions.foldl
        (createIdentification t modelCallId minConfidence chunk contentType) m).toInsert ∧
      ∀ prediction ∈ predictions,
        minConfidence ≤ adjustConfidence prediction.confidence contentType → ∀ segment,
          findMatchingSegment prediction.segmentOffset chunk = some segment →
            Marked t segment.id ∨ ∃ row ∈ (predictions.foldl
              (createIdentification t modelCallId minConfidence chunk contentType) m).toInsert,
                row.transcriptSegmentId = segment.id := by
  induction predictions generalizing m with
  | nil => exact ⟨h,List.Sublist.refl _,nofun⟩
  | cons prediction predictions ih =>
    obtain ⟨hfresh,hsub,hnamed⟩ := createIdentification_fresh modelCallId minConfidence chunk
      contentType h prediction
    obtain ⟨hall,hrest,hlater⟩ := ih hfresh
    refine ⟨hall,hsub.trans hrest,List.forall_mem_cons.mpr ⟨?_,hlater⟩⟩
    intro hhigh segment hfound
    refine (hnamed hhigh segment hfound).imp_right ?_
    rintro ⟨row,hrow,heq⟩
    exact ⟨row,hrest.mem hrow,heq⟩

/-- The rows of a reply are for different segments that carry no identification. -/
theorem createIdentifications_fresh (predictions : AdSegmentPredictionList) :
    (createIdentifications t modelCallId minConfidence chunk predictions).Fresh t :=
  (foldl_createIdentification_fresh Matching.fresh_nil predictions.adSegments).1

/-- A segment that a reply names is marked after it. -/
theorem marked_identificationsAfter {predictions : AdSegmentPredictionList}
    {prediction : AdSegmentPrediction} (hprediction : prediction ∈ predictions.adSegments)
    (hconfidence : minConfidence ≤ adjustConfidence prediction.confidence predictions.contentType)
    (hfound : findMatchingSegment prediction.segmentOffset chunk = some segment) :
    Marked (identificationsAfter t modelCallId minConfidence chunk predictions) segment.id := by
  rw [identificationsAfter,marked_insertIdentifications]
  exact (foldl_createIdentification_fresh Matching.fresh_nil
    predictions.adSegments).2.2 prediction hprediction hconfidence segment hfound

end Matchings

section Batches
variable {α : Type} {size : ℕ}

theorem flatten_batches (xs : List α) (n : ℕ) :
    ((List.range n).map (fun i => (xs.drop (i * size)).take size)).flatten =
      xs.take (n * size) := by
  induction n with
  | zero => simp
  | succ n ih =>
    rw [List.range_succ,List.map_append,List.flatten_append,ih,Nat.succ_mul,List.take_add]
    simp

/-- The batches hold the whole list. -/
theorem flatten_batched (hsize : 0 < size) (xs : List α) : (batched size xs).flatten = xs := by
  rw [batched,flatten_batches]
  apply List.take_of_length_le
  have := Nat.div_add_mod (xs.length + size - 1) size
  have := Nat.mod_lt (xs.length + size - 1) hsize
  rw [Nat.mul_comm]
  omega

end Batches

namespace Setup
variable {setup : Setup} {records : Records} {rows : List NewIdentification}

/-- The records with more identifications. -/
def insertAll (records : Records) (rows : List NewIdentification) : Records :=
  { records with identifications := rows.foldl insertIdentification records.identifications }

theorem each_insert_meets {Q : PUnit → Records → Prop} (batches : List (List NewIdentification)) :
    (each (fun batch => perform (.insertIdentifications batch)) batches :
        Classification PUnit).Meets Records.act (fun _ _ => True) Q records ↔
      Q ⟨⟩ (insertAll records batches.flatten) := by
  induction batches generalizing records with
  | nil => exact Iff.rfl
  | cons batch batches ih =>
    rw [each,meets_andThen,meets_perform,true_and,ih]
    simp only [insertAll,Records.act,List.flatten_cons,List.foldl_append]

/-- The batches insert all rows. -/
theorem insertIdentificationsBatched_meets {Q : PUnit → Records → Prop} :
    (setup.insertIdentificationsBatched rows).Meets Records.act (fun _ _ => True) Q records ↔
      Q ⟨⟩ (insertAll records rows) := by
  rw [insertIdentificationsBatched,each_insert_meets,flatten_batched setup.batchSize_pos]

/-- A reply that is understood leaves the identifications of its predictions. -/
theorem processSuccessfulResponse_meets {Q : Answer → Records → Prop}
    (chunk : List TranscriptSegment) (call : ModelCall) (response : String) :
    (setup.processSuccessfulResponse chunk call response).Meets Records.act (fun _ _ => True) Q
        records ↔
      match setup.cleanAndParseModelOutput response with
      | none => Q .failed records
      | some predictions => Q (.accepted (createIdentifications records.identifications call.id
          setup.minConfidence chunk predictions).matched)
        { records with
          identifications := identificationsAfter records.identifications call.id
            setup.minConfidence chunk predictions } := by
  unfold processSuccessfulResponse
  simp only [meets_bind,meets_store]
  cases setup.cleanAndParseModelOutput response with
  | none => exact Iff.rfl
  | some predictions =>
    simp only [meets_bind]
    exact insertIdentificationsBatched_meets

end Setup

/-! The actions that leave the identifications alone -/

/-- An action that leaves the identifications alone. -/
def Quiet : Action → Prop
  | .insertIdentifications _ | .replaceIdentifications _ _ => False
  | _ => True

instance : DecidablePred Quiet := fun action => by
  cases action <;> first | exact isTrue trivial | exact isFalse id

theorem Quiet.identifications {action : Action} (h : Quiet action) (records : Records) :
    (records.act action).identifications = records.identifications := by
  cases action with
  | insertIdentifications rows => exact h.elim
  | replaceIdentifications deleteIds rows => exact h.elim
  | _ => rfl

section Requests
variable {provider : Provider} {caller : Caller}

/-- A process of quiet actions keeps what the identifications alone decide. -/
theorem meets_of_quiet {α : Type} {p : Classification α} (h : p.Labels Quiet)
    {I : IdentificationTable → Prop} {records : Records} (hI : I records.identifications) :
    p.Meets Records.act (fun _ _ => True) (fun _ records => I records.identifications) records :=
  h.meets (fun records _ hquiet hI => (hquiet.identifications records).symm ▸ hI) hI

theorem upsertModelCall_quiet (key : CallKey) (prompt : String) :
    (upsertModelCall caller key prompt).Labels Quiet := by
  unfold upsertModelCall
  split
  · trivial
  · exact ⟨trivial,fun _ => trivial⟩

theorem updateModelCall_quiet (id : Option ℕ) (update : CallUpdate) :
    (updateModelCall caller id update).Labels Quiet := by
  cases id with
  | none => trivial
  | some id => exact ⟨trivial,trivial⟩

theorem complete_quiet (id : Option ℕ) (messages : List String) :
    (complete provider caller id messages).Labels Quiet := by
  refine labels_store.bind fun records => (labels_perform trivial).bind fun _ => ?_
  refine (labels_each fun _ _ => updateModelCall_quiet id _).bind fun _ => ?_
  split
  · exact (updateModelCall_quiet id _).bind fun _ => trivial
  · trivial

theorem callModel_quiet (params : ClassifyParams) (adaptive : Option ℤ) (maxRetries : ℕ)
    (call : ModelCall) (left attempt : ℕ) (lastError : Option String) :
    (callModel provider params adaptive maxRetries call attempt lastError left).Labels Quiet := by
  induction left generalizing attempt lastError with
  | zero => exact (updateModelCall_quiet _ _).bind fun _ => trivial
  | succ left ih =>
    rw [callModel]
    split
    · exact (updateModelCall_quiet _ _).bind fun _ => trivial
    · refine (updateModelCall_quiet _ _).bind fun _ => (complete_quiet _ _).bind fun outcome => ?_
      cases outcome with
      | content text => exact (updateModelCall_quiet _ _).bind fun _ => trivial
      | tooLarge limit requested => exact (updateModelCall_quiet _ _).bind fun _ => trivial
      | fatal error => exact (updateModelCall_quiet _ _).bind fun _ => trivial
      | retryable error =>
        dsimp only
        split
        · exact (updateModelCall_quiet _ _).bind fun _ => ih _ _
        · exact ih _ _

theorem refine_quiet (llmModel : String) (refiner : Refiner) (segments : List TranscriptSegment)
    (block : Block) : (refine provider llmModel refiner segments block).Labels Quiet := by
  refine (upsertModelCall_quiet _ _).bind fun call => (updateModelCall_quiet _ _).bind fun _ =>
    (complete_quiet _ _).bind fun outcome => ?_
  cases outcome with
  | content text => exact (labels_each fun _ _ => updateModelCall_quiet _ _).bind fun _ => trivial
  | _ => exact (updateModelCall_quiet _ _).bind fun _ => trivial

theorem confirm_quiet (llmModel : String) (repeatAds : RepeatAds) (referenceText : String)
    (candidate : List TranscriptSegment) (candidateFirstSeq : ℤ) (confidenceHint : ℚ) :
    (confirm provider llmModel repeatAds referenceText candidate candidateFirstSeq
      confidenceHint).Labels Quiet := by
  refine (upsertModelCall_quiet _ _).bind fun call => (updateModelCall_quiet _ _).bind fun _ =>
    (complete_quiet _ _).bind fun outcome => ?_
  cases outcome with
  | content text =>
    refine (updateModelCall_quiet _ _).bind fun _ => ?_
    split
    · exact (updateModelCall_quiet _ _).bind fun _ => trivial
    · exact (updateModelCall_quiet _ _).bind fun _ => trivial
  | _ => exact (updateModelCall_quiet _ _).bind fun _ => trivial

end Requests

/-- What actions make of the identifications, those of them do that are not quiet. -/
theorem run_identifications {records other : Records} (actions : List Action)
    (h : records.identifications = other.identifications) :
    (run Records.act records actions).identifications =
      (run Records.act other (actions.filter (¬Quiet ·))).identifications := by
  induction actions generalizing records other with
  | nil => exact h
  | cons action actions ih =>
    by_cases hquiet : Quiet action
    · rw [List.filter_cons_of_neg (by simpa using hquiet),run_cons]
      exact ih ((hquiet.identifications records).trans h)
    · rw [List.filter_cons_of_pos (by simpa using hquiet),run_cons,run_cons]
      apply ih
      cases action with
      | insertIdentifications rows => exact congrArg (rows.foldl insertIdentification) h
      | replaceIdentifications deleteIds rows =>
        exact congrArg (fun t : IdentificationTable =>
          rows.foldl insertIdentification (t.deleteWhere (fun old => old.id ∈ deleteIds))) h
      | _ => exact absurd trivial hquiet

end Podly.Classifier
