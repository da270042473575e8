import Mathlib.Data.List.SplitBy
import Podly.Classifier.Blocks
import Podly.Classifier.Classify
import Podly.Classifier.Coverage

/-! The actions a classification sends: what it asks for, which rows of `model_call` it updates, and
whose identifications it inserts. -/
namespace Podly.Classifier
open Store Processes Process

/-- The row of an id was given to a caller. -/
def Records.Held (records : Records) (id : ℕ) (caller : Caller) : Prop :=
  ∃ call ∈ records.modelCalls.table.rows, call.id = id ∧ caller ∈ call.servedTo

/-- The row of an id was given to a chunk or to a confirmation. -/
def Records.Owned (records : Records) (id : ℕ) : Prop :=
  ∃ caller ≠ .refine, records.Held id caller

/-- Every identification belongs to such a row. -/
def Records.AdsOwned (records : Records) : Prop :=
  ∀ ad ∈ records.identifications.rows, records.Owned ad.modelCallId

/-- An action as the classifier sends it: a confirmation asks for the sentinel and the others for
segments, a row is updated for a caller it was given to, and identifications are owned. -/
def Proper (records : Records) : Action → Prop
  | .upsertModelCall .confirm key _ =>
    key.firstSegmentSequenceNum = repeatAdConfirmFirstSeqSentinel
  | .upsertModelCall .chunk key _ | .upsertModelCall .refine key _ =>
    0 ≤ key.firstSegmentSequenceNum
  | .updateModelCall caller id _ => records.Held id caller
  | .insertIdentifications rows | .replaceIdentifications _ rows =>
    ∀ row ∈ rows, records.Owned row.modelCallId
  | .complete _ | .updatePost _ => True

section Actions
variable {records : Records} {id : ℕ} {caller : Caller}

/-- A row stays with the callers it was given to. -/
theorem Records.Held.act (h : records.Held id caller) (action : Action) :
    (records.act action).Held id caller := by
  obtain ⟨call,hcall,hid,hserved⟩ := h
  cases action with
  | upsertModelCall other key prompt =>
    by_cases hkey : call.key = key
    · refine ⟨call.serve other prompt,?_,by simpa using hid,by simp [hserved]⟩
      exact CallTable.mem_upsert.mpr (.inr
        ⟨call,CallTable.mem_findOrCreate_of_mem hcall,hkey,rfl⟩)
    · exact ⟨call,CallTable.mem_upsert.mpr (.inl ⟨hkey,hcall⟩),hid,hserved⟩
  | updateModelCall other id' update =>
    by_cases hid' : call.id = id'
    · exact ⟨update.apply other call,CallTable.mem_update.mpr (.inr ⟨call,hcall,hid',rfl⟩),
        hid,hserved⟩
    · exact ⟨call,CallTable.mem_update.mpr (.inl ⟨hid',hcall⟩),hid,hserved⟩
  | _ => exact ⟨call,hcall,hid,hserved⟩

theorem Records.Owned.act (h : records.Owned id) (action : Action) :
    (records.act action).Owned id := by
  obtain ⟨caller,hcaller,hheld⟩ := h
  exact ⟨caller,hcaller,hheld.act action⟩

/-- Proper actions only insert identifications that are owned. -/
theorem Records.AdsOwned.act (h : records.AdsOwned) {action : Action}
    (hproper : Proper records action) : (records.act action).AdsOwned := by
  intro ad had
  have howned : records.Owned ad.modelCallId := by
    cases action with
    | insertIdentifications rows =>
      rcases mem_insertIdentifications had with had | ⟨new,hnew,he⟩
      · exact h ad had
      · exact he ▸ hproper new hnew
    | replaceIdentifications deleteIds rows =>
      rcases mem_insertIdentifications had with had | ⟨new,hnew,he⟩
      · exact h ad (List.mem_of_mem_filter had)
      · exact he ▸ hproper new hnew
    | _ => exact h ad had
  exact howned.act action

end Actions

/-- What proper actions keep. -/
def Stable (I : Records → Prop) : Prop :=
  ∀ records action, Proper records action → I records → I (records.act action)

theorem held_stable (id : ℕ) (caller : Caller) : Stable (fun records => records.Held id caller) :=
  fun _ action _ h => h.act action

theorem owned_stable (id : ℕ) : Stable (fun records => records.Owned id) :=
  fun _ action _ h => h.act action

theorem adsOwned_stable : Stable Records.AdsOwned := fun _ _ hproper h => h.act hproper

theorem Stable.forall_mem {α : Type} {I : α → Records → Prop} (hI : ∀ a, Stable (I a))
    (xs : List α) : Stable (fun records => ∀ a ∈ xs, I a records) :=
  fun records action hproper h a ha => hI a records action hproper (h a ha)

section After
variable {α : Type} {records : Records} {p : Classification α} {Q R : α → Records → Prop}
  {I : Records → Prop}

/-- What is known at the end of a process, besides what proper actions keep. -/
theorem Stable.after (hI : Stable I) (hs : I records) (hp : p.Meets Records.act Proper Q records)
    (hR : ∀ a records, Q a records → I records → R a records) :
    p.Meets Records.act Proper R records :=
  (hp.and_invariant hI hs).mono (fun _ _ h => h) (fun a records h => hR a records h.1 h.2)

end After

section Calls
variable {records : Records} {caller : Caller}

/-- The row of an optional id stays with a caller. -/
theorem heldAll_stable (id : Option ℕ) (caller : Caller) :
    Stable (fun records => ∀ i ∈ id, records.Held i caller) :=
  fun _ action _ h i hi => (h i hi).act action

theorem updateModelCall_proper {id : Option ℕ} (h : ∀ i ∈ id, records.Held i caller)
    (update : CallUpdate) :
    (updateModelCall caller id update).Meets Records.act Proper (fun _ _ => True) records := by
  cases id with
  | none => trivial
  | some id => exact ⟨h id rfl,trivial⟩

theorem updateModelCalls_proper {α : Type} {id : Option ℕ} (h : ∀ i ∈ id, records.Held i caller)
    (update : α → CallUpdate) (xs : List α) :
    (each (fun x => updateModelCall caller id (update x)) xs).Meets Records.act Proper
      (fun _ _ => True) records := by
  have hheld := heldAll_stable id caller
  refine (meets_each (I := fun records => ∀ i ∈ id, records.Held i caller) ?_ h).mono
    (fun _ _ h => h) (fun _ _ _ => trivial)
  intro x _ records h
  exact hheld.after h (updateModelCall_proper h (update x)) (fun _ _ _ h => h)

theorem complete_proper (provider : Provider) {id : Option ℕ}
    (h : ∀ i ∈ id, records.Held i caller) (messages : List String) :
    (complete provider caller id messages).Meets Records.act Proper (fun _ _ => True) records := by
  have hheld := heldAll_stable id caller
  unfold complete
  simp only [meets_bind,meets_store,meets_perform]
  refine ⟨trivial,?_⟩
  have h' := hheld records (.complete messages) trivial h
  refine hheld.after h' (updateModelCalls_proper h' _ _) ?_
  intro _ records _ h
  split
  · rw [meets_bind]
    exact hheld.after h (updateModelCall_proper h {}) (fun _ _ _ _ => trivial)
  · trivial

variable (caller) in
/-- The row that an upsert returns was given to its caller. -/
theorem upsertModelCall_proper {key : CallKey} {prompt : String}
    (hkey : Proper records (.upsertModelCall caller key prompt)) :
    (upsertModelCall caller key prompt).Meets Records.act Proper
      (fun call records => ∀ row ∈ call, records.Held row.id caller) records := by
  unfold upsertModelCall
  split
  · intro row hrow
    cases hrow
  · simp only [meets_bind,meets_store,meets_perform,meets_pure]
    refine ⟨hkey,?_⟩
    intro row hrow
    obtain ⟨hmem,hrowkey⟩ := CallTable.find_mem hrow
    refine ⟨row,hmem,rfl,?_⟩
    rcases CallTable.mem_upsert.mp hmem with ⟨hne,-⟩ | ⟨old,-,-,rfl⟩
    · exact absurd hrowkey hne
    · simp

theorem handleRetryExhausted_proper {call : ModelCall} (h : records.Held call.id .chunk)
    (maxRetries : ℕ) (lastError : Option String) :
    (handleRetryExhausted maxRetries call lastError).Meets Records.act Proper (fun _ _ => True)
      records := by
  unfold handleRetryExhausted
  simp only [meets_bind]
  have hupdate := @updateModelCall_proper records .chunk (some call.id)
    (fun i hi => Option.some.inj hi ▸ h)
  exact (hupdate _).mono (fun _ _ h => h) (fun _ _ _ => trivial)

/-- Each attempt keeps to the row of the chunk. -/
theorem callModel_proper (provider : Provider) (params : ClassifyParams) (adaptive : Option ℤ)
    (maxRetries : ℕ) {call : ModelCall} (h : records.Held call.id .chunk) (attempt : ℕ)
    (lastError : Option String) (left : ℕ) :
    (callModel provider params adaptive maxRetries call attempt lastError left).Meets Records.act
      Proper (fun _ _ => True) records := by
  have hheld := held_stable call.id .chunk
  have hupdate : ∀ records, records.Held call.id .chunk → ∀ update,
      (updateModelCall .chunk (some call.id) update).Meets Records.act Proper (fun _ _ => True)
        records := fun records h update =>
    updateModelCall_proper (fun i hi => Option.some.inj hi ▸ h) update
  induction left generalizing records attempt lastError with
  | zero => exact handleRetryExhausted_proper h maxRetries lastError
  | succ left ih =>
    unfold callModel
    split
    · simp only [meets_bind]
      exact (hupdate records h _).mono (fun _ _ h => h) (fun _ _ _ => trivial)
    · simp only [meets_bind]
      refine hheld.after h (hupdate records h _) ?_
      intro _ records _ h
      refine hheld.after h (complete_proper provider (fun i hi => Option.some.inj hi ▸ h) _) ?_
      intro outcome records _ h
      cases outcome with
      | retryable error =>
        dsimp only
        split
        · simp only [meets_bind]
          refine hheld.after h (hupdate records h _) ?_
          intro _ records _ h
          exact ih h _ _
        · exact ih h _ _
      | _ =>
        simp only [meets_bind]
        exact (hupdate records h _).mono (fun _ _ h => h) (fun _ _ _ => trivial)

/-- A refinement keeps to the row of the range of its block. -/
theorem refine_proper (provider : Provider) (llmModel : String) (refiner : Refiner)
    (segments : List TranscriptSegment) {block : Block} (h : 0 ≤ block.firstSequenceNum) :
    (refine provider llmModel refiner segments block).Meets Records.act Proper (fun _ _ => True)
      records := by
  unfold refine
  simp only [meets_bind]
  refine Meets.mono (fun _ _ h => h) ?_ (upsertModelCall_proper .refine h)
  intro call records hcall
  have h : ∀ i ∈ call.map ModelCall.id, records.Held i .refine := by
    intro i hi
    obtain ⟨row,hrow,rfl⟩ := Option.map_eq_some_iff.mp hi
    exact hcall row hrow
  have hheld := heldAll_stable (call.map ModelCall.id) .refine
  refine hheld.after h (updateModelCall_proper h _) ?_
  intro _ records _ h
  refine hheld.after h (complete_proper provider h _) ?_
  intro outcome records _ h
  cases outcome with
  | content text =>
    simp only [meets_bind]
    exact (updateModelCalls_proper h id _).mono (fun _ _ h => h) (fun _ _ _ => trivial)
  | _ =>
    simp only [meets_bind]
    exact (updateModelCall_proper h _).mono (fun _ _ h => h) (fun _ _ _ => trivial)

/-- A confirmation keeps to its own row, which the segments it confirms may then refer to. -/
theorem confirm_proper (provider : Provider) (llmModel : String) (repeatAds : RepeatAds)
    (referenceText : String) (candidate : List TranscriptSegment) (candidateFirstSeq : ℤ)
    (confidenceHint : ℚ) :
    (confirm provider llmModel repeatAds referenceText candidate candidateFirstSeq
      confidenceHint).Meets Records.act Proper
        (fun confirmation records => ∀ i ∈ confirmation.modelCallId, records.Held i .confirm)
        records := by
  unfold confirm
  simp only [meets_bind]
  refine Meets.mono (fun _ _ h => h) ?_ (upsertModelCall_proper .confirm rfl)
  intro call records hcall
  have h : ∀ i ∈ call.map ModelCall.id, records.Held i .confirm := by
    intro i hi
    obtain ⟨row,hrow,rfl⟩ := Option.map_eq_some_iff.mp hi
    exact hcall row hrow
  have hheld := heldAll_stable (call.map ModelCall.id) .confirm
  refine hheld.after h (updateModelCall_proper h _) ?_
  intro _ records _ h
  refine hheld.after h (complete_proper provider h _) ?_
  intro outcome records _ h
  cases outcome with
  | content text =>
    simp only [meets_bind]
    refine hheld.after h (updateModelCall_proper h _) ?_
    intro _ records _ h
    split
    · simp only [meets_bind]
      exact hheld.after h (updateModelCall_proper h _) (fun _ _ _ h => h)
    · simp only [meets_bind]
      exact hheld.after h (updateModelCall_proper h _) (fun _ _ _ h => h)
  | _ =>
    simp only [meets_bind]
    exact hheld.after h (updateModelCall_proper h _) (fun _ _ _ h => h)

end Calls

/-- Identifications of one call. -/
def RefersTo (modelCallId : ℕ) (rows : List NewIdentification) : Prop :=
  ∀ row ∈ rows, row.modelCallId = modelCallId

section Rows
variable {identifications : IdentificationTable} {modelCallId : ℕ} {minConfidence : ℚ}

theorem refersTo_nil : RefersTo modelCallId [] := fun _ h => nomatch h

theorem RefersTo.concat {rows : List NewIdentification} (h : RefersTo modelCallId rows)
    (segmentId : ℤ) (confidence : ℚ) :
    RefersTo modelCallId (rows ++ [⟨segmentId,modelCallId,confidence⟩]) := by
  intro row hrow
  rcases List.mem_append.mp hrow with hrow | hrow
  · exact h row hrow
  · rw [List.mem_singleton.mp hrow]

theorem addPreroll_refersTo {m : Matching} (baseConfidence : ℚ) (segment : TranscriptSegment)
    (h : RefersTo modelCallId m.toInsert) : RefersTo modelCallId
      (addPreroll identifications modelCallId minConfidence baseConfidence m segment).toInsert := by
  unfold addPreroll
  split
  · exact h
  · exact h.concat _ _

theorem createIdentification_refersTo {m : Matching} (chunk : List TranscriptSegment)
    (contentType : Option ContentType) (prediction : AdSegmentPrediction)
    (h : RefersTo modelCallId m.toInsert) : RefersTo modelCallId
      (createIdentification identifications modelCallId minConfidence chunk contentType m
        prediction).toInsert := by
  unfold createIdentification
  dsimp only
  split
  · exact h
  · split
    · exact h
    · split
      · exact h
      · split
        · exact h
        · exact List.foldlRecOn (motive := fun m : Matching => RefersTo modelCallId m.toInsert)
            _ _ (h.concat _ _) (fun m hm segment _ => addPreroll_refersTo _ segment hm)

/-- The identifications of a chunk refer to its call. -/
theorem createIdentifications_refersTo (chunk : List TranscriptSegment)
    (predictions : AdSegmentPredictionList) : RefersTo modelCallId
      (createIdentifications identifications modelCallId minConfidence chunk
        predictions).toInsert :=
  List.foldlRecOn (motive := fun m : Matching => RefersTo modelCallId m.toInsert) _ _ refersTo_nil
    (fun _ hm prediction _ => createIdentification_refersTo chunk _ prediction hm)

/-- The identifications of neighbours refer to the call they are given. -/
theorem expandNeighborsBulk_refersTo (transcript : PostTranscript) (analyze : String → Signals)
    (enableBoundaryRefinement : Bool) (window : ℕ) (ads : List AdRow) : RefersTo modelCallId
      (expandNeighborsBulk transcript analyze enableBoundaryRefinement modelCallId window ads) := by
  let Refers := fun state : List ℤ × List NewIdentification => RefersTo modelCallId state.2
  refine List.foldlRecOn (motive := Refers) ads _ refersTo_nil ?_
  intro state hstate ad _
  refine List.foldlRecOn (motive := Refers) _ _ hstate ?_
  intro state hstate segment _
  unfold expandNeighbor
  dsimp only
  split
  · exact hstate
  · split
    · exact hstate.concat _ _
    · exact hstate

theorem mem_batched {α : Type} {size : ℕ} {xs batch : List α} {x : α}
    (hbatch : batch ∈ batched size xs) (hx : x ∈ batch) : x ∈ xs := by
  obtain ⟨i,-,rfl⟩ := List.mem_map.mp hbatch
  exact List.mem_of_mem_drop (List.mem_of_mem_take hx)

end Rows

namespace Setup
variable {setup : Setup} {records : Records}

theorem insertIdentificationsBatched_proper {rows : List NewIdentification}
    (h : ∀ row ∈ rows, records.Owned row.modelCallId) :
    (setup.insertIdentificationsBatched rows).Meets Records.act Proper (fun _ _ => True)
      records := by
  have howned : Stable (fun records => ∀ row ∈ rows, records.Owned row.modelCallId) :=
    Stable.forall_mem (fun row : NewIdentification => owned_stable row.modelCallId) rows
  refine (meets_each (I := fun records => ∀ row ∈ rows, records.Owned row.modelCallId) ?_ h).mono
    (fun _ _ h => h) (fun _ _ _ => trivial)
  intro batch hbatch records h
  have hproper : Proper records (.insertIdentifications batch) :=
    fun row hrow => h row (mem_batched hbatch hrow)
  exact ⟨hproper,howned records _ hproper h⟩

theorem performLlmCall_proper (adaptive : Option ℤ) {call : ModelCall}
    (h : records.Held call.id .chunk) :
    (setup.performLlmCall adaptive call).Meets Records.act Proper (fun _ _ => True) records := by
  unfold performLlmCall
  split
  · split
    · simp only [meets_bind]
      exact (updateModelCall_proper (fun i hi => Option.some.inj hi ▸ h) _).mono
        (fun _ _ h => h) (fun _ _ _ => trivial)
    · exact callModel_proper _ _ _ _ h _ _ _
  · split <;> trivial

theorem processOutcome_proper (chunk : List TranscriptSegment) {call : ModelCall}
    (h : records.Held call.id .chunk) :
    (setup.processOutcome chunk call).Meets Records.act Proper (fun _ _ => True) records := by
  unfold processOutcome
  simp only [meets_bind,meets_store]
  split
  · trivial
  · rename_i row hrow
    have hid : row.id = call.id := (Table.get_eq_some.mp hrow).2
    split
    · trivial
    · split
      · unfold processSuccessfulResponse
        simp only [meets_bind,meets_store]
        split
        · trivial
        · simp only [meets_bind]
          refine (insertIdentificationsBatched_proper ?_).mono (fun _ _ h => h)
            (fun _ _ _ => trivial)
          intro new hnew
          rw [createIdentifications_refersTo _ _ new hnew,hid]
          exact ⟨.chunk,by decide,h⟩
      · trivial

/-- A chunk keeps to the row of its range. -/
theorem processChunk_proper (adaptive : Option ℤ) {first : TranscriptSegment}
    (last : TranscriptSegment) (chunk : List TranscriptSegment) (userPrompt : String)
    (h : 0 ≤ first.sequenceNum) :
    (setup.processChunk adaptive first last chunk userPrompt).Meets Records.act Proper
      (fun _ _ => True) records := by
  unfold processChunk
  simp only [meets_bind]
  refine Meets.mono (fun _ _ h => h) ?_ (upsertModelCall_proper .chunk h)
  intro call records hcall
  cases call with
  | none => trivial
  | some call =>
    have h := hcall call rfl
    simp only [meets_bind]
    refine (held_stable call.id .chunk).after h (performLlmCall_proper adaptive h) ?_
    intro result records _ h
    cases result with
    | returned =>
      simp only [meets_bind]
      exact (processOutcome_proper chunk h).mono (fun _ _ h => h) (fun _ _ _ => trivial)
    | _ => trivial

theorem sequence_nonneg {segment : TranscriptSegment} (h : segment ∈ setup.segments) :
    0 ≤ segment.sequenceNum := setup.transcript.sequence_nonneg segment h

/-- The rounds of a chunk stay within the transcript. -/
theorem stepChunk_proper {overlap : List TranscriptSegment} (hoverlap : overlap ⊆ setup.segments)
    (index rounds : ℕ) (round : ℕ × ClassifierState) :
    (setup.stepChunk overlap index rounds round).Meets Records.act Proper
      (fun result _ => ∀ next, result.1 = .ok next → next.2 ⊆ setup.segments) records := by
  have hdone : ∀ (error : RunError) (state : ClassifierState), ∀ next,
      ((.error error : Except RunError (ℕ × List TranscriptSegment)),state).1 = .ok next →
        next.2 ⊆ setup.segments := fun _ _ _ h => nomatch h
  induction rounds generalizing records round with
  | zero => exact hdone _ _
  | succ rounds ih =>
    obtain ⟨maxNewSegments,state⟩ := round
    unfold stepChunk
    dsimp only
    split
    · rename_i first last hfirst hlast
      split
      · exact hdone _ _
      · have hmem : first ∈ setup.segments := by
          rcases mem_buildChunkPayload (List.mem_of_mem_head? hfirst) with h | h
          · exact hoverlap h
          · exact List.mem_of_mem_drop h
        simp only [meets_bind]
        refine (processChunk_proper _ last _ _ (sequence_nonneg hmem)).mono (fun _ _ h => h) ?_
        intro result records _
        cases result with
        | error error => exact hdone _ _
        | ok answer =>
          dsimp only
          split
          · exact ih _
          · exact hdone _ _
          · rename_i next _ hattempt
            intro other hother
            cases hother
            intro s hs
            exact (mem_of_attempt hattempt hs).elim (fun h => hoverlap h) id
    · exact hdone _ _

theorem classifyChunks_proper (n index : ℕ) {overlap : List TranscriptSegment}
    (hoverlap : overlap ⊆ setup.segments) (state : ClassifierState) :
    (setup.classifyChunks n index overlap state).Meets Records.act Proper (fun _ _ => True)
      records := by
  induction n generalizing records index overlap state with
  | zero => trivial
  | succ n ih =>
    unfold classifyChunks
    split
    · simp only [meets_bind]
      have hcapped : applyOverlapCap setup.params.maxOverlapSegments overlap ⊆ setup.segments :=
        fun _ h => hoverlap ((applyOverlapCap_sublist _).subset h)
      refine (stepChunk_proper hcapped index _ _).mono (fun _ _ h => h) ?_
      rintro ⟨result,state⟩ records hresult
      cases result with
      | error error => trivial
      | ok next =>
        dsimp only
        split
        · trivial
        · exact ih _ (hresult next rfl) state
    · trivial

theorem expandNeighbors_proper (h : records.AdsOwned) :
    setup.expandNeighbors.Meets Records.act Proper (fun _ _ => True) records := by
  unfold expandNeighbors
  simp only [meets_bind,meets_store]
  split
  · trivial
  · rename_i ad ads hads
    split
    · trivial
    · rename_i call hcall
      apply insertIdentificationsBatched_proper
      intro row hrow
      have hmem : ad ∈ adIdentifications setup.rowOrder setup.transcript records.identifications :=
        hads ▸ List.mem_cons_self
      rw [expandNeighborsBulk_refersTo _ _ _ _ _ row hrow,(Table.get_eq_some.mp hcall).2]
      exact h _ (mem_adIdentifications.mp hmem).1

theorem confirmAndRecordRepeat_proper (repeatAds : RepeatAds) (ad : AdMeta) (candidate : ℤ × ℤ) :
    (setup.confirmAndRecordRepeat repeatAds ad candidate).Meets Records.act Proper
      (fun rows records => ∀ row ∈ rows, records.Owned row.modelCallId) records := by
  have hnil : ∀ records : Records, ∀ row ∈ ([] : List NewIdentification),
      records.Owned row.modelCallId := fun _ _ h => nomatch h
  unfold confirmAndRecordRepeat
  dsimp only
  split
  · exact hnil records
  · simp only [meets_bind]
    refine (confirm_proper _ _ _ _ _ _ _).mono (fun _ _ h => h) ?_
    intro confirmation records h
    split
    · exact hnil records
    · rename_i id hid
      split
      · exact hnil records
      · intro row hrow
        obtain ⟨s,-,rfl⟩ := List.mem_map.mp hrow
        exact ⟨.confirm,by decide,h id hid⟩

/-- Every identification found so far is owned. -/
def Repeats.Owned (found : Repeats) (records : Records) : Prop :=
  ∀ row ∈ found.newIdentifications, records.Owned row.modelCallId

theorem repeatsOwned_stable (found : Repeats) : Stable found.Owned :=
  Stable.forall_mem (fun row : NewIdentification => owned_stable row.modelCallId) _

theorem confirmCandidates_proper (repeatAds : RepeatAds) (ad : AdMeta)
    (candidates : List (ℤ × ℤ)) {found : Repeats} (h : found.Owned records) :
    (setup.confirmCandidates repeatAds ad candidates found).Meets Records.act Proper
      Repeats.Owned records := by
  induction candidates generalizing records found with
  | nil => exact h
  | cons candidate candidates ih =>
    unfold confirmCandidates
    dsimp only
    split
    · exact ih h
    · simp only [meets_bind]
      refine (repeatsOwned_stable found).after h
        (confirmAndRecordRepeat_proper repeatAds ad candidate) ?_
      intro rows records hrows h
      split
      · exact ih h
      · apply ih
        intro row hrow
        rcases List.mem_append.mp hrow with hrow | hrow
        · exact h row hrow
        · exact hrows row hrow

theorem detectRepeats_proper (repeatAds : RepeatAds) (detected : List (ℤ × ℤ))
    (ads : List AdMeta) {found : Repeats} (h : found.Owned records) :
    (setup.detectRepeats repeatAds detected ads found).Meets Records.act Proper
      Repeats.Owned records := by
  induction ads generalizing records found with
  | nil => exact h
  | cons ad ads ih =>
    unfold detectRepeats
    dsimp only
    split
    · exact ih h
    · simp only [meets_bind]
      exact Meets.mono (fun _ _ h => h) (fun _ _ h => ih h) (confirmCandidates_proper repeatAds ad _ h)

theorem detectRepeatAds_proper :
    setup.detectRepeatAds.Meets Records.act Proper (fun _ _ => True) records := by
  unfold detectRepeatAds
  split
  · trivial
  · simp only [meets_bind,meets_store]
    refine Meets.mono (fun _ _ h => h) ?_ (detectRepeats_proper _ _ _ ?_)
    · intro found records h
      exact insertIdentificationsBatched_proper h
    · intro row hrow
      cases hrow

/-- What is known of the blocks of ads. -/
def Fit (setup : Setup) (blocks : List Block) (records : Records) : Prop :=
  ∀ block ∈ blocks, (∀ row ∈ block.rows, row.segment ∈ setup.segments) ∧
    records.Owned block.first.identification.modelCallId

theorem fit_stable (blocks : List Block) : Stable (setup.Fit blocks) :=
  fun _ action _ h block hblock => ⟨(h block hblock).1,(h block hblock).2.act action⟩

theorem fit_groupIntoBlocks (h : records.AdsOwned) :
    setup.Fit (groupIntoBlocks
      (adIdentifications setup.rowOrder setup.transcript records.identifications)) records := by
  intro block hblock
  have hads := mem_groupIntoBlocks hblock
  constructor
  · intro row hrow
    exact (mem_adIdentifications.mp (hads row hrow)).2.1
  · exact h _ (mem_adIdentifications.mp (hads block.first List.mem_cons_self)).1

theorem foldl_min_nonneg {xs : List ℤ} {x : ℤ} (hx : 0 ≤ x) (hxs : ∀ y ∈ xs, 0 ≤ y) :
    0 ≤ xs.foldl min x :=
  List.foldlRecOn xs min hx (fun _ hy z hz => le_min hy (hxs z hz))

theorem applyRefinement_proper {block : Block} {modelCallId : ℕ} (window : ℚ × ℚ)
    (h : records.Owned modelCallId) :
    (setup.applyRefinement block window modelCallId).Meets Records.act Proper (fun _ _ => True)
      records := by
  unfold applyRefinement
  simp only [meets_bind,meets_perform]
  refine ⟨List.forall_mem_nil _,insertIdentificationsBatched_proper ?_⟩
  intro row hrow
  obtain ⟨s,-,rfl⟩ := List.mem_map.mp hrow
  exact h.act _

theorem refineBlocks_proper (refiner : Refiner) (blocks : List Block)
    (boundaries : List AdBoundary) (h : setup.Fit blocks records) :
    (setup.refineBlocks refiner blocks boundaries).Meets Records.act Proper (fun _ _ => True)
      records := by
  induction blocks generalizing records boundaries with
  | nil => trivial
  | cons block blocks ih =>
    have htail : ∀ {records}, setup.Fit (block::blocks) records → setup.Fit blocks records :=
      fun h other hother => h other (List.mem_cons_of_mem block hother)
    unfold refineBlocks
    split
    · exact ih _ (htail h)
    · have hrange : 0 ≤ block.firstSequenceNum := by
        have hrows := fun row hrow => sequence_nonneg ((h block List.mem_cons_self).1 row hrow)
        apply foldl_min_nonneg (hrows block.first List.mem_cons_self)
        intro y hy
        obtain ⟨row,hrow,rfl⟩ := List.mem_map.mp hy
        exact hrows row (List.mem_cons_of_mem block.first hrow)
      simp only [meets_bind,meets_store]
      refine (fit_stable (block::blocks)).after h (refine_proper _ _ _ _ hrange) ?_
      intro window records _ h
      split
      · exact ih _ (htail h)
      · rename_i call hcall
        have howned : records.Owned call.id :=
          (Table.get_eq_some.mp hcall).2 ▸ (h block List.mem_cons_self).2
        simp only [meets_bind]
        refine (fit_stable (block::blocks)).after h (applyRefinement_proper window howned) ?_
        intro _ records _ h
        exact ih _ (htail h)

theorem refineBoundaries_proper (h : records.AdsOwned) :
    setup.refineBoundaries.Meets Records.act Proper (fun _ _ => True) records := by
  unfold refineBoundaries
  split
  · trivial
  · simp only [meets_bind,meets_store]
    refine (refineBlocks_proper _ _ _ (fit_groupIntoBlocks h)).mono (fun _ _ h => h) ?_
    intro boundaries records _
    exact ⟨trivial,trivial⟩

/-- A classification sends proper actions. -/
theorem classify_proper (setup : Setup) (h : records.AdsOwned) :
    setup.classify.Meets Records.act Proper (fun _ _ => True) records := by
  unfold classify
  split
  · trivial
  · simp only [meets_bind]
    refine adsOwned_stable.after h (classifyChunks_proper _ _ (List.nil_subset _) _) ?_
    intro result records _ h
    split
    · trivial
    · trivial
    · simp only [meets_bind]
      refine adsOwned_stable.after h (expandNeighbors_proper h) ?_
      intro _ records _ h
      refine adsOwned_stable.after h detectRepeatAds_proper ?_
      intro _ records _ h
      exact (refineBoundaries_proper h).mono (fun _ _ h => h) (fun _ _ _ => trivial)

end Setup

end Podly.Classifier
