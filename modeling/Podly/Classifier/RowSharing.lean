import Podly.Classifier.Requests

/-! Which requests share a row of `model_call`. Chunks and refinements find their rows by the range
of their segments; only confirmations have a range of their own. -/
namespace Podly.Classifier
open Store Processes Process

/-- Classifications of one post, one after the other. -/
def classifyAll (history : List Setup) : Classification PUnit :=
  each (fun setup => do
    let _ ← setup.classify
    pure ⟨⟩) history

/-- Their actions, from a post that has not been classified. -/
def actionsOf (history : List Setup) : List Action :=
  (classifyAll history).trace Records.act Records.empty

/-- The caller and the key of a request. -/
def Action.request : Action → Option (Caller × CallKey)
  | .upsertModelCall caller key _ => some (caller,key)
  | _ => none

def requests (actions : List Action) : List (Caller × CallKey) := actions.filterMap Action.request

/-- No range of segments is asked for by a chunk and by a refinement, under one model. -/
def RangesApart (actions : List Action) : Prop :=
  ∀ key, (.chunk,key) ∈ requests actions → (.refine,key) ∉ requests actions

/-- The caller that an action on a row of `model_call` is for. -/
def Action.caller : Action → Option Caller
  | .upsertModelCall caller _ _ | .updateModelCall caller _ _ => some caller
  | _ => none

/-- The action reads or writes the row. -/
def Action.Uses (call : ModelCall) : Action → Prop
  | .upsertModelCall _ key _ => call.key = key
  | .updateModelCall _ id _ => call.id = id
  | _ => False

/-- The identification counts when the cut windows are queried. -/
def Records.Counts (records : Records) (ad : Identification) : Prop :=
  ∃ call ∈ records.modelCalls.table.rows, call.id = ad.modelCallId ∧ call.status = .success

/-- The row of a chunk serves no refinement, and the response in it replies to a chunk. -/
structure ServesOne (records : Records) : Prop where
  apart : ∀ call ∈ records.modelCalls.table.rows, .chunk ∈ call.servedTo → .refine ∉ call.servedTo
  reply : ∀ call ∈ records.modelCalls.table.rows, .chunk ∈ call.servedTo →
    call.response.isSome → call.respondent = some .chunk

/-- The action uses no row of a chunk and leaves it as it is. -/
structure LeavesAlone (records : Records) (action : Action) : Prop where
  unused : ∀ call ∈ records.modelCalls.table.rows, .chunk ∈ call.servedTo → ¬action.Uses call
  unchanged : ∀ call ∈ records.modelCalls.table.rows, .chunk ∈ call.servedTo →
    call ∈ (records.act action).modelCalls.table.rows

/-- One row serves one request: at every point the rows of chunks are theirs alone, no action of a
refinement touches them, and identifications count after refinements if they did before. -/
structure OneRequest (actions : List Action) : Prop where
  servesOne : ∀ before, before <+: actions → ServesOne (run Records.act Records.empty before)
  leavesAlone : AllSteps Records.act
    (fun records action => action.caller = some .refine → LeavesAlone records action)
    Records.empty actions
  counted : ∀ before during after, actions = before ++ during ++ after →
    (∀ action ∈ during, ∀ caller ∈ action.caller, caller = .refine) →
    ∀ ad ∈ (run Records.act Records.empty before).identifications.rows,
      (run Records.act Records.empty before).Counts ad →
        (run Records.act Records.empty (before ++ during)).Counts ad

/-- The rows are those of the requests so far, each given to the callers that asked for it. -/
structure Recorded (done : List (Caller × CallKey)) (records : Records) : Prop where
  servedTo : ∀ call ∈ records.modelCalls.table.rows, ∀ caller,
    caller ∈ call.servedTo ↔ (caller,call.key) ∈ done
  found : ∀ caller key, (caller,key) ∈ done →
    ∃ call ∈ records.modelCalls.table.rows, call.key = key

/-- A response was written for a caller that the row was given to. -/
def Records.Answered (records : Records) : Prop :=
  ∀ call ∈ records.modelCalls.table.rows, call.response.isSome →
    ∃ caller ∈ call.servedTo, call.respondent = some caller

section Steps
variable {records : Records} {done : List (Caller × CallKey)}

theorem Recorded.upsert (h : Recorded done records) (caller : Caller) (key : CallKey)
    (prompt : String) : Recorded (done ++ [(caller,key)])
      (records.act (.upsertModelCall caller key prompt)) := by
  constructor
  · intro call hcall other
    rw [List.mem_append,List.mem_singleton,Prod.mk.injEq]
    rcases CallTable.mem_upsert.mp hcall with ⟨hkey,hold⟩ | ⟨row,hrow,hkey,rfl⟩
    · simp only [hkey,and_false,or_false]
      exact h.servedTo call hold other
    · have hold : other ∈ row.servedTo ↔ (other,key) ∈ done := by
        rcases CallTable.mem_findOrCreate hrow with hrow | ⟨hnew,rfl⟩
        · exact hkey ▸ h.servedTo row hrow other
        · constructor
          · intro hother
            cases hother
          · intro hdone
            obtain ⟨old,hmem,hold⟩ := h.found other key hdone
            exact absurd (List.mem_map.mpr ⟨old,hmem,hold⟩) hnew
      simp only [ModelCall.serve_servedTo,ModelCall.serve_key,hkey,List.mem_cons,hold,and_true]
      exact or_comm
  · intro other otherKey hdone
    rcases List.mem_append.mp hdone with hdone | hdone
    · obtain ⟨call,hcall,hkey⟩ := h.found other otherKey hdone
      by_cases hsame : call.key = key
      · exact ⟨_,CallTable.mem_upsert.mpr (.inr
          ⟨call,CallTable.mem_findOrCreate_of_mem hcall,hsame,rfl⟩),by simpa using hkey⟩
      · exact ⟨call,CallTable.mem_upsert.mpr (.inl ⟨hsame,hcall⟩),hkey⟩
    · obtain ⟨rfl,rfl⟩ := Prod.mk.inj (List.mem_singleton.mp hdone)
      obtain ⟨row,hrow,hkey⟩ := @CallTable.exists_findOrCreate records.modelCalls otherKey prompt
      exact ⟨_,CallTable.mem_upsert.mpr (.inr ⟨row,hrow,hkey,rfl⟩),by simpa using hkey⟩

theorem Recorded.update (h : Recorded done records) (caller : Caller) (id : ℕ)
    (update : CallUpdate) : Recorded done (records.act (.updateModelCall caller id update)) := by
  constructor
  · intro call hcall
    rcases CallTable.mem_update.mp hcall with ⟨-,hold⟩ | ⟨row,hrow,-,rfl⟩
    · exact h.servedTo call hold
    · exact h.servedTo row hrow
  · intro other key hdone
    obtain ⟨call,hcall,hkey⟩ := h.found other key hdone
    by_cases hid : call.id = id
    · exact ⟨_,CallTable.mem_update.mpr (.inr ⟨call,hcall,hid,rfl⟩),hkey⟩
    · exact ⟨call,CallTable.mem_update.mpr (.inl ⟨hid,hcall⟩),hkey⟩

theorem Recorded.act (h : Recorded done records) (action : Action) :
    Recorded (done ++ action.request.toList) (records.act action) := by
  cases action with
  | upsertModelCall caller key prompt => exact h.upsert caller key prompt
  | updateModelCall caller id update =>
    simp only [Action.request,Option.toList_none,List.append_nil]
    exact h.update caller id update
  | _ =>
    simp only [Action.request,Option.toList_none,List.append_nil]
    exact ⟨h.servedTo,h.found⟩

/-- Proper updates keep the history of responses. -/
theorem Records.Answered.act (h : records.Answered) {action : Action}
    (hproper : Proper records action) : (records.act action).Answered := by
  cases action with
  | upsertModelCall caller key prompt =>
    intro call hcall hresponse
    rcases CallTable.mem_upsert.mp hcall with ⟨-,hold⟩ | ⟨row,hrow,-,rfl⟩
    · exact h call hold hresponse
    · obtain ⟨response,hsome⟩ := Option.isSome_iff_exists.mp hresponse
      have hbefore := row.serve_response caller prompt hsome
      rcases CallTable.mem_findOrCreate hrow with hrow | ⟨-,rfl⟩
      · obtain ⟨other,hother,hrespondent⟩ := h row hrow (Option.isSome_iff_exists.mpr ⟨_,hbefore⟩)
        exact ⟨other,by simp [hother],by simpa using hrespondent⟩
      · cases hbefore
  | updateModelCall caller id update =>
    intro call hcall hresponse
    rcases CallTable.mem_update.mp hcall with ⟨-,hold⟩ | ⟨row,hrow,hid,rfl⟩
    · exact h call hold hresponse
    · obtain ⟨held,hheld,hsame,hserved⟩ := hproper
      obtain rfl : held = row := Table.eq_of_key_eq hheld hrow (hsame.trans hid.symm)
      cases hupdate : update.response with
      | some response => exact ⟨caller,hserved,by simp [CallUpdate.apply,hupdate]⟩
      | none =>
        have hbefore : held.response.isSome := by simpa [CallUpdate.apply,hupdate] using hresponse
        obtain ⟨other,hother,hrespondent⟩ := h held hrow hbefore
        exact ⟨other,hother,by simpa [CallUpdate.apply,hupdate] using hrespondent⟩
  | _ => exact h

/-- Only the actions of a caller use a row. -/
theorem Action.not_uses_of_caller_none {call : ModelCall} {action : Action}
    (h : action.caller = none) : ¬action.Uses call := by
  intro huses
  cases action with
  | upsertModelCall caller key prompt => cases h
  | updateModelCall caller id update => cases h
  | _ => exact huses

/-- A row that an action does not use stays as it is. -/
theorem mem_act_of_not_uses {call : ModelCall} {action : Action}
    (hcall : call ∈ records.modelCalls.table.rows) (h : ¬action.Uses call) :
    call ∈ (records.act action).modelCalls.table.rows := by
  cases action with
  | upsertModelCall caller key prompt => exact CallTable.mem_upsert.mpr (.inl ⟨h,hcall⟩)
  | updateModelCall caller id update => exact CallTable.mem_update.mpr (.inl ⟨h,hcall⟩)
  | _ => exact hcall

end Steps

theorem requests_append (before after : List Action) :
    requests (before ++ after) = requests before ++ requests after := List.filterMap_append

theorem requests_cons (action : Action) (actions : List Action) :
    requests (action::actions) = action.request.toList ++ requests actions := by
  unfold requests
  cases h : action.request <;> simp [h]

theorem recorded_run (actions : List Action) :
    Recorded (requests actions) (run Records.act Records.empty actions) := by
  have hrun : ∀ (actions : List Action) (records : Records) (done : List (Caller × CallKey)),
      Recorded done records → Recorded (done ++ requests actions)
        (run Records.act records actions) := by
    intro actions
    induction actions with
    | nil =>
      intro records done h
      simpa [requests] using h
    | cons action actions ih =>
      intro records done h
      rw [requests_cons,← List.append_assoc]
      exact ih (records.act action) _ (h.act action)
  apply hrun actions Records.empty []
  constructor
  · intro call hcall
    cases hcall
  · intro caller key hdone
    cases hdone

/-- The actions of a history are proper. -/
theorem actionsOf_proper (history : List Setup) :
    AllSteps Records.act Proper Records.empty (actionsOf history) := by
  have hall : (classifyAll history).Meets Records.act Proper (fun _ => Records.AdsOwned)
      Records.empty := by
    refine meets_each ?_ (fun ad had => nomatch had)
    intro setup _ records h
    simp only [meets_bind,meets_pure]
    exact adsOwned_stable.after h (setup.classify_proper h) (fun _ _ _ h => h)
  exact (meets_iff.mp hall).1

section Proper
variable {actions before after : List Action} {action : Action}

/-- The ranges of confirmations begin at the sentinel, and no others do. -/
theorem request_range {records : Records}
    (hproper : AllSteps Records.act Proper records actions) {caller : Caller} {key : CallKey}
    (h : (caller,key) ∈ requests actions) :
    caller = .confirm ↔ key.firstSegmentSequenceNum = repeatAdConfirmFirstSeqSentinel := by
  induction actions generalizing records with
  | nil => cases h
  | cons action actions ih =>
    obtain ⟨hfirst,hrest⟩ := hproper
    rw [requests_cons] at h
    rcases List.mem_append.mp h with h | h
    · cases action with
      | upsertModelCall other otherKey prompt =>
        obtain ⟨rfl,rfl⟩ := Prod.mk.inj (List.mem_singleton.mp h)
        cases caller with
        | confirm => exact iff_of_true rfl hfirst
        | _ =>
          refine iff_of_false (by decide) (fun he => ?_)
          have hnonneg : 0 ≤ key.firstSegmentSequenceNum := hfirst
          rw [he] at hnonneg
          exact absurd hnonneg (by decide)
      | _ => cases h
    · exact ih hrest h

variable (hproper : AllSteps Records.act Proper Records.empty actions)
include hproper

theorem answered_run : (run Records.act Records.empty actions).Answered :=
  hproper.invariant (fun _ _ hproper h => h.act hproper) (fun _ h => nomatch (h : _ ∈ []))

theorem adsOwned_run : (run Records.act Records.empty actions).AdsOwned :=
  hproper.invariant adsOwned_stable (fun _ h => nomatch (h : _ ∈ []))

/-- A row that serves a refinement serves nothing else. -/
theorem served_refine (hapart : RangesApart actions) (hbefore : before <+: actions)
    {call : ModelCall}
    (hcall : call ∈ (run Records.act Records.empty before).modelCalls.table.rows) {caller : Caller}
    (hserved : caller ∈ call.servedTo) (hrefine : (.refine,call.key) ∈ requests actions) :
    caller = .refine := by
  have hasked : (caller,call.key) ∈ requests actions := by
    obtain ⟨rest,rfl⟩ := hbefore
    rw [requests_append]
    exact List.mem_append_left _ (((recorded_run before).servedTo call hcall caller).mp hserved)
  cases caller with
  | chunk => exact absurd hrefine (hapart call.key hasked)
  | confirm =>
    have hsentinel := (request_range hproper hasked).mp rfl
    exact absurd ((request_range hproper hrefine).mpr hsentinel) (by decide)
  | refine => rfl

/-- Without a shared range every row serves one request at every point. -/
theorem servesOne_of_rangesApart (hapart : RangesApart actions) (hbefore : before <+: actions) :
    ServesOne (run Records.act Records.empty before) := by
  have hasked : ∀ {caller key}, (caller,key) ∈ requests before →
      (caller,key) ∈ requests actions := by
    obtain ⟨rest,rfl⟩ := hbefore
    rw [requests_append]
    exact fun h => List.mem_append_left _ h
  have hrecorded := recorded_run before
  constructor
  · intro call hcall hchunk hrefine
    have hrequest := hasked ((hrecorded.servedTo call hcall .refine).mp hrefine)
    cases served_refine hproper hapart hbefore hcall hchunk hrequest
  · intro call hcall hchunk hresponse
    have hproper' : AllSteps Records.act Proper Records.empty before := by
      obtain ⟨rest,rfl⟩ := hbefore
      exact (allSteps_append.mp hproper).1
    obtain ⟨caller,hserved,hrespondent⟩ := answered_run hproper' call hcall hresponse
    rw [hrespondent]
    have hchunk' := hasked ((hrecorded.servedTo call hcall .chunk).mp hchunk)
    have hcaller := hasked ((hrecorded.servedTo call hcall caller).mp hserved)
    cases caller with
    | chunk => rfl
    | confirm =>
      have hsentinel := (request_range hproper hcaller).mp rfl
      exact absurd ((request_range hproper hchunk').mpr hsentinel) (by decide)
    | refine => cases served_refine hproper hapart hbefore hcall hchunk hcaller

/-- Without a shared range a refinement uses no row that was given to another caller. -/
theorem unused_of_rangesApart (hapart : RangesApart actions)
    (hsplit : actions = before ++ action::after) (hcaller : action.caller = some .refine)
    {call : ModelCall}
    (hcall : call ∈ (run Records.act Records.empty before).modelCalls.table.rows) {caller : Caller}
    (hserved : caller ∈ call.servedTo) (hne : caller ≠ .refine) : ¬action.Uses call := by
  intro huses
  have hbefore : before <+: actions := hsplit ▸ List.prefix_append before _
  have hrefine : (.refine,call.key) ∈ requests actions := by
    rw [hsplit,requests_append,requests_cons]
    cases action with
    | upsertModelCall other key prompt =>
      obtain rfl := Option.some.inj hcaller
      obtain rfl : call.key = key := huses
      exact List.mem_append_right _ List.mem_cons_self
    | updateModelCall other id update =>
      obtain rfl := Option.some.inj hcaller
      obtain ⟨held,hheld,hid,hrefine⟩ := allSteps_iff_split.mp hproper before _ after hsplit
      obtain rfl : held = call := Table.eq_of_key_eq hheld hcall (hid.trans huses.symm)
      exact List.mem_append_left _ (((recorded_run before).servedTo held hcall .refine).mp hrefine)
    | _ => cases hcaller
  exact hne (served_refine hproper hapart hbefore hcall hserved hrefine)

theorem leavesAlone_of_rangesApart (hapart : RangesApart actions)
    (hsplit : actions = before ++ action::after) (hcaller : action.caller = some .refine) :
    LeavesAlone (run Records.act Records.empty before) action := by
  have hunused : ∀ call ∈ (run Records.act Records.empty before).modelCalls.table.rows,
      .chunk ∈ call.servedTo → ¬action.Uses call := fun call hcall hchunk =>
    unused_of_rangesApart hproper hapart hsplit hcaller hcall hchunk (by decide)
  exact ⟨hunused,fun call hcall hchunk => mem_act_of_not_uses hcall (hunused call hcall hchunk)⟩

/-- The call of an owned identification keeps its success through refinements. -/
theorem counts_of_rangesApart (hapart : RangesApart actions) (during : List Action)
    (hsplit : actions = before ++ during ++ after)
    (hcallers : ∀ action ∈ during, ∀ caller ∈ action.caller, caller = .refine)
    {ad : Identification} (howned : (run Records.act Records.empty before).Owned ad.modelCallId)
    (hcounts : (run Records.act Records.empty before).Counts ad) :
    (run Records.act Records.empty (before ++ during)).Counts ad := by
  induction during generalizing before with
  | nil => simpa using hcounts
  | cons action during ih =>
    have hsplit' : actions = before ++ action::(during ++ after) := by simpa using hsplit
    have hrun : run Records.act Records.empty (before ++ [action]) =
        (run Records.act Records.empty before).act action := run_append _ _ _ _
    have hnext := @ih (before ++ [action]) (by simpa using hsplit)
      (fun other hother => hcallers other (List.mem_cons_of_mem action hother))
      (hrun ▸ howned.act action)
    rw [List.append_assoc,List.singleton_append] at hnext
    apply hnext
    rw [hrun]
    obtain ⟨call,hcall,hid,hsuccess⟩ := hcounts
    refine ⟨call,?_,hid,hsuccess⟩
    apply mem_act_of_not_uses hcall
    obtain ⟨caller,hne,owner,howner,hsame,hserved⟩ := howned
    obtain rfl : owner = call := Table.eq_of_key_eq howner hcall (hsame.trans hid.symm)
    cases hcaller : action.caller with
    | none => exact Action.not_uses_of_caller_none hcaller
    | some other =>
      obtain rfl := hcallers action List.mem_cons_self other hcaller
      exact unused_of_rangesApart hproper hapart hsplit' hcaller hcall hserved hne

end Proper

/-- Over any classifications of a post, one row of `model_call` serves one request exactly when no
range is asked for by a chunk and by a refinement. -/
theorem oneRequest_iff (history : List Setup) :
    OneRequest (actionsOf history) ↔ RangesApart (actionsOf history) := by
  have hproper := actionsOf_proper history
  constructor
  · intro h key hchunk hrefine
    have hrecorded := recorded_run (actionsOf history)
    obtain ⟨call,hcall,rfl⟩ := hrecorded.found .chunk key hchunk
    exact (h.servesOne _ (List.prefix_refl _)).apart call hcall
      ((hrecorded.servedTo call hcall .chunk).mpr hchunk)
      ((hrecorded.servedTo call hcall .refine).mpr hrefine)
  · intro hapart
    constructor
    · exact fun before hbefore => servesOne_of_rangesApart hproper hapart hbefore
    · rw [allSteps_iff_split]
      intro before action after hsplit hcaller
      exact leavesAlone_of_rangesApart hproper hapart hsplit hcaller
    · intro before during after hsplit hcallers ad had hcounts
      have hbefore : AllSteps Records.act Proper Records.empty before := by
        rw [hsplit,List.append_assoc] at hproper
        exact (allSteps_append.mp hproper).1
      exact counts_of_rangesApart hproper hapart during hsplit hcallers (adsOwned_run hbefore ad had)
        hcounts

section Collision

/-- The chunk is answered, and the request to refine its ad times out. -/
def collision : Setup where
  params := ⟨"",fun _ _ _ => "chunk",2,Nat.two_pos,0,none⟩
  transcript := PostTranscript.twoSegments
  rowOrder := .bySegment
  llmModel := "model"
  adaptive := none
  minConfidence := 1/2
  maxRetries := 1
  testMode := false
  batchSize := defaultWriterBatchSize
  batchSize_pos := defaultWriterBatchSize_pos
  cleanAndParseModelOutput := fun text =>
    if text = "ads" then some ⟨[⟨0,9/10⟩,⟨10,9/10⟩],none⟩ else none
  tooLargeFromMessage := fun _ => none
  analyze := fun _ => ⟨false,false,false⟩
  refiner := some ⟨fun _ _ => "refine",fun _ _ _ => ([],(0,0)),fun block _ =>
    (block.start,block.stop)⟩
  repeatAds := none
  provider := fun number _ => if number = 0 then ⟨[],.content "ads"⟩ else ⟨[],.fatal "timeout"⟩

/-- The failed refinement fails the row of the chunk, and no ad of the chunk counts any more. -/
theorem collision_not_oneRequest : ¬OneRequest (actionsOf [collision]) ∧
    (collision.classify.final Records.act Records.empty).identifications.rows ≠ [] ∧
    ∀ ad ∈ (collision.classify.final Records.act Records.empty).identifications.rows,
      ¬(collision.classify.final Records.act Records.empty).Counts ad := by
  refine ⟨?_,by decide +kernel,?_⟩
  · intro h
    have hshared : ∃ call ∈
        (run Records.act Records.empty (actionsOf [collision])).modelCalls.table.rows,
        .chunk ∈ call.servedTo ∧ .refine ∈ call.servedTo := by decide +kernel
    obtain ⟨call,hcall,hchunk,hrefine⟩ := hshared
    exact (h.servesOne _ (List.prefix_refl _)).apart call hcall hchunk hrefine
  · unfold Records.Counts
    decide +kernel

end Collision

end Podly.Classifier
