import Podly.Classifier.Identify
import Podly.Processes.Process

/-! The requests to the provider, each with its row of `model_call`: `_call_model` with its retries,
the refinement of a block, and the confirmation of a repeated ad. -/
namespace Podly.Classifier
open Store Processes Process

/-- A computation of the classifier over the records of a post. -/
abbrev Classification (α : Type) := Process Records Action α

/-- What `call_litellm_with_tier_retry` writes to a row while the provider is busy. -/
inductive Interim
  | backOff (message : String)
  | attemptStarted

def Interim.update : Interim → CallUpdate
  | .backOff message => { status := some .retrying, errorMessage := some (some message) }
  | .attemptStarted => { status := some .pending }

/-- How a request ends. -/
inductive Outcome
  | content (text : String)
  | tooLarge (limit requested : ℕ)
  | retryable (error : String)
  | fatal (error : String)

/-- What becomes of a request. -/
structure Exchange where
  interim : List Interim
  outcome : Outcome

/-- A provider answers a request by its number and its messages. -/
abbrev Provider := ℕ → List String → Exchange

/-- `str(LLMRequestTooLargeError)`. -/
def tooLargeMessage (limit requested : ℕ) : String :=
  "LLM request too large on tokens per minute (TPM): Limit " ++ toString limit ++ ", Requested " ++
    toString requested

/-- `str` of the error a request ended with. -/
def Outcome.error : Outcome → String
  | .content _ => ""
  | .tooLarge limit requested => tooLargeMessage limit requested
  | .retryable error | .fatal error => error

/-- The action `upsert_model_call`, with the row it finds or creates; it refuses an empty prompt. -/
def upsertModelCall (caller : Caller) (key : CallKey) (prompt : String) :
    Classification (Option ModelCall) :=
  if prompt = "" then pure none
  else do
    perform (.upsertModelCall caller key prompt)
    let records ← store
    pure (records.modelCalls.find key)

/-- An update of a row, if there is one. -/
def updateModelCall (caller : Caller) (id : Option ℕ) (update : CallUpdate) :
    Classification PUnit :=
  match id with
  | some id => perform (.updateModelCall caller id update)
  | none => pure ⟨⟩

/-- `call_litellm_with_tier_retry`. The last update is that of the tier, a column left out here. -/
def complete (provider : Provider) (caller : Caller) (id : Option ℕ) (messages : List String) :
    Classification Outcome := do
  let records ← store
  perform (.complete messages)
  let exchange := provider records.exchanges messages
  each (fun interim => updateModelCall caller id interim.update) exchange.interim
  match exchange.outcome with
  | .content text => do
    updateModelCall caller id {}
    pure (.content text)
  | outcome => pure outcome

/-- How `_call_model` ends: it returns, or raises one error or another. -/
inductive CallResult
  | returned
  | tooLarge (limit requested : ℕ)
  | failed (error : String)

section
variable (provider : Provider) (params : ClassifyParams) (adaptive : Option ℤ) (maxRetries : ℕ)

/-- `_handle_retry_exhausted`, and the error raised after it. -/
def handleRetryExhausted (call : ModelCall) (lastError : Option String) :
    Classification CallResult := do
  let count := toString maxRetries
  updateModelCall .chunk (some call.id) {
    status := some .failedRetries,
    errorMessage := some (some (lastError.getD
      ("Maximum retries (" ++ count ++ ") exceeded without a specific InternalServerError."))) }
  pure (.failed (lastError.getD
    ("Maximum retries (" ++ count ++ ") exceeded for ModelCall " ++ toString call.id ++ ".")))

/-- The attempts of `_call_model` that are left after some. -/
def callModel (call : ModelCall) (attempt : ℕ) (lastError : Option String) :
    ℕ → Classification CallResult
  | 0 => handleRetryExhausted maxRetries call lastError
  | left + 1 =>
    if (params.llmMaxInputTokensPerCall.isSome || adaptive.isSome) &&
        !validateTokenLimit params adaptive call.prompt then do
      let limit := (effectiveLimit params.llmMaxInputTokensPerCall adaptive).getD 0
      updateModelCall .chunk (some call.id) {
        status := some .failed,
        errorMessage := some (some ("Prompt for ModelCall " ++ toString call.id ++
          " exceeds configured token limit of " ++ toString limit ++
          ". Consider reducing num_segments_to_input_to_prompt.")) }
      pure .returned
    else do
      let retryAttempts := some (call.retryAttempts + attempt + 1)
      updateModelCall .chunk (some call.id) { status := some .pending, retryAttempts }
      let outcome ← complete provider .chunk (some call.id) [params.systemPrompt,call.prompt]
      match outcome with
      | .content text => do
        updateModelCall .chunk (some call.id) {
          status := some .success, response := some (some text), errorMessage := some none,
          retryAttempts }
        pure .returned
      | .tooLarge limit requested => do
        updateModelCall .chunk (some call.id) {
          status := some .failedPermanent,
          errorMessage := some (some (tooLargeMessage limit requested)) }
        pure (.tooLarge limit requested)
      | .fatal error => do
        updateModelCall .chunk (some call.id) {
          status := some .failedPermanent, errorMessage := some (some error) }
        pure (.failed error)
      | .retryable error => do
        -- the last attempt breaks off without a back-off
        if left ≠ 0 then
          updateModelCall .chunk (some call.id) {
            status := some .retrying,
            errorMessage := some (some ("Retrying (" ++ toString (attempt + 1) ++ "/" ++
              toString maxRetries ++ "): " ++ error)) }
        callModel call (attempt + 1) (some error) left

end

/-- `_handle_test_mode_call`: a reply without ads. -/
def handleTestModeCall (call : ModelCall) : Classification PUnit :=
  updateModelCall .chunk (some call.id) {
    status := some .success, response := some (some "\x7b\"ad_segments\":[]\x7d"),
    errorMessage := some none, retryAttempts := some 1 }

/-- A boundary refiner: the prompt for a block, and the updates and the window that a reply or the
lack of one leads to. -/
structure Refiner where
  prompt : Block → List TranscriptSegment → String
  conclude : Block → List TranscriptSegment → String → List CallUpdate × (ℚ × ℚ)
  fallback : Block → List TranscriptSegment → ℚ × ℚ

/-- `refine` of the refiners: their row is that of the range of the block. -/
def refine (provider : Provider) (llmModel : String) (refiner : Refiner)
    (segments : List TranscriptSegment) (block : Block) : Classification (ℚ × ℚ) := do
  let prompt := refiner.prompt block segments
  let call ← upsertModelCall .refine ⟨block.firstSequenceNum,block.lastSequenceNum,llmModel⟩ prompt
  let id := call.map ModelCall.id
  updateModelCall .refine id {}
  let outcome ← complete provider .refine id [prompt]
  match outcome with
  | .content text => do
    let (updates,window) := refiner.conclude block segments text
    each (updateModelCall .refine id) updates
    pure window
  | outcome => do
    updateModelCall .refine id {
      status := some .failedPermanent, response := some none,
      errorMessage := some (some outcome.error), retryAttempts := some 1 }
    pure (refiner.fallback block segments)

/-- What the pass over repeated ads is given: the signature of a text, the ranges that repeat one,
the prompt to confirm a range, and what a reply to it says, with the hint for its confidence. -/
structure RepeatAds where
  signature : String → String
  findRepeatCandidates : ℤ → ℤ → List (ℤ × ℤ) → List (ℤ × ℤ)
  prompt : String → List TranscriptSegment → String
  parse : ℚ → String → Option (Bool × ℚ)

/-- `REPEAT_AD_CONFIRM_FIRST_SEQ_SENTINEL`. -/
def repeatAdConfirmFirstSeqSentinel : ℤ := -500

/-- `RepeatAdConfirmation`, without its reason. -/
structure RepeatAdConfirmation where
  isAd : Bool
  confidence : ℚ
  modelCallId : Option ℕ

/-- `RepeatAdRefiner.confirm`. -/
def confirm (provider : Provider) (llmModel : String) (repeatAds : RepeatAds)
    (referenceText : String) (candidate : List TranscriptSegment) (candidateFirstSeq : ℤ)
    (confidenceHint : ℚ) : Classification RepeatAdConfirmation := do
  let prompt := repeatAds.prompt referenceText candidate
  let call ← upsertModelCall .confirm
    ⟨repeatAdConfirmFirstSeqSentinel,candidateFirstSeq,llmModel⟩ prompt
  let id := call.map ModelCall.id
  updateModelCall .confirm id {}
  let outcome ← complete provider .confirm id [prompt]
  match outcome with
  | .content text => do
    updateModelCall .confirm id {
      status := some .receivedResponse, response := some (some text), errorMessage := some none,
      retryAttempts := some 1 }
    match repeatAds.parse confidenceHint text with
    | some (isAd,confidence) => do
      updateModelCall .confirm id {
        status := some .success, response := some (some text), errorMessage := some none,
        retryAttempts := some 1 }
      pure ⟨isAd,confidence,id⟩
    | none => do
      updateModelCall .confirm id {
        status := some .successHeuristic, response := some (some text),
        errorMessage := some (some "parse_failed"), retryAttempts := some 1 }
      pure ⟨false,0,id⟩
  | outcome => do
    updateModelCall .confirm id {
      status := some .failedPermanent, response := some none,
      errorMessage := some (some outcome.error), retryAttempts := some 1 }
    pure ⟨false,0,id⟩

end Podly.Classifier
