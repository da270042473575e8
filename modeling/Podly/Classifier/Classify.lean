import Podly.Classifier.Calls

/-! `AdClassifier.classify` on the records of a post: the chunks, the neighbours of what they
identify, the repeated ads and the boundaries. -/
namespace Podly.Classifier
open Store Processes Process

/-- `DEFAULT_WRITER_BATCH_SIZE`. -/
def defaultWriterBatchSize : ℕ := 500

theorem defaultWriterBatchSize_pos : 0 < defaultWriterBatchSize := by decide

/-- What a classifier is set up with, and the post it classifies. The parsers and the detector of
cues are given by what they find in a text, the database by its order of rows. -/
structure Setup where
  params : ClassifyParams
  transcript : PostTranscript
  rowOrder : RowOrder
  llmModel : String
  adaptive : Option ℤ
  minConfidence : ℚ
  maxRetries : ℕ
  testMode : Bool
  batchSize : ℕ
  batchSize_pos : 0 < batchSize
  cleanAndParseModelOutput : String → Option AdSegmentPredictionList
  tooLargeFromMessage : String → Option (ℕ × ℕ)
  analyze : String → Signals
  refiner : Option Refiner
  repeatAds : Option RepeatAds
  provider : Provider

/-- The errors that a classification ends with. -/
inductive RunError
  | classify (error : ClassifyError)
  | failed (error : String)

/-- `itertools.batched`. -/
def batched {α : Type} (size : ℕ) (xs : List α) : List (List α) :=
  (List.range ((xs.length + size - 1) / size)).map (fun i => (xs.drop (i * size)).take size)

namespace Setup
variable (setup : Setup)

def segments : List TranscriptSegment := setup.transcript.segments.rows

/-- `_insert_identifications_batched`. -/
def insertIdentificationsBatched (rows : List NewIdentification) : Classification PUnit :=
  each (fun batch => perform (.insertIdentifications batch)) (batched setup.batchSize rows)

/-- `_should_call_llm`. -/
def shouldCallLlm (call : ModelCall) : Bool :=
  call.status ≠ .success ∧ call.status ≠ .failedPermanent

/-- The part of `_process_chunk` that ends in a reply or in an error. -/
def performLlmCall (adaptive : Option ℤ) (call : ModelCall) : Classification CallResult :=
  if shouldCallLlm call then
    if setup.testMode then do
      handleTestModeCall call
      pure .returned
    else callModel setup.provider setup.params adaptive setup.maxRetries call 0 none setup.maxRetries
  else
    match call.errorMessage.bind setup.tooLargeFromMessage with
    | some (limit,requested) => pure (.tooLarge limit requested)
    | none => pure .returned

/-- `_process_successful_response`. -/
def processSuccessfulResponse (chunk : List TranscriptSegment) (call : ModelCall)
    (response : String) : Classification Answer := do
  let records ← store
  match setup.cleanAndParseModelOutput response with
  | none => pure .failed
  | some predictions => do
    let m := createIdentifications records.identifications call.id setup.minConfidence chunk
      predictions
    setup.insertIdentificationsBatched m.toInsert
    pure (.accepted m.matched)

/-- The end of `_process_chunk`, after the call. -/
def processOutcome (chunk : List TranscriptSegment) (call : ModelCall) : Classification Answer := do
  let records ← store
  match records.modelCalls.table.get call.id with
  | none => pure .failed
  | some call =>
    match call.response with
    | none => pure .failed
    | some response =>
      if call.status = .success ∧ response ≠ "" then
        setup.processSuccessfulResponse chunk call response
      else pure .failed

/-- `_process_chunk`. -/
def processChunk (adaptive : Option ℤ) (first last : TranscriptSegment)
    (chunk : List TranscriptSegment) (userPrompt : String) :
    Classification (Except RunError Answer) := do
  let call ← upsertModelCall .chunk ⟨first.sequenceNum,last.sequenceNum,setup.llmModel⟩ userPrompt
  match call with
  | none => pure (.error (.failed "prompt is required"))
  | some call => do
    let result ← setup.performLlmCall adaptive call
    match result with
    | .tooLarge limit requested => pure (.ok (.tooLarge limit requested))
    | .failed error => pure (.error (.failed error))
    | .returned => do
      let answer ← setup.processOutcome chunk call
      pure (.ok answer)

/-- The rounds of `_step` on a capped overlap: a rejected chunk is built again from fewer new
segments, so their number bounds the rounds. -/
def stepChunk (overlap : List TranscriptSegment) (index : ℕ) :
    ℕ → ℕ × ClassifierState →
      Classification (Except RunError (ℕ × List TranscriptSegment) × ClassifierState)
  | 0, (_,state) => pure (.error (.classify .noProgress),state)
  | rounds + 1, (maxNewSegments,state) =>
    let payload := buildChunkPayload setup.params state.adaptive overlap
      (setup.segments.drop index) setup.segments maxNewSegments
    match payload.chunkSegments.head?, payload.chunkSegments.getLast? with
    | some first, some last =>
      if payload.consumedSegments = 0 then pure (.error (.classify .noProgress),state)
      else do
        let result ← setup.processChunk state.adaptive first last payload.chunkSegments
          payload.userPrompt
        match result with
        | .error error => pure (.error error,state)
        | .ok answer =>
          match attempt setup.params (fun _ => answer) setup.segments overlap index
              (maxNewSegments,state) with
          | .inl next => stepChunk overlap index rounds next
          | .inr (.error error,state) => pure (.error (.classify error),state)
          | .inr (.ok next,state) => pure (.ok next,state)
    | _, _ => pure (.error (.classify .noProgress),state)

/-- The loop over the chunks, by the iterations that are left. -/
def classifyChunks : ℕ → ℕ → List TranscriptSegment → ClassifierState →
    Classification (Except RunError PUnit)
  | 0, _, _, _ => pure (.ok ⟨⟩)
  | n + 1, index, overlap, state =>
    if index < setup.segments.length then do
      let (result,state) ← setup.stepChunk
        (applyOverlapCap setup.params.maxOverlapSegments overlap) index
        setup.params.numSegmentsPerPrompt (setup.params.numSegmentsPerPrompt,state)
      match result with
      | .error error => pure (.error error)
      | .ok (consumed,next) =>
        if consumed = 0 then pure (.ok ⟨⟩)
        else classifyChunks n (index + consumed) next state
    else pure (.ok ⟨⟩)

/-- The call of the first identification, and the neighbours that are given to it. -/
def expandNeighbors : Classification PUnit := do
  let records ← store
  let ads := adIdentifications setup.rowOrder setup.transcript records.identifications
  match ads with
  | [] => pure ⟨⟩
  | ad::_ =>
    match records.modelCalls.table.get ad.identification.modelCallId with
    | none => pure ⟨⟩
    | some call => setup.insertIdentificationsBatched (expandNeighborsBulk setup.transcript
        setup.analyze setup.refiner.isSome call.id 5 ads)

/-- A detected ad, as `_detect_repeat_ads` describes it. -/
structure AdMeta where
  firstSeq : ℤ
  lastSeq : ℤ
  text : String
  confidence : ℚ

def adMeta (block : Block) : AdMeta :=
  ⟨block.firstSequenceNum,block.lastSequenceNum,
    " ".intercalate ((Intervals.sortByKey TranscriptSegment.sequenceNum block.segments).map
      TranscriptSegment.text),block.confidence⟩

/-- The segments from one sequence number to another. -/
def windowSegments (first last : ℤ) : List TranscriptSegment :=
  ((List.range (last + 1 - first).toNat).map (fun n : ℕ => first + n)).filterMap
    setup.transcript.bySequenceNum

/-- `_confirm_and_record_repeat`. -/
def confirmAndRecordRepeat (repeatAds : RepeatAds) (ad : AdMeta) (candidate : ℤ × ℤ) :
    Classification (List NewIdentification) :=
  let window := setup.windowSegments candidate.1 candidate.2
  if window = [] then pure []
  else do
    let confirmation ← confirm setup.provider setup.llmModel repeatAds ad.text window candidate.1
      ad.confidence
    match confirmation.modelCallId with
    | none => pure []
    | some id =>
      if !confirmation.isAd ∨ confirmation.confidence < setup.minConfidence then pure []
      else pure (window.map (fun s => ⟨s.id,id,confirmation.confidence⟩))

/-- What `_detect_repeat_ads` has found so far. -/
structure Repeats where
  seenSignatures : List String
  foundSeqs : List ℤ
  newIdentifications : List NewIdentification

/-- The candidates for one ad. -/
def confirmCandidates (repeatAds : RepeatAds) (ad : AdMeta) :
    List (ℤ × ℤ) → Repeats → Classification Repeats
  | [], found => pure found
  | candidate::candidates, found =>
    let seqs := (List.range (candidate.2 + 1 - candidate.1).toNat).map
      (fun n : ℕ => candidate.1 + n)
    if seqs.any (· ∈ found.foundSeqs) then confirmCandidates repeatAds ad candidates found
    else do
      let rows ← setup.confirmAndRecordRepeat repeatAds ad candidate
      if rows = [] then confirmCandidates repeatAds ad candidates found
      else confirmCandidates repeatAds ad candidates { found with
        foundSeqs := found.foundSeqs ++ seqs,
        newIdentifications := found.newIdentifications ++ rows }

/-- The detected ads, each text once. -/
def detectRepeats (repeatAds : RepeatAds) (detected : List (ℤ × ℤ)) :
    List AdMeta → Repeats → Classification Repeats
  | [], found => pure found
  | ad::ads, found =>
    let signature := repeatAds.signature ad.text
    if ad.confidence < setup.minConfidence ∨ signature = "" ∨ signature ∈ found.seenSignatures then
      detectRepeats repeatAds detected ads found
    else do
      let candidates := repeatAds.findRepeatCandidates ad.firstSeq ad.lastSeq detected
      let found ← setup.confirmCandidates repeatAds ad candidates
        { found with seenSignatures := signature::found.seenSignatures }
      detectRepeats repeatAds detected ads found

/-- `_detect_repeat_ads`. -/
def detectRepeatAds : Classification PUnit :=
  match setup.repeatAds with
  | none => pure ⟨⟩
  | some repeatAds => do
    let records ← store
    let ads := (groupIntoBlocks (adIdentifications setup.rowOrder setup.transcript records.identifications)).map
      adMeta
    let found ← setup.detectRepeats repeatAds (ads.map (fun ad => (ad.firstSeq,ad.lastSeq))) ads
      ⟨[],[],[]⟩
    setup.insertIdentificationsBatched found.newIdentifications

/-- `_apply_refinement`: the identifications of the block are deleted by one action, and those of
the window are inserted by others. -/
def applyRefinement (block : Block) (window : ℚ × ℚ) (modelCallId : ℕ) : Classification PUnit := do
  perform (.replaceIdentifications (block.rows.map (fun row => row.identification.id)) [])
  setup.insertIdentificationsBatched
    (refinedIdentifications setup.transcript block window modelCallId)

/-- The blocks of `_refine_boundaries`, with the boundaries to store. -/
def refineBlocks (refiner : Refiner) :
    List Block → List AdBoundary → Classification (List AdBoundary)
  | [], boundaries => pure boundaries
  | block::blocks, boundaries =>
    if block.confidence < 6/10 ∨ block.stop - block.start < 15 then
      refineBlocks refiner blocks boundaries
    else do
      let window ← refine setup.provider setup.llmModel refiner setup.segments block
      let records ← store
      match records.modelCalls.table.get block.first.identification.modelCallId with
      | none => refineBlocks refiner blocks boundaries
      | some call => do
        setup.applyRefinement block window call.id
        refineBlocks refiner blocks (boundaries ++
          [⟨block.start,block.stop,window.1,window.2,block.confidence⟩])

/-- `_refine_boundaries`. -/
def refineBoundaries : Classification PUnit :=
  match setup.refiner with
  | none => pure ⟨⟩
  | some refiner => do
    let records ← store
    let boundaries ← setup.refineBlocks refiner
      (groupIntoBlocks (adIdentifications setup.rowOrder setup.transcript records.identifications)) []
    perform (.updatePost (if boundaries = [] then none else some boundaries))

/-- `AdClassifier.classify`. A chunk without progress ends it quietly, every other error is
raised. -/
def classify : Classification (Except RunError PUnit) :=
  if setup.segments = [] then pure (.ok ⟨⟩)
  else do
    let result ← setup.classifyChunks (setup.segments.length + 10) 0 [] ⟨setup.adaptive,[]⟩
    match result with
    | .error (.classify .noProgress) => pure (.ok ⟨⟩)
    | .error error => pure (.error error)
    | .ok _ => do
      setup.expandNeighbors
      setup.detectRepeatAds
      setup.refineBoundaries
      pure (.ok ⟨⟩)

end Setup
end Podly.Classifier
