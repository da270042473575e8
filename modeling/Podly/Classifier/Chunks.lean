import Podly.Floats.Double
import Podly.Loops.While
import Podly.Store.Table

/-! The classification of a transcript in chunks: how a chunk is trimmed to the token limit, how it
shrinks when the provider rejects it as too large, and how the loop moves on to the next one. -/
namespace Podly.Classifier
open Store Floats

/-- A row of `transcript_segment`. -/
structure TranscriptSegment where
  id : ℤ
  sequenceNum : ℤ
  startTime : ℚ
  endTime : Option ℚ
  text : String
  speakerLabel : Option String
deriving DecidableEq

/-- The segments of a post in their order. -/
abbrev Transcript := Table TranscriptSegment.id

/-- What a classification reads of its parameters and of the configuration. The prompt is rendered
from the segments of the chunk and from whether it has the first and the last of the transcript. -/
structure ClassifyParams where
  systemPrompt : String
  generateUserPrompt : List TranscriptSegment → Bool → Bool → String
  numSegmentsPerPrompt : ℕ
  numSegmentsPerPrompt_pos : 0 < numSegmentsPerPrompt
  maxOverlapSegments : ℤ
  llmMaxInputTokensPerCall : Option ℤ

/-- `_apply_overlap_cap`. -/
def applyOverlapCap (maxOverlap : ℤ) (overlap : List TranscriptSegment) :
    List TranscriptSegment :=
  if maxOverlap ≤ 0 then []
  else if (overlap.length : ℤ) ≤ maxOverlap then overlap
  else overlap.drop (overlap.length - maxOverlap.toNat)

/-- Append a segment whose id was not seen yet. -/
def addUnseen (combined : List TranscriptSegment) (segment : TranscriptSegment) :
    List TranscriptSegment :=
  if segment.id ∈ combined.map TranscriptSegment.id then combined else combined ++ [segment]

/-- `_combine_overlap_segments`. -/
def combineOverlapSegments (overlap base : List TranscriptSegment) : List TranscriptSegment :=
  base.foldl addUnseen (overlap.foldl addUnseen [])

/-- `min` of the configured limit and the one learned from the provider. -/
def effectiveLimit (configured adaptive : Option ℤ) : Option ℤ :=
  match configured, adaptive with
  | some a, some b => some (min a b)
  | some a, none => some a
  | none, adaptive => adaptive

/-- The token estimate, with or without a rate limiter: four characters make a token. -/
def countTokens (systemPrompt userPrompt : String) : ℕ :=
  (systemPrompt.length + userPrompt.length) / 4

/-- `_validate_token_limit`. -/
def validateTokenLimit (params : ClassifyParams) (adaptive : Option ℤ) (userPrompt : String) :
    Bool :=
  match effectiveLimit params.llmMaxInputTokensPerCall adaptive with
  | none => true
  | some limit => (countTokens params.systemPrompt userPrompt : ℤ) ≤ limit

/-- What `_build_chunk_payload` returns. -/
structure Payload where
  chunkSegments : List TranscriptSegment
  userPrompt : String
  consumedSegments : ℕ
  tokenLimitTrimmed : Bool

/-- The ids at one end of the chunk and of the transcript are one. -/
def sameId (a b : Option TranscriptSegment) : Bool :=
  match a, b with
  | some a, some b => a.id = b.id
  | _, _ => false

/-- The loop of `_build_chunk_payload`, which takes one segment less as long as the prompt is over
the limit. -/
def trimChunk (params : ClassifyParams) (adaptive : Option ℤ)
    (total capped remaining : List TranscriptSegment) (trimmed : Bool) : ℕ → Payload
  | 0 => ⟨[],"",0,trimmed⟩
  | n + 1 =>
    let chunk := combineOverlapSegments capped (remaining.take (n + 1))
    if chunk = [] then ⟨[],"",0,trimmed⟩
    else
      let prompt := params.generateUserPrompt chunk (sameId chunk.head? total.head?)
        (sameId chunk.getLast? total.getLast?)
      if (params.llmMaxInputTokensPerCall.isSome || adaptive.isSome) &&
          !validateTokenLimit params adaptive prompt then
        if n = 0 then ⟨chunk,prompt,1,true⟩
        else trimChunk params adaptive total capped remaining true n
      else ⟨chunk,prompt,n + 1,trimmed⟩

/-- `_build_chunk_payload`. -/
def buildChunkPayload (params : ClassifyParams) (adaptive : Option ℤ)
    (overlap remaining total : List TranscriptSegment) (maxNewSegments : ℕ) : Payload :=
  if remaining = [] then ⟨[],"",0,false⟩
  else
    trimChunk params adaptive total (applyOverlapCap params.maxOverlapSegments overlap) remaining
      false (min maxNewSegments remaining.length)

/-- The rows up to the first one that satisfies a condition, that one included. -/
def takeThrough (p : TranscriptSegment → Bool) : List TranscriptSegment → List TranscriptSegment
  | [] => []
  | s::ss => if p s then [s] else s::takeThrough p ss

/-- `_segments_covering_tail`. -/
def segmentsCoveringTail (chunk : List TranscriptSegment) (seconds : ℚ) :
    List TranscriptSegment :=
  match chunk.getLast? with
  | none => []
  | some last =>
    let cutoff := last.endTime.getD last.startTime - seconds
    (takeThrough (fun s => s.startTime ≤ cutoff) chunk.reverse).reverse

/-- `_compute_next_overlap_segments`. -/
def computeNextOverlapSegments (chunk identified : List TranscriptSegment) (maxOverlap : ℤ) :
    List TranscriptSegment :=
  if maxOverlap ≤ 0 ∨ chunk = [] then []
  else
    let baseTail := chunk.drop (chunk.length - max 1 ((chunk.length + 1) / 2))
    let candidates :=
      if identified = [] then baseTail
      else
        let ids := identified.map TranscriptSegment.id
        let candidates :=
          match chunk.findIdx? (fun s => s.id ∈ ids) with
          | some earliest => combineOverlapSegments (chunk.drop earliest) baseTail
          | none => baseTail
        combineOverlapSegments (segmentsCoveringTail chunk 15) candidates
    applyOverlapCap maxOverlap candidates

/-- How the provider answers the request of a chunk: with a reply that identifies segments, without
a usable one, or by a rejection that names its limit and the tokens requested. -/
inductive Answer
  | accepted (identified : List TranscriptSegment)
  | failed
  | tooLarge (limit requested : ℕ)

/-- The segments `_process_chunk` returns. -/
def Answer.identified : Answer → List TranscriptSegment
  | .accepted identified => identified
  | _ => []

/-- The errors that end a classification. -/
inductive ClassifyError
  | noProgress
  | requestTooLarge (limit requested : ℕ)
  | overflow
  | zeroDivision
deriving DecidableEq

/-- `max(1, int(exc.limit * 0.9))`, in doubles: the limit is made one, and 0.9 is the double next
to it. -/
def learnedLimit (limit : ℕ) : Except ClassifyError ℕ :=
  match (ofRat limit).bind (fun x => ofRat (x * (8106479329266893 / 2 ^ 53))) with
  | none => .error .overflow
  | some x => .ok (max 1 x.floor.toNat)

/-- The quotient of two integers, a double. -/
def trueDivide (a b : ℕ) : Except ClassifyError ℚ :=
  if b = 0 then .error .zeroDivision
  else
    match ofRat (a / b) with
    | none => .error .overflow
    | some x => .ok x

/-- The number of segments to try after a rejection, and the limit learned from it. -/
def shrink (consumed limit requested : ℕ) : Except ClassifyError (ℕ × ℕ) :=
  match learnedLimit limit with
  | .error e => .error e
  | .ok learned =>
    match trueDivide (consumed * learned) requested with
    | .error e => .error e
    | .ok ratio => .ok (max 1 (min (consumed - 1) ratio.floor.toNat),learned)

/-- A request that was sent: its chunk, the new segments of it, the learned limit it was built
under and the answer. -/
structure Request where
  chunkSegments : List TranscriptSegment
  newSegments : List TranscriptSegment
  userPrompt : String
  adaptive : Option ℤ
  answer : Answer

/-- What the classifier keeps from one chunk to the next, with the requests it has sent. -/
structure ClassifierState where
  adaptive : Option ℤ
  requests : List Request

section
variable (params : ClassifyParams) (answers : ℕ → Answer) (total : List TranscriptSegment)

/-- One round of the loop of `_step`: another round with fewer new segments, or the number of
segments consumed and the overlap for the next chunk. -/
def attempt (overlap : List TranscriptSegment) (index : ℕ) :
    ℕ × ClassifierState →
      (ℕ × ClassifierState) ⊕
        (Except ClassifyError (ℕ × List TranscriptSegment) × ClassifierState) :=
  fun (maxNewSegments,state) =>
    let remaining := total.drop index
    let payload := buildChunkPayload params state.adaptive overlap remaining total maxNewSegments
    if payload.chunkSegments = [] ∨ payload.consumedSegments = 0 then
      .inr (.error .noProgress,state)
    else
      let answer := answers state.requests.length
      let state := { state with
        requests := state.requests ++ [⟨payload.chunkSegments,
          remaining.take payload.consumedSegments,payload.userPrompt,state.adaptive,answer⟩] }
      match answer with
      | .tooLarge limit requested =>
        if payload.consumedSegments ≤ 1 then .inr (.error (.requestTooLarge limit requested),state)
        else
          match shrink payload.consumedSegments limit requested with
          | .error e => .inr (.error e,state)
          | .ok (maxNewSegments,learned) =>
            let adaptive := effectiveLimit state.adaptive (some learned)
            .inl (maxNewSegments,{ state with adaptive })
      | answer =>
        .inr (.ok (payload.consumedSegments,computeNextOverlapSegments payload.chunkSegments
          answer.identified params.maxOverlapSegments),state)

/-- `_step`. -/
def step (overlap : List TranscriptSegment) (index : ℕ) (state : ClassifierState) (fuel : ℕ) :
    Option (Except ClassifyError (ℕ × List TranscriptSegment) × ClassifierState) :=
  Loops.run (attempt params answers total
    (applyOverlapCap params.maxOverlapSegments overlap) index) fuel
    (params.numSegmentsPerPrompt,state)

/-- The loop of `classify`, by the iterations that are left. It ends with the requests that were
sent, and with the error that ended it. -/
def classifyLoop (fuel : ℕ) : ℕ → ℕ → List TranscriptSegment → ClassifierState →
    Option (Except ClassifyError Unit × List Request)
  | 0, _, _, state => some (.ok (),state.requests)
  | n + 1, index, overlap, state =>
    if index < total.length then
      match step params answers total overlap index state fuel with
      | none => none
      | some (.error e,state) => some (.error e,state.requests)
      | some (.ok (consumed,next),state) =>
        if consumed = 0 then some (.ok (),state.requests)
        else classifyLoop fuel n (index + consumed) next state
    else some (.ok (),state.requests)

end

/-- `classify`, up to the end of its chunks, at most ten more of them than there are segments. The
answers are numbered by the requests sent, and the learned limit is the one of earlier posts. -/
def classify (params : ClassifyParams) (transcript : Transcript) (answers : ℕ → Answer)
    (adaptive : Option ℤ) (fuel : ℕ) : Option (Except ClassifyError Unit × List Request) :=
  if transcript.rows = [] then some (.ok (),[])
  else
    classifyLoop params answers transcript.rows fuel (transcript.rows.length + 10) 0 []
      ⟨adaptive,[]⟩

end Podly.Classifier
