import Podly.Writer.Executor

/-! The clients of the writer that decide on what they have read: `JobsManager.cancel_job` and
`JobManager.start_processing`, next to the worker and its queue. A read and the write that follows
from it are two steps, and any steps of other clients may come between them. -/
namespace Podly.JobsManager
open Store Writer

/-- The statuses a worker reports for its job. -/
inductive WorkerStatus
  | running
  | completed
  | failed
  | skipped
deriving DecidableEq, Repr

def WorkerStatus.toJobStatus : WorkerStatus → JobStatus
  | running => .running
  | completed => .completed
  | failed => .failed
  | skipped => .skipped

/-- What a `JobManager` is made with, and the priority of the request. -/
structure StartRequest where
  postGuid : String
  priority : String
  runId : Option String
  requestedByUserId : Option ℤ
  billingUserId : Option ℤ
deriving DecidableEq

/-- Where a `start_processing` stands, with what it remembers: `ensure_job` has found an active
job whose attribution it will change, or drawn the id of a job it will create, or done that write
and not read its row again; or the row is read and its status decides. -/
inductive StartPhase
  | attributing (job : ProcessingJob)
  | creating (jobId : String)
  | written (jobId : String)
  | ready (job : ProcessingJob)
deriving DecidableEq

structure Start where
  request : StartRequest
  phase : StartPhase
deriving DecidableEq

/-- The database, the jobs whose cancellation has passed its check, and the starts under way. -/
structure Service where
  db : Database
  cancelling : List String
  starting : List Start

inductive Label
  | dequeue (runId : Option String) (now : Time)
  | workerUpdate (jobId : String) (status : WorkerStatus) (step : Option ℤ) (stepName : String)
      (progress : Option ℚ) (totalSteps : Option ℤ) (now : Time)
  | cancelRead (jobId : String)
  | cancelWrite (i : ℕ) (now : Time)
  | startRead (request : StartRequest) (newJobId : String)
  | startEnsure (i : ℕ) (now : Time)
  | startReload (i : ℕ)
  | startWrite (i : ℕ) (now : Time)

/-- The attribution `ensure_job` asks to change: the run and the two users, where they differ. -/
def attributionParams (request : StartRequest) (job : ProcessingJob) :
    Option String × Option ℤ × Option ℤ :=
  (if truthy request.runId ∧ job.jobsManagerRunId ≠ request.runId then request.runId else none,
    if request.requestedByUserId ≠ some 0 ∧ job.requestedByUserId = none then
      request.requestedByUserId
    else none,
    if job.billingUserId ≠ request.billingUserId then request.billingUserId else none)

/-- `ensure_job` up to its write: an active latest job, else a new one. -/
def ensureJob (request : StartRequest) (newJobId : String) (db : Database) : StartPhase :=
  match latestJob db.jobs.rows request.postGuid with
  | none => .creating newJobId
  | some job =>
    if job.status.IsActive then
      if attributionParams request job = (none,none,none) then .ready job else .attributing job
    else .creating newJobId

/-- The write of `ensure_job`. -/
def ensureCommand (now : Time) (start : Start) : Option Command :=
  match start.phase with
  | .attributing job =>
    let params := attributionParams start.request job
    some ⟨.updateJobAttribution job.id params.1 params.2.1 params.2.2,now⟩
  | .creating jobId =>
    some ⟨.createJob ⟨jobId,start.request.postGuid,start.request.runId,none,some now,
      start.request.requestedByUserId,start.request.billingUserId,false⟩,now⟩
  | _ => none

/-- The update that queues a job; a job remembered as running gets none. -/
def queueCommand (now : Time) (start : Start) : Option Command :=
  match start.phase with
  | .ready job =>
    if job.status = .running then none
    else some ⟨.updateJobStatus job.id ⟨.pending,some 0,
      some s!"Queued for processing (priority={start.request.priority})",some 0,job.totalSteps,
      none⟩,now⟩
  | _ => none

/-- The command a step sends to the writer, if it sends one. -/
def Service.command (srv : Service) : Label → Option Command
  | .dequeue runId now => some ⟨.dequeueJob runId,now⟩
  | .workerUpdate jobId status step stepName progress totalSteps now =>
    some ⟨.updateJobStatus jobId ⟨status.toJobStatus,step,some stepName,progress,totalSteps,none⟩,
      now⟩
  | .cancelWrite i now => (srv.cancelling[i]?).map (fun jobId =>
      ⟨.markCancelled jobId (some "Cancelled by user request"),now⟩)
  | .startEnsure i now => (srv.starting[i]?).bind (ensureCommand now)
  | .startWrite i now => (srv.starting[i]?).bind (queueCommand now)
  | .cancelRead _ | .startRead _ _ | .startReload _ => none

/-- The requests of `cancel_job` past their check, after a step: a read of a finished or missing
job answers with an error. -/
def Service.nextCancelling (srv : Service) : Label → List String
  | .cancelRead jobId =>
    match srv.db.jobs.get jobId with
    | none => srv.cancelling
    | some job => if job.status.IsFinished then srv.cancelling else srv.cancelling ++ [jobId]
  | .cancelWrite i _ => srv.cancelling.eraseIdx i
  | _ => srv.cancelling

/-- A start after its write: it reads the row again. -/
def Start.afterEnsure (start : Start) : Start :=
  match start.phase with
  | .attributing job => { start with phase := .written job.id }
  | .creating jobId => { start with phase := .written jobId }
  | _ => start

/-- A start after it has read its row again; a row that is gone ends it with an error. -/
def Start.reload (db : Database) (start : Start) : Option Start :=
  match start.phase with
  | .written jobId => (db.jobs.get jobId).map (fun job => { start with phase := .ready job })
  | _ => some start

/-- The starts under way after a step. -/
def Service.nextStarting (srv : Service) : Label → List Start
  | .startRead request newJobId =>
    srv.starting ++ [⟨request,ensureJob request newJobId srv.db⟩]
  | .startEnsure i _ => srv.starting.modify i Start.afterEnsure
  | .startReload i =>
    match srv.starting[i]? with
    | none => srv.starting
    | some start =>
      match start.reload srv.db with
      | none => srv.starting.eraseIdx i
      | some start' => srv.starting.set i start'
  | .startWrite i _ =>
    match srv.starting[i]? with
    | some ⟨_,.ready _⟩ => srv.starting.eraseIdx i
    | _ => srv.starting
  | _ => srv.starting

def Service.step (srv : Service) (label : Label) : Service where
  db := match srv.command label with
    | none => srv.db
    | some cmd => execute srv.db cmd
  cancelling := srv.nextCancelling label
  starting := srv.nextStarting label

end Podly.JobsManager

/-! What a processing worker does for its job, step by step: `PodcastProcessor.process` along each
of its ways, as far as it looks at the row of its job or writes. -/
namespace Podly.JobsManager
open Writer

/-- A write of the worker: an update of its post, identifications, or rows of other kinds. -/
inductive Write
  | post (processedAudioPath : Option (Option String)) (chapterData : Option String)
  | identifications
  | other
deriving DecidableEq

/-- The write sets the processed path or the chapters of the episode, or labels segments of it. -/
def Write.IsOutput : Write → Prop
  | .post processedAudioPath chapterData => processedAudioPath.isSome ∨ chapterData.isSome
  | .identifications => True
  | .other => False

instance (w : Write) : Decidable w.IsOutput := by
  cases w <;> unfold Write.IsOutput <;> infer_instance

/-- A step of the worker: a status update, a cancel check, a look at a column of its job, the
deletion of the other jobs of the episode, or a write. -/
inductive WorkStep
  | report (update : StatusUpdate)
  | check (step : ℤ)
  | useJob
  | cancelOthers
  | write (w : Write)
deriving DecidableEq

/-- `update_job_status(job, "running", ...)`. -/
def running (totalSteps step : ℤ) (stepName : String) (progress : ℚ) : WorkStep :=
  .report ⟨.running,some step,some stepName,some progress,some totalSteps,none⟩

/-- `update_job_status(job, "completed", ...)`. -/
def completed (totalSteps : ℤ) (stepName : String) : WorkStep :=
  .report ⟨.completed,some totalSteps,some stepName,some 100,some totalSteps,none⟩

/-- `_handle_download_step`: how the audio is found or fetched. -/
inductive Download
  | stored
  | onDisk (reset : Bool)
  | fetched (reset : Bool)

def handleDownloadStep : Download → List WorkStep
  | .stored => []
  | .onDisk reset =>
    (if reset then [.write (.post none none)] else []) ++ [.write (.post none none)]
  | .fetched reset =>
    (if reset then [.write (.post none none)] else []) ++
      [running 4 1 "Downloading episode" 25,.write (.post none none)]

/-- A transcription: the progress of its chunks and its writes, in any order. -/
def transcribe (totalSteps step : ℤ) (label : String) (chunks : List (Option ℚ)) :
    List WorkStep :=
  chunks.map (fun chunk => match chunk with
    | some progress => running totalSteps step label progress
    | none => .write .other)

/-- `_finalize_processing`. -/
def finalizeProcessing (totalSteps : ℤ) (processedAudioPath : String)
    (chapterData : Option String) : List WorkStep :=
  [.write (.post (some (some processedAudioPath)) chapterData),
    completed totalSteps "Processing complete"]

/-- The zero-ads guard: what it records, and whether it asks for a retry. -/
def evaluateZeroAdsGuard (parseError retry : Bool) : List WorkStep :=
  [.useJob,.write .other] ++ (if parseError then [.useJob,.write .other] else []) ++
    if retry then [.useJob,.write .other,.write .other] else []

/-- What a strategy goes through. -/
inductive Strategy
  | llm (chunks : List (Option ℚ)) (classified : List Bool) (parseError retry : Bool)
      (chapters : Option (List Unit)) (chapterData : Option String)
  | chapter (chapterData : String)
  | chapterInsert (chunks : Option (List (Option ℚ))) (refined : List Unit)
      (chapterData : Option String)

/-- `_perform_processing_steps`. -/
def performProcessingSteps (processedAudioPath : String) : Strategy → List WorkStep
  | .llm chunks classified parseError retry chapters chapterData =>
    [running 5 2 "Transcribing audio" 50] ++ transcribe 5 2 "Transcribing audio" chunks ++
      [.check 2,running 5 3 "Identifying ads" 75] ++
      classified.map (fun labels => .write (if labels then .identifications else .other)) ++
      [.check 3,running 5 4 "Processing audio" 90,.write (.post none none)] ++
      evaluateZeroAdsGuard parseError retry ++
      (match chapters with
        | some calls => [running 5 5 "Generating chapters" 95] ++ calls.map (fun _ => .write .other)
        | none => []) ++
      finalizeProcessing 5 processedAudioPath chapterData
  | .chapter chapterData =>
    [running 4 2 "Reading chapters" 50,.check 2,running 4 3 "Chapters filtered" 75,.check 3,
      running 4 4 "Processing audio" 90] ++
      finalizeProcessing 4 processedAudioPath (some chapterData)
  | .chapterInsert chunks refined chapterData =>
    [running 4 2 "Resolving chapters" 50,.check 2] ++
      (match chunks with
        | some chunks => [running 4 3 "Transcribing audio for chapter generation" 75] ++
          transcribe 4 3 "Transcribing audio for chapter generation" chunks ++ [.check 3]
        | none => [running 4 3 "Chapters resolved" 75,.check 3]) ++
      refined.map (fun _ => .write .other) ++
      [running 4 4 "Copying audio and writing chapters" 90] ++
      finalizeProcessing 4 processedAudioPath chapterData

/-- The way of a worker through `process`: the processed audio is there already, in the database or
on the disk; the developer mode makes it up; or it is made from the audio of the episode. A stored
path without a file is reset first. -/
inductive Way
  | existing (path : Option String)
  | simulated (reset : Bool) (path : String)
  | made (reset : Bool) (download : Download) (path : String) (strategy : Option Strategy)

/-- The reset of a stored path in `_check_existing_processed_audio`. -/
def resetProcessed (reset : Bool) : List WorkStep :=
  if reset then [.write (.post (some none) none)] else []

/-- `process`, for a job that is a retry or not. -/
def process (autoRetry : Bool) (way : Way) : List WorkStep :=
  [running 4 0 "Starting processing" 0,.useJob] ++ (if autoRetry then [.write .other] else []) ++
    match way with
    | .existing path =>
      (match path with
        | some path => [.write (.post (some (some path)) none)]
        | none => []) ++ [completed 4 "Processing complete"]
    | .simulated reset path =>
      resetProcessed reset ++ [running 4 1 "Simulating processing (developer mode)" 25,
        .write (.post (some (some path)) none),completed 4 "Processing complete (developer mode)"]
    | .made reset download path strategy =>
      resetProcessed reset ++ handleDownloadStep download ++ [.check 1,.cancelOthers] ++
        match strategy with
        | none => [.write (.post (some (some path)) none),completed 4 "Processing complete"]
        | some strategy => performProcessingSteps path strategy

end Podly.JobsManager
