import Podly.Episodes.Runs
import Podly.Programs.Keeps

/-! The run of a job through the processor, up to the automatic retry that its end can start, with
every call of the writer that can fail on the way. -/
namespace Podly.AutoRetry
open Episodes Programs
open Writer (Time StatusUpdate JobStatus ProcessingJob)

/-- The roots of the two trees of files, where a path leads, and what the disk says of the files:
which are directories and which it refuses to unlink. Files are named by their resolved paths. -/
structure Host where
  inRoot : String
  srvRoot : String
  resolve : String → String
  resolve_resolve : ∀ path, resolve (resolve path) = resolve path
  directory : String → Bool
  refuses : String → Bool

/-- The episode the jobs are for. -/
structure Episode where
  postId : ℕ
  guid : String

/-- What a run had in hand when it created the retry: the transcript, and the downloaded audio. -/
structure Handover where
  jobId : String
  transcript : List TranscriptSegment
  download : Option String
  bytes : Option (List UInt8)

/-- The rows, the files, the guid for which the processor keeps the download, and the retries that
were created. -/
structure State where
  db : Database
  files : String → Option (List UInt8)
  suppress : Option String
  handovers : List Handover

/-- The calls of the writer in a run, as far as they differ in what becomes of them. -/
inductive Call
  | start
  | prepare
  | adopt
  | forget
  | resetDownload
  | storeDownload
  | storeSample
  | cancelExisting
  | storeProcessed
  | report (step : ℤ)
  | recordCount
  | markParseError
  | markAttempted
  | createRetry
  | finalize
  | complete
  | fail (caller : ℕ)
deriving DecidableEq

/-- What becomes of a call: the writer carries it out or not, and the client may raise an error in
either case. Where it raises none, the call returns whether it succeeded. -/
structure Reply where
  reached : Bool
  raises : Bool

/-- The errors of the processor, and any other. -/
inductive Failure
  | processor (message : String)
  | other (message : String)

/-- What transcription, classification and the cut leave behind, whether or not they go through. -/
structure Work where
  segments : Store.Indexed TranscriptSegment.id TranscriptSegment.key
  identifications : Store.Indexed Identification.id Identification.key
  audioSegments : Store.Table AudioSegment.id
  calls : Store.Indexed ModelCall.id ModelCall.key
  outputs : List (OutputColumn × Option String)
  processed : Option (List UInt8)
  stops : Bool
  failure : Failure
  adWindowsCount : ℕ
  hadParseError : Bool

/-- The course of one run: what becomes of its calls and when, whether a preparation that is not
carried out still unlinks files, and what its parts return. -/
structure Course where
  runId : Option String
  reply : Call → Reply
  now : Call → Time
  unlinks : Bool
  sample : Option (List UInt8)
  downloaded : Option (List UInt8)
  work : Work
  strategy : String
  autoRetryEnabled : Bool
  newId : String
  chapters : Bool
  chaptered : Option (List UInt8)
  chaptersStop : Bool
  chaptersFailure : Failure
  results : List (OutputColumn × Option String)

abbrev Proc := Program Failure State

variable (host : Host) (ep : Episode) (course : Course)

/-- The disk as the paths are looked up on it. -/
def Host.disk (files : String → Option (List UInt8)) : Writer.Disk :=
  ⟨host.srvRoot,host.resolve,fun path => (files path).map List.length,
    fun path => (files path).isSome || host.directory path⟩

/-- `get_processed_audio_path_candidates`, for a row. -/
def candidates (s : State) (row : Post) : List String :=
  Writer.getProcessedAudioPathCandidates (host.disk s.files) row.processedAudioPath
    row.unprocessedAudioPath (feedTitle s.db row) row.title

/-- `paths_from_unprocessed_path`. -/
def processedPathOf (unprocessedPath title : String) : String :=
  Writer.joinPath (Writer.joinPath host.srvRoot (Writer.sanitizeFeedTitleModern title))
    (Writer.fileName unprocessedPath)

/-- `get_job_unprocessed_path`. -/
def jobUnprocessedPath (jobId postTitle : String) : String :=
  let sanitizedTitle := String.ofList
    (Writer.strip (Writer.sanitizePostTitleForFilename postTitle).toList)
  Writer.joinPath (Writer.joinPath (Writer.joinPath (Writer.joinPath host.inRoot "jobs") ep.guid)
    jobId) (sanitizedTitle ++ ".mp3")

def writeFile (path : String) (bytes : List UInt8) (s : State) : State :=
  { s with files := Function.update s.files (host.resolve path) (some bytes) }

/-- One call of the writer. -/
def send (call : Call) (cmd : Command) : Proc Bool := do
  let s ← get
  modify (fun s => if (course.reply call).reached then { s with db := execute s.db cmd } else s)
  if (course.reply call).raises then throw (.other "writer outcome unknown")
  else pure ((course.reply call).reached && (perform s.db cmd).isOk)

/-- The check of a result that raises an error when the update failed. -/
def require (success : Bool) : Proc Unit :=
  if success then pure () else throw (.other "Failed to update post")

/-- `except Exception` around calls whose failure is only logged. -/
def attempt (p : Proc Unit) : Proc Unit := tryCatch p (fun _ => pure ())

def rowOf : Proc Post := do
  let s ← get
  match s.db.posts.get ep.postId with
  | none => throw (.other "Post not found")
  | some row => pure row

def jobOf (jobId : String) : Proc ProcessingJob := do
  let s ← get
  match s.db.jobs.get jobId with
  | none => throw (.other "Job not found")
  | some job => pure job

/-- The update that `update_job_status` sends; without a progress it divides by the total. -/
def statusUpdate (job : ProcessingJob) (status : JobStatus) (step : Option ℤ) (stepName : String)
    (progress : Option ℚ) (totalSteps : Option ℤ) : Option StatusUpdate :=
  let totalSteps := totalSteps <|> job.totalSteps
  match progress, step, totalSteps with
  | some progress,_,_ => some ⟨status,step,some stepName,some progress,totalSteps,none⟩
  | none,some current,some total =>
    if total = 0 then none
    else some ⟨status,step,some stepName,some ((current : ℚ) / total * 100),some total,none⟩
  | none,_,_ => none

/-- `ProcessingStatusManager.update_job_status`; the result of the call is not looked at. -/
def updateJobStatus (call : Call) (jobId : String) (status : JobStatus) (step : Option ℤ)
    (stepName : String) (progress : Option ℚ) (totalSteps : Option ℤ) : Proc Unit := do
  let job ← jobOf jobId
  match statusUpdate job status step stepName progress totalSteps with
  | none => throw (.other "unsupported operand")
  | some update => do
    let _ ← send course call (.job ⟨.updateJobStatus jobId update,course.now call⟩)
    pure ()

/-- The report that a job is complete. -/
def complete (jobId : String) : Proc Unit := do
  let job ← jobOf jobId
  let step := match job.totalSteps with
    | some total => if total = 0 then 4 else total
    | none => 4
  updateJobStatus course .complete jobId .completed (some step) "Processing complete" (some 100)
    none

/-- A generic update of the post, which must succeed. -/
def updatePostRow (call : Call) (columns : List PostColumn) : Proc Unit := do
  let success ← send course call (.updatePost ep.postId columns)
  require success

/-- `prepare_post_for_auto_retry`, as the processor calls it: it continues whatever happens. The
action unlinks each candidate that is a file and that the disk lets go of. -/
def prepareForAutoRetry : Proc Unit :=
  attempt do
    let row ← rowOf ep
    modify (fun s =>
      if (course.reply .prepare).reached || course.unlinks then
        { s with files := fun e =>
          if e ∈ candidates host s row ∧ host.refuses e = false then none else s.files e }
      else s)
    let _ ← send course .prepare (.preparePostForAutoRetry ep.postId)
    pure ()

/-- The start of `process`, up to the check for existing audio. -/
def openRun (jobId : String) : Proc Unit := do
  updateJobStatus course .start jobId .running (some 0) "Starting processing" none none
  let row ← rowOf ep
  if row.whitelisted then do
    let job ← jobOf jobId
    if job.autoRetryAttempted then prepareForAutoRetry host ep course else pure ()
  else throw (.processor s!"Post with GUID {ep.guid} not whitelisted")

/-- `_check_existing_processed_audio`. -/
def checkExistingProcessedAudio : Proc Bool := do
  let row ← rowOf ep
  let s ← get
  match Writer.findExistingProcessedAudioPath (host.disk s.files) row.processedAudioPath
      row.unprocessedAudioPath (feedTitle s.db row) row.title with
  | some path => do
    (if row.processedAudioPath = some path then pure ()
      else updatePostRow ep course .adopt [.processedAudioPath (some path)])
    pure true
  | none => do
    (if row.processedAudioPath = none then pure ()
      else updatePostRow ep course .forget [.processedAudioPath none])
    pure false

/-- `_simulate_developer_processing`, where it applies. -/
def simulateDeveloperProcessing (jobId title : String) (sample : List UInt8) : Proc Unit := do
  updateJobStatus course (.report 1) jobId .running (some 1)
    "Simulating processing (developer mode)" (some 25) none
  let row ← rowOf ep
  let unprocessed := jobUnprocessedPath host ep jobId row.title
  let processed := Writer.joinPath
    (Writer.joinPath host.srvRoot (Writer.sanitizePostTitleForFilename title))
    (Writer.sanitizePostTitleForFilename row.title ++ ".mp3")
  modify (writeFile host unprocessed sample)
  modify (writeFile host processed sample)
  updatePostRow ep course .storeSample
    [.unprocessedAudioPath (some unprocessed),.processedAudioPath (some processed)]
  complete course jobId

/-- A file with something in it. -/
def hasAudio (s : State) (path : String) : Bool :=
  (s.files (host.resolve path)).any (fun bytes => bytes ≠ [])

/-- `_handle_download_step`. -/
def handleDownloadStep (jobId : String) : Proc Unit := do
  let row ← rowOf ep
  let s ← get
  if row.unprocessedAudioPath.any (hasAudio host s) then pure ()
  else do
    (if row.unprocessedAudioPath = none then pure ()
      else updatePostRow ep course .resetDownload [.unprocessedAudioPath none])
    let expected := jobUnprocessedPath host ep jobId row.title
    if hasAudio host s expected then
      updatePostRow ep course .storeDownload [.unprocessedAudioPath (some (host.resolve expected))]
    else do
      updateJobStatus course (.report 1) jobId .running (some 1) "Downloading episode" (some 25) none
      match course.downloaded with
      | none => throw (.processor "Download failed")
      | some bytes => do
        modify (writeFile host expected bytes)
        updatePostRow ep course .storeDownload [.unprocessedAudioPath (some expected)]

/-- `_acquire_processing_lock`, whose lock is free, and the path of the output. -/
def acquireProcessingLock (jobId title : String) : Proc String := do
  let row ← rowOf ep
  match row.unprocessedAudioPath with
  | none => throw (.processor "Processed audio path not found")
  | some path =>
    if path = "" ∨ title = "" then throw (.processor "Processed audio path not found")
    else do
      let _ ← send course .cancelExisting
        (.cancelExistingJobs ep.guid (some jobId) (course.now .cancelExisting))
      pure (processedPathOf host path title)

/-- `_remove_unprocessed_audio`. -/
def removeUnprocessedAudio : Proc Unit := do
  let row ← rowOf ep
  modify (fun s =>
    if s.suppress = some row.guid then { s with suppress := none }
    else match row.unprocessedAudioPath with
      | none => s
      | some path =>
        if path = "" ∨ host.refuses (host.resolve path) then s
        else { s with files := Function.update s.files (host.resolve path) none })

/-- Transcription, classification and the cut, between the reports of their steps. -/
def performWork (jobId processedPath : String) : Proc Unit := do
  updateJobStatus course (.report 2) jobId .running (some 2) "Transcribing audio" (some 50) (some 5)
  updateJobStatus course (.report 3) jobId .running (some 3) "Identifying ads" (some 75) none
  updateJobStatus course (.report 4) jobId .running (some 4) "Processing audio" (some 90) none
  modify (fun s => { s with
    db := { s.db with
      segments := course.work.segments,
      identifications := course.work.identifications,
      audioSegments := course.work.audioSegments,
      calls := course.work.calls,
      posts := s.db.posts.modify ep.postId
        (applyPostColumns (course.work.outputs.map (fun c => .output c.1 c.2)))
        (applyPostColumns_id _) (applyPostColumns_key _) } })
  (match course.work.processed with
    | none => pure ()
    | some bytes => modify (writeFile host processedPath bytes))
  if course.work.stops then throw course.work.failure else pure ()

/-- What a retry is to find: our note, of which the processor knows nothing. -/
def handoverOf (row : Post) (s : State) : Handover :=
  ⟨course.newId,s.db.segments.table.rows.filter (fun segment => segment.postId = ep.postId),
    row.unprocessedAudioPath,row.unprocessedAudioPath.bind (fun path => s.files (host.resolve path))⟩

/-- What the guard asks the writer for: a new job under the guard flag. -/
def createRetryJob (jobId : String) : Proc Unit := do
  let row ← rowOf ep
  let job ← jobOf jobId
  let cmd : Command := .job ⟨.createJob ⟨course.newId,row.guid,job.jobsManagerRunId,
    some "Queued (auto-retry)",none,none,none,true⟩,course.now .createRetry⟩
  modify (fun s =>
    if (course.reply .createRetry).reached && (perform s.db cmd).isOk then
      { s with handovers := s.handovers ++ [handoverOf host ep course row s] }
    else s)
  let _ ← send course .createRetry cmd
  pure ()

/-- The end of the guard: keep the download, mark the job, and create the retry. -/
def requeueOnce (jobId : String) : Proc Unit := do
  let row ← rowOf ep
  modify (fun s => { s with suppress := some row.guid })
  attempt do
    let _ ← send course .markAttempted
      (.job ⟨.markAutoRetryAttempted jobId,course.now .markAttempted⟩)
    createRetryJob host ep course jobId

/-- The notes that the guard makes on the job. -/
def recordOutcome (jobId : String) : Proc Unit := do
  attempt do
    let _ ← send course .recordCount (.job ⟨.recordAdWindowsCount jobId
      (some course.work.adWindowsCount),course.now .recordCount⟩)
    pure ()
  if course.work.hadParseError then
    attempt do
      let _ ← send course .markParseError
        (.job ⟨.markClassificationParseError jobId,course.now .markParseError⟩)
      pure ()
  else pure ()

/-- `_evaluate_zero_ads_guard`. -/
def evaluateZeroAdsGuard (jobId : String) : Proc Unit := do
  recordOutcome course jobId
  if course.work.adWindowsCount > 0 then pure ()
  else if course.strategy ≠ "llm" then pure ()
  else if !course.work.hadParseError then pure ()
  else do
    let job ← jobOf jobId
    if job.autoRetryAttempted then pure ()
    else if !course.autoRetryEnabled then pure ()
    else requeueOnce host ep course jobId

/-- The chapters, which are written into the processed file. -/
def generateChapters (jobId processedPath : String) : Proc Unit := do
  (if course.chapters then
      updateJobStatus course (.report 5) jobId .running (some 5) "Generating chapters" (some 95) none
    else pure ())
  (match course.chaptered with
    | none => pure ()
    | some bytes => modify (writeFile host processedPath bytes))
  if course.chaptersStop then throw course.chaptersFailure else pure ()

/-- `_finalize_processing`. -/
def finalizeProcessing (jobId processedPath : String) : Proc Unit := do
  let row ← rowOf ep
  let s ← get
  let kept := if s.suppress = some row.guid ∧ row.unprocessedAudioPath ≠ some ""
    then row.unprocessedAudioPath else none
  removeUnprocessedAudio host ep
  updatePostRow ep course .finalize ([.processedAudioPath (some processedPath)] ++
    course.results.map (fun c => .output c.1 c.2) ++ [.unprocessedAudioPath kept])
  complete course jobId

/-- The output is there already. -/
def adoptProcessed (jobId processedPath : String) : Proc Unit := do
  removeUnprocessedAudio host ep
  updatePostRow ep course .storeProcessed
    [.processedAudioPath (some processedPath),.unprocessedAudioPath none]
  complete course jobId

/-- The run under the lock, by the strategy that asks a model for the ads. -/
def processLocked (jobId processedPath : String) : Proc Unit := do
  let s ← get
  if (host.disk s.files).pathExists (host.resolve processedPath) then
    adoptProcessed host ep course jobId processedPath
  else do
    performWork host ep course jobId processedPath
    evaluateZeroAdsGuard host ep course jobId
    generateChapters host course jobId processedPath
    finalizeProcessing host ep course jobId processedPath

/-- `process` from the check for existing audio on. -/
def finishRun (jobId title : String) : Proc Unit := do
  let existing ← checkExistingProcessedAudio host ep course
  if existing then complete course jobId
  else match course.sample with
    | some sample => simulateDeveloperProcessing host ep course jobId title sample
    | none => do
      handleDownloadStep host ep course jobId
      let processedPath ← acquireProcessingLock host ep course jobId title
      processLocked host ep course jobId processedPath

/-- What `process` writes on the job that failed. -/
def Failure.report (failure : Failure) : String :=
  match failure with
  | .processor message =>
    if (message.splitOn "Processing job in progress").length > 1 then
      "Another processing job is already running for this episode"
    else message
  | .other message => s!"Unexpected error: {message}"

/-- `PodcastProcessor.process`. -/
def process (jobId : String) : Proc Unit := do
  let job ← jobOf jobId
  let row ← rowOf ep
  let s ← get
  match feedTitle s.db row with
  | none => throw (.other "Feed not found")
  | some title =>
    tryCatch (do
        openRun host ep course jobId
        finishRun host ep course jobId title)
      (fun failure => do
        updateJobStatus course (.fail 0) jobId .failed job.currentStep failure.report none none
        throw failure)

/-- The worker, and after it the supervisor, marks a job as failed unless it is finished. -/
def failUnfinished (caller : ℕ) (jobId message : String) : Proc Unit :=
  attempt do
    let job ← jobOf jobId
    if job.status.IsFinished then pure ()
    else
      updateJobStatus course (.fail caller) jobId .failed (some (job.currentStep.getD 0)) message
        (some (job.progressPercentage.getD 0)) none

/-- A worker and its supervisor around `process`. -/
def runProcessingJob (jobId : String) : Proc Unit :=
  tryCatch (process host ep course jobId) (fun _ => do
    failUnfinished course 1 jobId "Job execution failed"
    failUnfinished course 2 jobId "Processing worker exited with status 1")

/-- The state in which a worker starts: its job is dequeued, and its processor is new. -/
def dequeued (jobId : String) (s : State) : State :=
  { s with
    suppress := none,
    db := { s.db with
      jobs := s.db.jobs.modify jobId (Writer.startJob course.runId (course.now .start)) (fun _ => rfl) } }

/-- A job of the episode that waits to be run. -/
def Waiting (s : State) (jobId : String) : Prop :=
  ∃ job ∈ s.db.jobs.rows, job.id = jobId ∧ job.postGuid = ep.guid ∧ job.status = .pending

instance (s : State) (jobId : String) : Decidable (Waiting ep s jobId) :=
  inferInstanceAs (Decidable (∃ _ ∈ _, _))

/-- The run of a job, if it waits. -/
def runJob (jobId : String) (s : State) : State :=
  if Waiting ep s jobId then (exec (runProcessingJob host ep course jobId) (dequeued course jobId s)).2
  else s

/-- Runs of jobs of the episode, one after the other. -/
def runAll (runs : List (String × Course)) (s : State) : State :=
  runs.foldl (fun s run => runJob host ep run.2 run.1 s) s

end Podly.AutoRetry
