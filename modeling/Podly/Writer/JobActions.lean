import Podly.Writer.Rows

/-! The job actions of the writer. Each one runs as one transaction on the database at one reading
of the clock, and either fails or replies and leaves a new database. -/
namespace Podly.Writer
open Store

/-- What an action replies to its caller. -/
inductive Reply
  | null
  | dequeued (jobId postGuid : String)
  | count (n : ℕ)
  | job (jobId : String)
  | skipped
  | attribution (jobId : String) (changed : Bool)
  | status (jobId : String) (status : JobStatus)
  | post (postId : ℤ)
  | run (runId : String)
  | other
deriving DecidableEq

abbrev Outcome := Except String (Reply × Database)

/-- `db.session.get(ProcessingJob, job_id)` and its `ValueError`. -/
def withJob (jobId : String) (db : Database) (k : ProcessingJob → Outcome) : Outcome :=
  match db.jobs.get jobId with
  | none => .error s!"Job {jobId} not found"
  | some job => k job

def recalculateIf (p : Bool) (now : Time) (db : Database) : Database :=
  if p then recalculateRunCounts now db else db

@[simp] theorem recalculateIf_jobs (p : Bool) (now : Time) (db : Database) :
    (recalculateIf p now db).jobs = db.jobs := by
  unfold recalculateIf
  split
  · exact recalculateRunCounts_jobs now db
  · rfl

/-- The row changes of `dequeue_job`. -/
def startJob (runId : Option String) (now : Time) (job : ProcessingJob) : ProcessingJob :=
  { job with
    status := .running, startedAt := some now,
    jobsManagerRunId := if truthy runId then runId else job.jobsManagerRunId }

def dequeueJobAction (runId : Option String) (now : Time) (db : Database) : Outcome :=
  if db.jobs.rows.any (fun job => job.status = .running) then .ok (.null,db)
  else match firstAsc ProcessingJob.createdAt
      (db.jobs.rows.filter (fun job => job.status = .pending)) with
    | none => .ok (.null,db)
    | some job =>
      .ok (.dequeued job.id job.postGuid,
        { db with jobs := db.jobs.modify job.id (startJob runId now) (fun _ => rfl) })

def isStale (cutoff : Time) (job : ProcessingJob) : Bool :=
  match job.createdAt with
  | none => false
  | some createdAt => createdAt < cutoff

/-- The microseconds of `timedelta(seconds=...)`, rounded half to even. -/
def timedeltaMicroseconds (seconds : ℚ) : ℤ :=
  let exact := seconds * 1000000
  let rest := exact - exact.floor
  if rest < 1 / 2 then exact.floor
  else if 1 / 2 < rest then exact.floor + 1
  else if exact.floor % 2 = 0 then exact.floor else exact.floor + 1

/-- What a `datetime` can hold: the years 1 to 9999. -/
def InDatetimeRange (t : Time) : Prop := -62135596800000000 ≤ t ∧ t ≤ 253402300799999999

instance (t : Time) : Decidable (InDatetimeRange t) := inferInstanceAs (Decidable (_ ∧ _))

def cleanupStaleJobsAction (olderThanSeconds : Option ℚ) (now : Time) (db : Database) : Outcome :=
  let cutoff := now - timedeltaMicroseconds (olderThanSeconds.getD 3600)
  if InDatetimeRange cutoff then
    .ok (.count (db.jobs.rows.countP (isStale cutoff)),
      { db with jobs := db.jobs.deleteWhere (isStale cutoff) })
  else .error "date value out of range"

def clearAllJobsAction (db : Database) : Outcome :=
  .ok (.count db.jobs.rows.length,{ db with jobs := Table.empty })

def clearActiveJobsAction (now : Time) (db : Database) : Outcome :=
  let isActive : ProcessingJob → Bool := fun job => job.status.IsActive
  let count := db.jobs.rows.countP isActive
  .ok (.count count,
    recalculateIf (count > 0) now { db with jobs := db.jobs.deleteWhere isActive })

/-- `job_data`, as the callers of `create_job` fill it: the status they send is always "pending",
the step 0 of 4 and the progress 0. The id is theirs or the column's default. -/
structure JobData where
  id : String
  postGuid : String
  jobsManagerRunId : Option String
  stepName : Option String
  createdAt : Option Time
  requestedByUserId : Option ℤ
  billingUserId : Option ℤ
  autoRetryAttempted : Bool
deriving DecidableEq

/-- The row `ProcessingJob(**job_data)` with its column defaults and the seeded history. -/
def newJob (data : JobData) (now : Time) : ProcessingJob :=
  { id := data.id, jobsManagerRunId := data.jobsManagerRunId, postGuid := data.postGuid,
    status := .pending, currentStep := some 0, stepName := data.stepName, totalSteps := some 4,
    progressPercentage := some 0, startedAt := none, completedAt := none, errorMessage := none,
    createdAt := some (data.createdAt.getD now), requestedByUserId := data.requestedByUserId,
    billingUserId := data.billingUserId,
    stageHistory := some (initialStageHistory (some 0)
      (if truthy data.stepName then data.stepName else some "Queued") (data.createdAt.getD now)),
    adWindowsCount := none, hadClassificationParseError := false,
    autoRetryAttempted := data.autoRetryAttempted }

/-- Insert a row; the flush fails on a taken primary key. -/
def insertJob (job : ProcessingJob) (db : Database) : Except String Database :=
  match db.jobs.insert job with
  | none => .error "UNIQUE constraint failed: processing_job.id"
  | some jobs => .ok { db with jobs }

def createJobAction (data : JobData) (now : Time) (db : Database) : Outcome :=
  match insertJob (newJob data now) db with
  | .error e => .error e
  | .ok db' => .ok (.job data.id,recalculateIf (truthy data.jobsManagerRunId) now db')

def createJobIfMissingAction (data : JobData) (now : Time) (db : Database) : Outcome :=
  if data.postGuid = "" then .error "job_data must contain post_guid"
  else if db.jobs.rows.any (fun job => job.postGuid = data.postGuid) then .ok (.skipped,db)
  else createJobAction data now db

/-- The `ModelCall` rows of a post that are not finished yet are marked as superseded. -/
def supersede (postId : ℤ) (call : ModelCall) : ModelCall :=
  match call.status with
  | .unfinished _ =>
    if call.postId = postId then
      { call with
        status := .cancelled, errorMessage := some "Superseded by a new processing job" }
    else call
  | _ => call

def cancelExistingJobsAction (postGuid currentJobId : String) (now : Time) (db : Database) :
    Outcome :=
  let existing : ProcessingJob → Bool := fun job =>
    job.postGuid = postGuid && job.status.IsActive && job.id ≠ currentJobId
  let count := db.jobs.rows.countP existing
  let db' := { db with jobs := db.jobs.deleteWhere existing }
  if count > 0 then
    let modelCalls := match db.posts.find? (fun post => post.guid = postGuid) with
      | none => db.modelCalls
      | some post => db.modelCalls.map (supersede post.id)
    .ok (.count count,recalculateRunCounts now { db' with modelCalls })
  else .ok (.count count,db')

/-- The row changes of `update_job_attribution`; a field that is absent or null keeps its value. -/
def applyAttribution (runId : Option String) (requestedByUserId billingUserId : Option ℤ)
    (job : ProcessingJob) : ProcessingJob :=
  { job with
    jobsManagerRunId := if truthy runId then runId else job.jobsManagerRunId,
    requestedByUserId := match job.requestedByUserId, requestedByUserId with
      | none, some userId => if userId = 0 then none else some userId
      | current, _ => current,
    billingUserId := billingUserId <|> job.billingUserId }

def updateJobAttributionAction (jobId : String) (runId : Option String)
    (requestedByUserId billingUserId : Option ℤ) (db : Database) : Outcome :=
  if jobId = "" then .error "job_id is required"
  else withJob jobId db fun job =>
    let job' := applyAttribution runId requestedByUserId billingUserId job
    .ok (.attribution job.id (job' ≠ job),
      { db with jobs := db.jobs.modify jobId (applyAttribution runId
          requestedByUserId billingUserId) (fun _ => rfl) })

/-- The parameters of `update_job_status`. -/
structure StatusUpdate where
  status : JobStatus
  step : Option ℤ
  stepName : Option String
  progress : Option ℚ
  totalSteps : Option ℤ
  errorMessage : Option String
deriving DecidableEq

/-- The history after an update: a new entry when the step changes or none is there yet. -/
def recordStage (update : StatusUpdate) (now : Time) (history : Option (List StageEntry)) :
    Option (List StageEntry) :=
  let entries := history.getD []
  match entries.getLast? with
  | some last =>
    if last.step = update.step then history
    else some (entries ++ [⟨update.step,update.stepName,isoformat now⟩])
  | none => some [⟨update.step,update.stepName,isoformat now⟩]

/-- The row changes of `update_job_status`. -/
def applyStatus (update : StatusUpdate) (now : Time) (job : ProcessingJob) : ProcessingJob :=
  { job with
    status := update.status, currentStep := update.step, stepName := update.stepName,
    progressPercentage := update.progress <|> job.progressPercentage,
    totalSteps := update.totalSteps <|> job.totalSteps,
    errorMessage := if truthy update.errorMessage then update.errorMessage else job.errorMessage,
    startedAt := if update.status = .running ∧ job.startedAt = none then some now
      else job.startedAt,
    completedAt := if update.status.IsFinished ∧ job.completedAt = none then some now
      else job.completedAt,
    stageHistory := recordStage update now job.stageHistory }

/-- Cancellation owns the terminal state: a late update of a cancelled job is ignored. -/
def updateJobStatusAction (jobId : String) (update : StatusUpdate) (now : Time) (db : Database) :
    Outcome :=
  withJob jobId db fun job =>
    if job.status = .cancelled ∧ update.status ≠ .cancelled then
      .ok (.status job.id .cancelled,db)
    else
      .ok (.status job.id update.status,
        recalculateIf (truthy job.jobsManagerRunId) now
          { db with jobs := db.jobs.modify jobId (applyStatus update now) (fun _ => rfl) })

/-- The row changes of `mark_cancelled`. -/
def applyCancel (reason : Option String) (now : Time) (job : ProcessingJob) : ProcessingJob :=
  let reason := if truthy reason then reason else some "Cancelled by user request"
  { job with
    status := .cancelled, stepName := reason, errorMessage := reason, completedAt := some now }

/-- The action itself does not look at the stored status. -/
def markCancelledAction (jobId : String) (reason : Option String) (now : Time) (db : Database) :
    Outcome :=
  withJob jobId db fun job =>
    .ok (.status job.id .cancelled,
      recalculateIf (truthy job.jobsManagerRunId) now
        { db with jobs := db.jobs.modify jobId (applyCancel reason now) (fun _ => rfl) })

def markClassificationParseErrorAction (jobId : String) (db : Database) : Outcome :=
  withJob jobId db fun job =>
    .ok (.job job.id,{ db with
      jobs := db.jobs.modify jobId (fun job => { job with hadClassificationParseError := true })
        (fun _ => rfl) })

def recordAdWindowsCountAction (jobId : String) (count : Option ℤ) (db : Database) : Outcome :=
  withJob jobId db fun job =>
    .ok (.job job.id,{ db with
      jobs := db.jobs.modify jobId
        (fun job => { job with adWindowsCount := count <|> job.adWindowsCount }) (fun _ => rfl) })

def markAutoRetryAttemptedAction (jobId : String) (db : Database) : Outcome :=
  withJob jobId db fun job =>
    .ok (.job job.id,{ db with
      jobs := db.jobs.modify jobId (fun job => { job with autoRetryAttempted := true })
        (fun _ => rfl) })

/-- The row changes of `reassign_pending_jobs`. -/
def reassign (runId : Option String) (job : ProcessingJob) : ProcessingJob :=
  if job.status = .pending then { job with jobsManagerRunId := runId } else job

theorem reassign_id (runId : Option String) (job : ProcessingJob) :
    (reassign runId job).id = job.id := by
  unfold reassign
  split <;> rfl

def reassignPendingJobsAction (runId : Option String) (now : Time) (db : Database) : Outcome :=
  if truthy runId then
    let reassigned := db.jobs.rows.countP
      (fun job => job.status = .pending && job.jobsManagerRunId ≠ runId)
    .ok (.count reassigned,recalculateIf (reassigned > 0) now
      { db with jobs := db.jobs.mapRows (reassign runId) (reassign_id runId) })
  else .ok (.count 0,db)

end Podly.Writer
