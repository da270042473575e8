import Mathlib.Algebra.Group.Int.Defs
import Podly.Writer.JobRequests

/-! The job actions of the Rust writer. Each is one transaction of SQL statements on the same
tables; the statements of a transaction read what the ones before it wrote. -/
namespace Podly.Writer.Rust
open Store

/-- `format_iso_time`, which always writes six digits of the second. -/
def formatIsoTime (t : Time) : IsoText := ⟨t / 1000000,some (t % 1000000)⟩

/-- `recalculate_run_counts`. -/
def recalculateRunCounts (now : Time) (db : Database) : Database :=
  match db.run with
  | none => db
  | some run =>
    let counts := countJobs db.jobs.rows run.countersResetAt
    let queued := counts (· = .pending) + counts (· = .queued)
    let running := counts (· = .running)
    let completed := counts (· = .completed)
    let failed := counts (· = .failed) + counts (· = .cancelled)
    let skipped := counts (· = .skipped)
    let total := counts (fun _ => true)
    if queued + running > 0 then
      { db with run := some { run with
          status := if running > 0 then .running else .pending, totalJobs := total,
          queuedJobs := queued, runningJobs := running, completedJobs := completed,
          failedJobs := failed, skippedJobs := skipped, updatedAt := now,
          startedAt := run.startedAt <|> some now,
          countersResetAt := run.countersResetAt <|> run.startedAt <|> some now,
          completedAt := none } }
    else
      { db with run := some { run with
          status := .pending, completedAt := some now, startedAt := none, totalJobs := 0,
          queuedJobs := 0, runningJobs := 0, completedJobs := 0, failedJobs := 0, skippedJobs := 0,
          updatedAt := now, countersResetAt := some now } }

/-- `recalculate_run_counts` where a condition asks for it. -/
def recalculateIf (p : Bool) (now : Time) (db : Database) : Database :=
  if p then recalculateRunCounts now db else db

/-- One `UPDATE processing_job SET column=? WHERE id=?`. -/
def updateJobColumn (jobId : String) (set : ProcessingJob → ProcessingJob)
    (hset : ∀ job, (set job).id = job.id) (db : Database) : Database :=
  { db with jobs := db.jobs.modify jobId set hset }

def dequeueJob (runId : Param String) (now : Time) (db : Database) : Outcome :=
  if db.jobs.rows.any (fun job => job.status = .running) then .ok (.null,db)
  else
    match firstAsc ProcessingJob.createdAt
      (db.jobs.rows.filter (fun job => job.status = .pending)) with
    | none => .ok (.null,db)
    | some job =>
      let run := if runId.truthy then runId.get else job.jobsManagerRunId
      .ok (.dequeued job.id job.postGuid,updateJobColumn job.id
        (fun job => { job with status := .running, startedAt := some now, jobsManagerRunId := run })
        (fun _ => rfl) db)

/-- The microseconds of a number of seconds, rounded half away from zero. -/
def roundMicroseconds (seconds : ℚ) : ℤ :=
  let exact := seconds * 1000000
  if 0 ≤ exact then (exact + 1 / 2).floor else -(-exact + 1 / 2).floor

/-- What a `NaiveDateTime` can hold: the years -262143 to 262142. -/
def InNaiveRange (t : Time) : Prop := -8334601228800000000 ≤ t ∧ t ≤ 8210266876799999999

instance (t : Time) : Decidable (InNaiveRange t) := inferInstanceAs (Decidable (_ ∧ _))

/-- `created_at < ?` on the stored texts. The text of a year after 9999 or before 0 starts with a
sign and sorts before every stored text. -/
def textIsStale (cutoff : Time) (job : ProcessingJob) : Bool :=
  match job.createdAt with
  | none => false
  | some createdAt =>
    decide (-62167219200000000 ≤ cutoff ∧ cutoff ≤ 253402300799999999) && createdAt < cutoff

/-- The default is 3600 seconds. A number of microseconds beyond 64 bits is refused, and the
subtraction panics on a cutoff it cannot hold. -/
def cleanupStaleJobs (olderThanSeconds : Param ℚ) (now : Time) (db : Database) : Outcome :=
  match olderThanSeconds with
  | .null => .error "older_than_seconds must be numeric"
  | olderThanSeconds =>
    let microseconds := roundMicroseconds (olderThanSeconds.get.getD 3600)
    if microseconds < -2 ^ 63 ∨ microseconds > 2 ^ 63 then
      .error "older_than_seconds is out of range"
    else if InNaiveRange (now - microseconds) then
      let cutoff := now - microseconds
      .ok (.count (db.jobs.rows.countP (textIsStale cutoff)),
        { db with jobs := db.jobs.deleteWhere (textIsStale cutoff) })
    else .error "`NaiveDateTime - TimeDelta` overflowed"

def clearAllJobs (db : Database) : Outcome :=
  .ok (.count db.jobs.rows.length,{ db with jobs := db.jobs.deleteWhere (fun _ => true) })

def clearActiveJobs (now : Time) (db : Database) : Outcome :=
  let isActive : ProcessingJob → Bool := fun job => job.status = .pending ∨ job.status = .running
  let count := db.jobs.rows.countP isActive
  .ok (.count count,
    recalculateIf (count > 0) now { db with jobs := db.jobs.deleteWhere isActive })

/-- A column of the row to insert: a value of the request, else the default put in before. -/
def column {α : Type} (default : Option α) : Param α → Option α
  | .value a => some a
  | .missing | .null => default

/-- The history of a new row. The creation time is written into it as its database text reads. -/
def seedHistory (data : JobFields) (createdAt : Time) : List StageEntry :=
  let currentStep := (column (some 0) data.currentStep).getD 0
  let seedStep := if currentStep ≠ 0 then currentStep else 0
  let seedName := if data.stepName.truthy then data.stepName.get else some "Queued"
  [⟨some seedStep,seedName,formatIsoTime createdAt⟩]

/-- `insert_job`. -/
def insertJob (data : JobFields) (newId : String) (now : Time) (db : Database) :
    Except String (String × Database) :=
  let jobId := (column (some newId) data.id).getD newId
  let createdAt := (column (some now) data.createdAt).getD now
  match column none data.postGuid, column none data.status with
  | some postGuid, some status =>
    let job : ProcessingJob :=
      { id := jobId, jobsManagerRunId := column none data.jobsManagerRunId, postGuid, status,
        currentStep := column (some 0) data.currentStep, stepName := column none data.stepName,
        totalSteps := column (some 4) data.totalSteps,
        progressPercentage := column (some 0) data.progressPercentage, startedAt := none,
        completedAt := none, errorMessage := none, createdAt := some createdAt,
        requestedByUserId := column none data.requestedByUserId,
        billingUserId := column none data.billingUserId,
        stageHistory := some (seedHistory data createdAt), adWindowsCount := none,
        hadClassificationParseError := false,
        autoRetryAttempted := (column (some false) data.autoRetryAttempted).getD false }
    match db.jobs.insert job with
    | none => .error "database operation failed"
    | some jobs => .ok (jobId,{ db with jobs })
  | _, _ => .error "database operation failed"

def createJob (data : JobFields) (newId : String) (now : Time) (db : Database) : Outcome :=
  match insertJob data newId now db with
  | .error e => .error e
  | .ok (jobId,db') => .ok (.job jobId,recalculateIf data.jobsManagerRunId.truthy now db')

def createJobIfMissing (data : JobFields) (newId : String) (now : Time) (db : Database) : Outcome :=
  match data.postGuid with
  | .value postGuid =>
    if truthy (some postGuid) then
      if db.jobs.rows.any (fun job => job.postGuid = postGuid) then .ok (.skipped,db)
      else createJob data newId now db
    else .error "job_data must contain post_guid"
  | _ => .error "job_data must contain post_guid"

def cancelExistingJobs (postGuid currentJobId : String) (now : Time) (db : Database) : Outcome :=
  let existing : ProcessingJob → Bool := fun job => decide (job.postGuid = postGuid) &&
    decide (job.status = .pending ∨ job.status = .running) && decide (job.id ≠ currentJobId)
  let count := db.jobs.rows.countP existing
  let db' := { db with jobs := db.jobs.deleteWhere existing }
  if count > 0 then
    let modelCalls :=
      match (db.posts.find? (fun post => post.guid = postGuid)).map Post.id with
      | none => db.modelCalls
      | some postId => db.modelCalls.map (supersede postId)
    .ok (.count count,recalculateRunCounts now { db' with modelCalls })
  else .ok (.count count,db')

/-- Each of the three columns is written by a statement of its own, if it changes. -/
def updateJobAttribution (jobId : String) (runId : Param String)
    (requestedByUserId billingUserId : Param ℤ) (db : Database) : Outcome :=
  if jobId = "" then .error "job_id is required"
  else
    match db.jobs.get jobId with
    | none => .error s!"Job {jobId} not found"
    | some current =>
      let (db₁,changed₁) :=
        if runId.truthy ∧ current.jobsManagerRunId ≠ runId.get then
          (updateJobColumn jobId (fun job => { job with jobsManagerRunId := runId.get })
            (fun _ => rfl) db,true)
        else (db,false)
      let (db₂,changed₂) :=
        if current.requestedByUserId = none ∧ requestedByUserId.get.getD 0 ≠ 0 then
          (updateJobColumn jobId (fun job => { job with requestedByUserId := requestedByUserId.get })
            (fun _ => rfl) db₁,true)
        else (db₁,changed₁)
      let (db₃,changed₃) :=
        if billingUserId.get ≠ none ∧ billingUserId.get ≠ current.billingUserId then
          (updateJobColumn jobId (fun job => { job with billingUserId := billingUserId.get })
            (fun _ => rfl) db₂,true)
        else (db₂,changed₂)
      .ok (.attribution jobId changed₃,db₃)

/-- Each column is written by a statement of its own; the row read at the start decides. -/
def updateJobStatus (jobId : String) (status : JobStatus) (step : Param ℤ)
    (stepName : Param String) (progress : Param ℚ) (totalSteps : Param ℤ)
    (errorMessage : Param String) (now : Time) (db : Database) : Outcome :=
  match db.jobs.get jobId with
  | none => .error s!"Job {jobId} not found"
  | some current =>
    if current.status = .cancelled ∧ status ≠ .cancelled then .ok (.status jobId .cancelled,db)
    else
      let db := updateJobColumn jobId (fun job => { job with status }) (fun _ => rfl) db
      let db := updateJobColumn jobId (fun job => { job with currentStep := step.get })
        (fun _ => rfl) db
      let db := updateJobColumn jobId (fun job => { job with stepName := stepName.get })
        (fun _ => rfl) db
      let db :=
        if progress.get ≠ none then
          updateJobColumn jobId (fun job => { job with progressPercentage := progress.get })
            (fun _ => rfl) db
        else db
      let db :=
        if totalSteps.get ≠ none then
          updateJobColumn jobId (fun job => { job with totalSteps := totalSteps.get })
            (fun _ => rfl) db
        else db
      let db :=
        if errorMessage.truthy then
          updateJobColumn jobId (fun job => { job with errorMessage := errorMessage.get })
            (fun _ => rfl) db
        else db
      let db :=
        if status = .running ∧ current.startedAt = none then
          updateJobColumn jobId (fun job => { job with startedAt := some now }) (fun _ => rfl) db
        else if status.IsFinished ∧ current.completedAt = none then
          updateJobColumn jobId (fun job => { job with completedAt := some now }) (fun _ => rfl) db
        else db
      let history := current.stageHistory.getD []
      let db :=
        if history.getLast?.map StageEntry.step ≠ some step.get then
          updateJobColumn jobId (fun job => { job with
            stageHistory := some (history ++ [⟨step.get,stepName.get,formatIsoTime now⟩]) })
            (fun _ => rfl) db
        else db
      .ok (.status jobId status,recalculateIf current.jobsManagerRunId.isSome now db)

def markCancelled (jobId : String) (reason : Param String) (now : Time) (db : Database) : Outcome :=
  match db.jobs.get jobId with
  | none => .error s!"Job {jobId} not found"
  | some current =>
    let reason := if reason.truthy then reason.get else some "Cancelled by user request"
    let db := updateJobColumn jobId (fun job => { job with
      status := .cancelled, stepName := reason, errorMessage := reason, completedAt := some now })
      (fun _ => rfl) db
    .ok (.status jobId .cancelled,recalculateIf current.jobsManagerRunId.isSome now db)

/-- `update_required_job_flag`. -/
def updateRequiredJobFlag (jobId : String) (set : ProcessingJob → ProcessingJob)
    (hset : ∀ job, (set job).id = job.id) (db : Database) : Outcome :=
  match db.jobs.get jobId with
  | none => .error s!"Job {jobId} not found"
  | some _ => .ok (.job jobId,updateJobColumn jobId set hset db)

theorem parseError_id (job : ProcessingJob) :
    { job with hadClassificationParseError := true }.id = job.id := rfl

def markClassificationParseError (jobId : String) (db : Database) : Outcome :=
  updateRequiredJobFlag jobId (fun job => { job with hadClassificationParseError := true })
    parseError_id db

def recordAdWindowsCount (jobId : String) (count : Param ℤ) (db : Database) : Outcome :=
  match db.jobs.get jobId with
  | none => .error s!"Job {jobId} not found"
  | some _ =>
    if count.get ≠ none then
      .ok (.job jobId,updateJobColumn jobId (fun job => { job with adWindowsCount := count.get })
        (fun _ => rfl) db)
    else .ok (.job jobId,db)

theorem autoRetry_id (job : ProcessingJob) :
    { job with autoRetryAttempted := true }.id = job.id := rfl

def markAutoRetryAttempted (jobId : String) (db : Database) : Outcome :=
  updateRequiredJobFlag jobId (fun job => { job with autoRetryAttempted := true })
    autoRetry_id db

def reassignPendingJobs (runId : Param String) (now : Time) (db : Database) : Outcome :=
  if runId.truthy then
    let selected : ProcessingJob → Bool := fun job =>
      job.status = .pending && job.jobsManagerRunId ≠ runId.get
    let count := db.jobs.rows.countP selected
    .ok (.count count,recalculateIf (count > 0) now { db with
      jobs := db.jobs.mapRows
        (fun job => if selected job then { job with jobsManagerRunId := runId.get } else job) (by
          intro job
          split <;> rfl) })
  else .ok (.count 0,db)

/-- The Rust handler of a request. -/
def handle (request : JobRequest) (newId : String) (now : Time) (db : Database) : Outcome :=
  match request with
  | .dequeueJob runId => dequeueJob runId now db
  | .cleanupStaleJobs olderThanSeconds => cleanupStaleJobs olderThanSeconds now db
  | .clearAllJobs => clearAllJobs db
  | .clearActiveJobs => clearActiveJobs now db
  | .createJob data => createJob data newId now db
  | .createJobIfMissing data => createJobIfMissing data newId now db
  | .cancelExistingJobs postGuid currentJobId => cancelExistingJobs postGuid currentJobId now db
  | .updateJobAttribution jobId runId requestedByUserId billingUserId =>
    updateJobAttribution jobId runId requestedByUserId billingUserId db
  | .updateJobStatus jobId status step stepName progress totalSteps errorMessage =>
    updateJobStatus jobId status step stepName progress totalSteps errorMessage now db
  | .markCancelled jobId reason => markCancelled jobId reason now db
  | .markClassificationParseError jobId => markClassificationParseError jobId db
  | .recordAdWindowsCount jobId count => recordAdWindowsCount jobId count db
  | .markAutoRetryAttempted jobId => markAutoRetryAttempted jobId db
  | .reassignPendingJobs runId => reassignPendingJobs runId now db

end Podly.Writer.Rust
