import Podly.Writer.JobActions

/-! The job actions as requests with JSON parameters, and the Python handlers that answer them. -/
namespace Podly.Writer
open Store

/-- A parameter of a request: its key is missing, or it is null, or it has a value. -/
inductive Param (α : Type)
  | missing
  | null
  | value (a : α)
deriving DecidableEq

/-- `params.get(key)`. -/
def Param.get {α : Type} : Param α → Option α
  | .missing | .null => none
  | .value a => some a

/-- `job_data`, with every field that some caller sends. A time is sent as its ISO text. -/
structure JobFields where
  id : Param String
  jobsManagerRunId : Param String
  postGuid : Param String
  status : Param JobStatus
  currentStep : Param ℤ
  stepName : Param String
  totalSteps : Param ℤ
  progressPercentage : Param ℚ
  createdAt : Param Time
  requestedByUserId : Param ℤ
  billingUserId : Param ℤ
  autoRetryAttempted : Param Bool

/-- A request for one of the job actions. Integers are those an integer column holds. -/
inductive JobRequest
  | dequeueJob (runId : Param String)
  | cleanupStaleJobs (olderThanSeconds : Param ℚ)
  | clearAllJobs
  | clearActiveJobs
  | createJob (data : JobFields)
  | createJobIfMissing (data : JobFields)
  | cancelExistingJobs (postGuid currentJobId : String)
  | updateJobAttribution (jobId : String) (runId : Param String)
      (requestedByUserId billingUserId : Param ℤ)
  | updateJobStatus (jobId : String) (status : JobStatus) (step : Param ℤ)
      (stepName : Param String) (progress : Param ℚ) (totalSteps : Param ℤ)
      (errorMessage : Param String)
  | markCancelled (jobId : String) (reason : Param String)
  | markClassificationParseError (jobId : String)
  | recordAdWindowsCount (jobId : String) (count : Param ℤ)
  | markAutoRetryAttempted (jobId : String)
  | reassignPendingJobs (runId : Param String)

/-- The truth of an optional string parameter, whose value is used. -/
def Param.truthy (p : Param String) : Bool := Writer.truthy p.get

/-- The row `ProcessingJob(**job_data)`: a column default stands for a missing key and for an
explicit null, and a column that may not be null fails the flush. -/
def jobFromFields (data : JobFields) (newId : String) (now : Time) : Except String ProcessingJob :=
  match data.postGuid.get, data.status.get with
  | some postGuid, some status =>
    let createdAt := data.createdAt.get.getD now
    .ok { id := data.id.get.getD newId, jobsManagerRunId := data.jobsManagerRunId.get, postGuid,
          status, currentStep := some (data.currentStep.get.getD 0),
          stepName := data.stepName.get, totalSteps := some (data.totalSteps.get.getD 4),
          progressPercentage := some (data.progressPercentage.get.getD 0), startedAt := none,
          completedAt := none, errorMessage := none, createdAt := some createdAt,
          requestedByUserId := data.requestedByUserId.get,
          billingUserId := data.billingUserId.get,
          stageHistory := some (initialStageHistory (some (data.currentStep.get.getD 0))
            (if data.stepName.truthy then data.stepName.get else some "Queued") createdAt),
          adWindowsCount := none, hadClassificationParseError := false,
          autoRetryAttempted := data.autoRetryAttempted.get.getD false }
  | _, _ => .error "NOT NULL constraint failed"

/-- `create_job_action` on the fields of a request. -/
def createJobFromFields (data : JobFields) (newId : String) (now : Time) (db : Database) :
    Outcome :=
  match jobFromFields data newId now with
  | .error e => .error e
  | .ok job =>
    match insertJob job db with
    | .error e => .error e
    | .ok db' => .ok (.job job.id,recalculateIf (truthy job.jobsManagerRunId) now db')

/-- `create_job_if_missing_action` on the fields of a request. -/
def createJobIfMissingFromFields (data : JobFields) (newId : String) (now : Time)
    (db : Database) : Outcome :=
  match data.postGuid.get with
  | none => .error "job_data must contain post_guid"
  | some postGuid =>
    if postGuid = "" then .error "job_data must contain post_guid"
    else if db.jobs.rows.any (fun job => job.postGuid = postGuid) then .ok (.skipped,db)
    else createJobFromFields data newId now db

/-- The Python handler of a request. The keys it tells apart from nulls are those of
`update_job_attribution`, which leaves a null alone as well, and `older_than_seconds`, which has a
default and may not be null. -/
def handlePython (request : JobRequest) (newId : String) (now : Time) (db : Database) : Outcome :=
  match request with
  | .dequeueJob runId => dequeueJobAction runId.get now db
  | .cleanupStaleJobs .null => .error "unsupported type for timedelta seconds component"
  | .cleanupStaleJobs olderThanSeconds => cleanupStaleJobsAction olderThanSeconds.get now db
  | .clearAllJobs => clearAllJobsAction db
  | .clearActiveJobs => clearActiveJobsAction now db
  | .createJob data => createJobFromFields data newId now db
  | .createJobIfMissing data => createJobIfMissingFromFields data newId now db
  | .cancelExistingJobs postGuid currentJobId =>
    cancelExistingJobsAction postGuid currentJobId now db
  | .updateJobAttribution jobId runId requestedByUserId billingUserId =>
    updateJobAttributionAction jobId runId.get requestedByUserId.get billingUserId.get db
  | .updateJobStatus jobId status step stepName progress totalSteps errorMessage =>
    updateJobStatusAction jobId
      ⟨status,step.get,stepName.get,progress.get,totalSteps.get,errorMessage.get⟩ now db
  | .markCancelled jobId reason => markCancelledAction jobId reason.get now db
  | .markClassificationParseError jobId => markClassificationParseErrorAction jobId db
  | .recordAdWindowsCount jobId count => recordAdWindowsCountAction jobId count.get db
  | .markAutoRetryAttempted jobId => markAutoRetryAttemptedAction jobId db
  | .reassignPendingJobs runId => reassignPendingJobsAction runId.get now db

/-- The fields that the callers of `create_job` fill. -/
def JobData.fields (data : JobData) : JobFields :=
  let param {α : Type} (o : Option α) : Param α :=
    match o with
    | none => .null
    | some a => .value a
  { id := .value data.id, jobsManagerRunId := param data.jobsManagerRunId,
    postGuid := .value data.postGuid, status := .value .pending, currentStep := .value 0,
    stepName := param data.stepName, totalSteps := .value 4, progressPercentage := .value 0,
    createdAt := param data.createdAt, requestedByUserId := param data.requestedByUserId,
    billingUserId := param data.billingUserId,
    autoRetryAttempted := .value data.autoRetryAttempted }

/-- A creation with the data of the callers is one with their fields. -/
theorem createJobFromFields_fields (data : JobData) (newId : String) (now : Time)
    (db : Database) : createJobFromFields data.fields newId now db = createJobAction data now db := by
  obtain ⟨id,postGuid,runId,stepName,createdAt,requestedBy,billing,retry⟩ := data
  have hjob : jobFromFields (JobData.fields
      ⟨id,postGuid,runId,stepName,createdAt,requestedBy,billing,retry⟩) newId now =
      .ok (newJob ⟨id,postGuid,runId,stepName,createdAt,requestedBy,billing,retry⟩ now) := by
    cases runId <;> cases stepName <;> cases createdAt <;> cases requestedBy <;>
      cases billing <;> rfl
  simp only [createJobFromFields,hjob,createJobAction]
  rfl

end Podly.Writer
