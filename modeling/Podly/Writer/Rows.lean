import Mathlib.Data.Rat.Defs
import Mathlib.Order.WithBot
import Podly.Intervals.Coalesce
import Podly.Store.Table

/-! The rows the job actions of the writer work on, and the helpers they share: query orders,
stage histories and the counters of the singleton run. -/
namespace Podly.Writer
open Store Intervals

/-- Naive UTC timestamps in microseconds. -/
abbrev Time := ℤ

/-- `ProcessingJob.status`. The column takes any string: `other` is one the code does not name. -/
inductive JobStatus
  | pending
  | queued
  | running
  | completed
  | failed
  | cancelled
  | skipped
  | other (name : String)
deriving DecidableEq, Repr

/-- The statuses `cancel_job` answers with `ALREADY_FINISHED`. -/
def JobStatus.IsFinished (s : JobStatus) : Prop :=
  s = .completed ∨ s = .failed ∨ s = .cancelled ∨ s = .skipped

instance (s : JobStatus) : Decidable s.IsFinished := inferInstanceAs (Decidable (_ ∨ _ ∨ _ ∨ _))

/-- `status.in_(["pending", "running"])`. -/
def JobStatus.IsActive (s : JobStatus) : Prop := s = .pending ∨ s = .running

instance (s : JobStatus) : Decidable s.IsActive := inferInstanceAs (Decidable (_ ∨ _))

/-- The ISO text of a timestamp: its second, and its microseconds where the text has a fraction. -/
structure IsoText where
  second : ℤ
  fraction : Option ℤ
deriving DecidableEq, Repr

/-- `datetime.isoformat`, which leaves the fraction out on a whole second. -/
def isoformat (t : Time) : IsoText :=
  ⟨t / 1000000,if t % 1000000 = 0 then none else some (t % 1000000)⟩

/-- One entry of `stage_history`. -/
structure StageEntry where
  step : Option ℤ
  stepName : Option String
  startedAt : IsoText
deriving DecidableEq, Repr

/-- A row of `processing_job`. -/
structure ProcessingJob where
  id : String
  jobsManagerRunId : Option String
  postGuid : String
  status : JobStatus
  currentStep : Option ℤ
  stepName : Option String
  totalSteps : Option ℤ
  progressPercentage : Option ℚ
  startedAt : Option Time
  completedAt : Option Time
  errorMessage : Option String
  createdAt : Option Time
  requestedByUserId : Option ℤ
  billingUserId : Option ℤ
  stageHistory : Option (List StageEntry)
  adWindowsCount : Option ℤ
  hadClassificationParseError : Bool
  autoRetryAttempted : Bool
deriving DecidableEq

abbrev JobTable := Table ProcessingJob.id

/-- The singleton row of `jobs_manager_run`: what the counters use of it. -/
structure JobsManagerRun where
  status : JobStatus
  trigger : String
  startedAt : Option Time
  completedAt : Option Time
  totalJobs : ℕ
  queuedJobs : ℕ
  runningJobs : ℕ
  completedJobs : ℕ
  failedJobs : ℕ
  skippedJobs : ℕ
  countersResetAt : Option Time
  createdAt : Time
  updatedAt : Time
deriving DecidableEq

/-- `SINGLETON_RUN_ID`. -/
def singletonRunId : String := "jobs-manager-singleton"

/-- A row of `post`: what the job actions read and write of it. -/
structure Post where
  id : ℤ
  guid : String
  title : String
  feedId : ℤ
  whitelisted : Bool
  unprocessedAudioPath : Option String
  processedAudioPath : Option String
deriving DecidableEq

/-- A row of `feed`: its title names the output directory. -/
structure Feed where
  id : ℤ
  title : String
deriving DecidableEq

/-- `ModelCall.status`, as far as the job actions tell statuses apart. -/
inductive ModelCallStatus
  | success
  | failedPermanent
  | cancelled
  | unfinished (name : String)
deriving DecidableEq

/-- A row of `model_call`: what the job actions read and write of it. -/
structure ModelCall where
  id : ℤ
  postId : ℤ
  modelName : String
  prompt : String
  status : ModelCallStatus
  errorMessage : Option String
deriving DecidableEq

structure Database where
  jobs : JobTable
  run : Option JobsManagerRun
  posts : List Post
  feeds : List Feed
  modelCalls : List ModelCall

/-- Python's truth of an optional string. -/
def truthy (s : Option String) : Bool :=
  match s with
  | none => false
  | some s => s ≠ ""

/-- The order of a nullable column: SQLite puts nulls first. -/
def nullsFirst (t : Option Time) : WithBot Time :=
  match t with
  | none => ⊥
  | some t => t

/-- The first row of a query in ascending order of a column, ties in row order. -/
def firstAsc {ρ : Type} (column : ρ → Option Time) (rows : List ρ) : Option ρ :=
  (sortByKey (fun r => nullsFirst (column r)) rows).head?

/-- The first row of a query in descending order of a column, ties in row order. -/
def firstDesc {ρ : Type} (column : ρ → Option Time) (rows : List ρ) : Option ρ :=
  (sortByKey (fun r => OrderDual.toDual (nullsFirst (column r))) rows).head?

theorem firstAsc_mem {ρ : Type} {column : ρ → Option Time} {rows : List ρ} {r : ρ}
    (h : firstAsc column rows = some r) : r ∈ rows :=
  (mem_sortByKey _ rows r).mp (List.mem_of_head? h)

theorem firstDesc_map {ρ τ : Type} (column : ρ → Option Time) (f : τ → ρ) (rows : List τ) :
    firstDesc column (rows.map f) = (firstDesc (fun r => column (f r)) rows).map f := by
  rw [firstDesc,sortByKey_map,List.head?_map]
  rfl

/-- `initial_stage_history`. -/
def initialStageHistory (step : Option ℤ) (stepName : Option String) (startedAt : Time) :
    List StageEntry := [⟨step,stepName,isoformat startedAt⟩]

/-- `ProcessingJob.created_at >= cutoff`, when the run has a cutoff. -/
def createdSince (countersResetAt createdAt : Option Time) : Bool :=
  match countersResetAt, createdAt with
  | none, _ => true
  | some _, none => false
  | some cutoff, some createdAt => cutoff ≤ createdAt

/-- How many rows of the run with a status of one kind a recount sees. -/
def countJobs (jobs : List ProcessingJob) (countersResetAt : Option Time)
    (p : JobStatus → Bool) : ℕ :=
  jobs.countP (fun job => job.jobsManagerRunId = some singletonRunId &&
    createdSince countersResetAt job.createdAt && p job.status)

/-- `recalculate_run_counts`. -/
def recalculateRunCounts (now : Time) (db : Database) : Database :=
  match db.run with
  | none => db
  | some run =>
    let count := countJobs db.jobs.rows run.countersResetAt
    let queued := count (· = .pending) + count (· = .queued)
    let running := count (· = .running)
    let completed := count (· = .completed)
    let failed := count (· = .failed) + count (· = .cancelled)
    let skipped := count (· = .skipped)
    let totalJobs := count (fun _ => true)
    let run' : JobsManagerRun :=
      if queued + running > 0 then
        let startedAt := run.startedAt.getD now
        { run with
          totalJobs, queuedJobs := queued, runningJobs := running, completedJobs := completed,
          failedJobs := failed, skippedJobs := skipped, updatedAt := now,
          status := if running > 0 then .running else .pending,
          startedAt := some startedAt,
          countersResetAt := some (run.countersResetAt.getD startedAt),
          completedAt := none }
      else
        { run with
          status := .pending, completedAt := some now, startedAt := none, totalJobs := 0,
          queuedJobs := 0, runningJobs := 0, completedJobs := 0, failedJobs := 0,
          skippedJobs := 0, updatedAt := now, countersResetAt := some now }
    { db with run := some run' }

@[simp] theorem recalculateRunCounts_jobs (now : Time) (db : Database) :
    (recalculateRunCounts now db).jobs = db.jobs := by
  unfold recalculateRunCounts
  split <;> rfl

end Podly.Writer
