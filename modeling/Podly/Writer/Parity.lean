import Podly.Writer.RunCounters
import Podly.Writer.RustJobs

/-! Where the two writers do the same. They differ in the texts they write for a whole second, in
the runs whose id is the empty string, and in the cutoffs they can compute. -/
namespace Podly.Writer
open Store

/-- Both handlers fail, or both succeed with one reply and the same job and run rows. A handler
that fails leaves the database of the transaction as it was. -/
def Agree (python rust : Outcome) : Prop :=
  match python, rust with
  | .error _, .error _ => True
  | .ok (reply,db), .ok (reply',db') => reply = reply' ∧ db.jobs = db'.jobs ∧ db.run = db'.run
  | _, _ => False

def WholeSecond (t : Time) : Prop := t % 1000000 = 0

instance (t : Time) : Decidable (WholeSecond t) := inferInstanceAs (Decidable (_ = _))

@[simp] theorem agree_refl (x : Outcome) : Agree x x := by
  cases x with
  | error e => trivial
  | ok x => exact ⟨rfl,rfl,rfl⟩

theorem isoformat_eq_iff {t : Time} : isoformat t = Rust.formatIsoTime t ↔ ¬WholeSecond t := by
  unfold isoformat Rust.formatIsoTime WholeSecond
  by_cases h : t % 1000000 = 0 <;> simp [h]

/-- The recounts of both writers are one. -/
theorem rust_recalculateRunCounts (now : Time) (db : Database) :
    Rust.recalculateRunCounts now db = recalculateRunCounts now db := by
  unfold Rust.recalculateRunCounts recalculateRunCounts
  cases hrun : db.run with
  | none => rfl
  | some run =>
    simp only
    split
    · cases run.startedAt <;> cases run.countersResetAt <;> rfl
    · rfl

theorem rust_recalculateIf (p : Bool) (now : Time) (db : Database) :
    Rust.recalculateIf p now db = recalculateIf p now db := by
  unfold Rust.recalculateIf recalculateIf
  rw [rust_recalculateRunCounts]

section
variable {db : Database} {jobId : String} {f g : ProcessingJob → ProcessingJob}
  {hf : ∀ job, (f job).id = job.id} {hg : ∀ job, (g job).id = job.id}

/-- Two statements on one row are one. -/
theorem updateJobColumn_updateJobColumn :
    Rust.updateJobColumn jobId g hg (Rust.updateJobColumn jobId f hf db) =
      Rust.updateJobColumn jobId (fun job => g (f job)) (fun job => (hg (f job)).trans (hf job))
        db := by
  simp only [Rust.updateJobColumn,Table.modify_modify]

/-- A statement that writes one column under a condition writes, without it, what is there. -/
theorem updateJobColumn_set {α : Type} (set : α → ProcessingJob → ProcessingJob)
    (column : ProcessingJob → α) (hself : ∀ job, set (column job) job = job)
    (hset : ∀ a job, (set a job).id = job.id) (p : Prop) [Decidable p] (a : α) :
    (if p then Rust.updateJobColumn jobId (set a) (hset a) db else db) =
      Rust.updateJobColumn jobId (fun job => set (if p then a else column job) job)
        (fun job => hset _ job) db := by
  by_cases hp : p
  · simp only [if_pos hp]
  · simp only [if_neg hp,hself,Rust.updateJobColumn,Table.modify_self]

/-- Such a statement that also says whether it ran. -/
theorem updateJobColumn_if_changed (p : Prop) [Decidable p] (changed : Bool) :
    (if p then (Rust.updateJobColumn jobId f hf db,true) else (db,changed)) =
      (Rust.updateJobColumn jobId (fun job => if p then f job else job) (by
        intro job
        split
        · exact hf job
        · rfl) db,decide p || changed) := by
  by_cases hp : p
  · simp only [if_pos hp,decide_eq_true hp,Bool.true_or]
  · simp only [if_neg hp,decide_eq_false hp,Bool.false_or,Rust.updateJobColumn,Table.modify_self]

end

section
variable {db : Database} {now : Time} (newId : String)

theorem rust_dequeueJob (runId : Param String) :
    Rust.dequeueJob runId now db = dequeueJobAction runId.get now db := by
  unfold Rust.dequeueJob dequeueJobAction
  split
  · rfl
  · cases hjob : firstAsc ProcessingJob.createdAt
        (db.jobs.rows.filter (fun job => decide (job.status = .pending))) with
    | none => rfl
    | some job =>
      have hget : db.jobs.get job.id = some job :=
        Table.get_eq_some.mpr ⟨(List.mem_filter.mp (firstAsc_mem hjob)).1,rfl⟩
      have hmodify : db.jobs.modify job.id (fun other => { other with
          status := .running, startedAt := some now,
          jobsManagerRunId := if runId.truthy then runId.get else job.jobsManagerRunId })
          (fun _ => rfl) = db.jobs.modify job.id (startJob runId.get now) (fun _ => rfl) :=
        (Table.modify_eq_iff hget).mpr rfl
      simp only [Rust.updateJobColumn,hmodify]

theorem rust_clearActiveJobs : Rust.clearActiveJobs now db = clearActiveJobsAction now db := by
  simp only [Rust.clearActiveJobs,clearActiveJobsAction,rust_recalculateIf]
  rfl

theorem rust_clearAllJobs : Rust.clearAllJobs db = clearAllJobsAction db := by
  have hempty : db.jobs.deleteWhere (fun _ => true) = Table.empty := by
    apply Table.ext
    simp [Table.empty,Table.deleteWhere]
  simp only [Rust.clearAllJobs,clearAllJobsAction,hempty]

theorem rust_cancelExistingJobs (postGuid currentJobId : String) :
    Rust.cancelExistingJobs postGuid currentJobId now db =
      cancelExistingJobsAction postGuid currentJobId now db := by
  unfold Rust.cancelExistingJobs cancelExistingJobsAction
  simp only [rust_recalculateRunCounts]
  cases db.posts.find? (fun post => decide (post.guid = postGuid)) <;> rfl

theorem rust_reassignPendingJobs (runId : Param String) :
    Rust.reassignPendingJobs runId now db = reassignPendingJobsAction runId.get now db := by
  have hset : ∀ job : ProcessingJob,
      (if (decide (job.status = .pending) && decide (job.jobsManagerRunId ≠ runId.get)) = true then
        { job with jobsManagerRunId := runId.get } else job) = reassign runId.get job := by
    intro job
    unfold reassign
    by_cases hpending : job.status = .pending
    · by_cases hrun : job.jobsManagerRunId = runId.get
      · rw [if_neg (by simp [hrun]),if_pos hpending,← hrun]
      · rw [if_pos (by simp [hpending,hrun]),if_pos hpending]
    · rw [if_neg (by simp [hpending]),if_neg hpending]
  unfold Rust.reassignPendingJobs reassignPendingJobsAction
  simp only [rust_recalculateIf,Param.truthy,hset]

theorem rust_updateRequiredJobFlag {jobId : String} {set : ProcessingJob → ProcessingJob}
    {hset : ∀ job, (set job).id = job.id} :
    Rust.updateRequiredJobFlag jobId set hset db =
      withJob jobId db (fun job =>
        .ok (.job job.id,{ db with jobs := db.jobs.modify jobId set hset })) := by
  unfold Rust.updateRequiredJobFlag withJob
  cases hjob : db.jobs.get jobId with
  | none => rfl
  | some job =>
    simp only [(Table.get_eq_some.mp hjob).2]
    rfl

theorem rust_recordAdWindowsCount (jobId : String) (count : Param ℤ) :
    Rust.recordAdWindowsCount jobId count db = recordAdWindowsCountAction jobId count.get db := by
  unfold Rust.recordAdWindowsCount recordAdWindowsCountAction withJob
  cases hjob : db.jobs.get jobId with
  | none => rfl
  | some job =>
    have hid : job.id = jobId := (Table.get_eq_some.mp hjob).2
    cases hcount : count.get with
    | none =>
      have hself := Table.modify_self db.jobs jobId
      simp only [hid,ne_eq,not_true_eq_false,if_false]
      exact congrArg (fun jobs => Except.ok (Reply.job jobId,{ db with jobs })) hself.symm
    | some n =>
      simp only [hid]
      rfl

/-- The row the three statements leave. -/
theorem applyAttribution_eq (runId : Param String) (requestedByUserId billingUserId : Param ℤ)
    (job : ProcessingJob) : applyAttribution runId.get requestedByUserId.get billingUserId.get job =
      { job with
        jobsManagerRunId := if runId.truthy ∧ job.jobsManagerRunId ≠ runId.get then runId.get
          else job.jobsManagerRunId,
        requestedByUserId :=
          if job.requestedByUserId = none ∧ requestedByUserId.get.getD 0 ≠ 0 then
            requestedByUserId.get
          else job.requestedByUserId,
        billingUserId :=
          if billingUserId.get ≠ none ∧ billingUserId.get ≠ job.billingUserId then
            billingUserId.get
          else job.billingUserId } := by
  unfold applyAttribution Param.truthy
  congr 1
  · by_cases hrun : job.jobsManagerRunId = runId.get <;> simp [hrun]
  · cases job.requestedByUserId <;> cases requestedByUserId.get <;> simp
  · cases billingUserId.get with
    | none => rfl
    | some user =>
      by_cases huser : some user = job.billingUserId <;> simp [huser]

theorem rust_updateJobAttribution (jobId : String) (runId : Param String)
    (requestedByUserId billingUserId : Param ℤ) :
    Rust.updateJobAttribution jobId runId requestedByUserId billingUserId db =
      updateJobAttributionAction jobId runId.get requestedByUserId.get billingUserId.get db := by
  unfold Rust.updateJobAttribution updateJobAttributionAction withJob
  split
  · rfl
  cases hjob : db.jobs.get jobId with
  | none => rfl
  | some job =>
    have hid : job.id = jobId := (Table.get_eq_some.mp hjob).2
    simp only [updateJobColumn_if_changed,hid]
    simp only [updateJobColumn_updateJobColumn]
    refine congrArg Except.ok (Prod.ext (congrArg (Reply.attribution jobId) ?_) ?_)
    · have hrow : applyAttribution runId.get requestedByUserId.get billingUserId.get job = job ↔
          ¬(runId.truthy ∧ job.jobsManagerRunId ≠ runId.get) ∧
          ¬(job.requestedByUserId = none ∧ requestedByUserId.get.getD 0 ≠ 0) ∧
          ¬(billingUserId.get ≠ none ∧ billingUserId.get ≠ job.billingUserId) := by
        rw [applyAttribution_eq]
        constructor
        · intro h
          have hrun := congrArg ProcessingJob.jobsManagerRunId h
          have hrequested := congrArg ProcessingJob.requestedByUserId h
          have hbilling := congrArg ProcessingJob.billingUserId h
          simp only at hrun hrequested hbilling
          refine ⟨fun hp => ?_,fun hp => ?_,fun hp => ?_⟩
          · rw [if_pos hp] at hrun
            exact hp.2 hrun.symm
          · rw [if_pos hp,hp.1] at hrequested
            exact hp.2 (by rw [hrequested,Option.getD_none])
          · rw [if_pos hp] at hbilling
            exact hp.2 hbilling
        · rintro ⟨hrun,hrequested,hbilling⟩
          simp only [if_neg hrun,if_neg hrequested,if_neg hbilling]
      have hnone : ∀ p q r : Prop, r ∨ q ∨ p ↔ ¬(¬p ∧ ¬q ∧ ¬r) := by
        intro p q r
        rw [← not_or,← not_or,not_not]
        exact or_comm.trans ((or_congr_left or_comm).trans or_assoc)
      rw [Bool.eq_iff_iff]
      simp only [Bool.or_eq_true,decide_eq_true_eq,ne_eq,hrow,Bool.false_eq_true,or_false]
      exact hnone _ _ _
    · refine congrArg (fun jobs => { db with jobs }) ((Table.modify_eq_iff hjob).mpr ?_)
      rw [applyAttribution_eq]
      split_ifs <;> rfl

/-- The entry that a status update adds, if the step changes or none is there yet. -/
theorem recordStage_eq (update : StatusUpdate) (history : Option (List StageEntry)) :
    recordStage update now history =
      if (history.getD []).getLast?.map StageEntry.step ≠ some update.step then
        some (history.getD [] ++ [⟨update.step,update.stepName,isoformat now⟩])
      else history := by
  simp only [recordStage]
  cases hlast : (history.getD []).getLast? with
  | none => simp [List.getLast?_eq_none_iff.mp hlast]
  | some last => by_cases hstep : last.step = update.step <;> simp [hstep]

/-- The row that the statements of the Rust writer leave is that of the Python writer, but for the
text of the entry. -/
def rustStatus (update : StatusUpdate) (now : Time) (job : ProcessingJob) : ProcessingJob :=
  { applyStatus update now job with
    stageHistory :=
      if (job.stageHistory.getD []).getLast?.map StageEntry.step ≠ some update.step then
        some (job.stageHistory.getD [] ++ [⟨update.step,update.stepName,Rust.formatIsoTime now⟩])
      else job.stageHistory }

theorem rustStatus_eq_iff {update : StatusUpdate} {job : ProcessingJob} :
    applyStatus update now job = rustStatus update now job ↔
      ((job.stageHistory.getD []).getLast?.map StageEntry.step ≠ some update.step →
        ¬WholeSecond now) := by
  rw [← isoformat_eq_iff]
  constructor
  · intro h hstep
    have hhistory := congrArg ProcessingJob.stageHistory h
    simp only [applyStatus,rustStatus,recordStage_eq,if_pos hstep] at hhistory
    simpa using hhistory
  · intro h
    by_cases hstep :
        (job.stageHistory.getD []).getLast?.map StageEntry.step ≠ some update.step
    · simp only [rustStatus,applyStatus,recordStage_eq,if_pos hstep,h hstep]
    · simp only [rustStatus,applyStatus,recordStage_eq,if_neg hstep]

theorem rust_updateJobStatus {jobId : String} {status : JobStatus} {step : Param ℤ}
    {stepName : Param String} {progress : Param ℚ} {totalSteps : Param ℤ}
    {errorMessage : Param String} {job : ProcessingJob} (hjob : db.jobs.get jobId = some job)
    (hopen : ¬(job.status = .cancelled ∧ status ≠ .cancelled)) :
    Rust.updateJobStatus jobId status step stepName progress totalSteps errorMessage now db =
      .ok (.status jobId status,recalculateIf job.jobsManagerRunId.isSome now
        { db with
          jobs := db.jobs.modify jobId (rustStatus
            ⟨status,step.get,stepName.get,progress.get,totalSteps.get,errorMessage.get⟩ now)
            (fun _ => rfl) }) := by
  unfold Rust.updateJobStatus
  simp only [hjob,if_neg hopen,rust_recalculateIf]
  simp only [updateJobColumn_set (fun a job => { job with progressPercentage := a })
      ProcessingJob.progressPercentage (fun _ => rfl) (fun _ _ => rfl),
    updateJobColumn_set (fun a job => { job with totalSteps := a })
      ProcessingJob.totalSteps (fun _ => rfl) (fun _ _ => rfl),
    updateJobColumn_set (fun a job => { job with errorMessage := a })
      ProcessingJob.errorMessage (fun _ => rfl) (fun _ _ => rfl),
    updateJobColumn_set (fun a job => { job with completedAt := a })
      ProcessingJob.completedAt (fun _ => rfl) (fun _ _ => rfl),
    updateJobColumn_set (fun a job => { job with stageHistory := a })
      ProcessingJob.stageHistory (fun _ => rfl) (fun _ _ => rfl)]
  have hvalue : ∀ {α : Type} [DecidableEq α] (new old : Option α),
      (if new ≠ none then new else old) = (new <|> old) := by
    intro α _ new old
    cases new <;> rfl
  by_cases hstarts : status = .running ∧ job.startedAt = none
  · have hfinished : ¬(status.IsFinished ∧ job.completedAt = none) := by
      rintro ⟨hfinished,-⟩
      rw [hstarts.1] at hfinished
      simp [JobStatus.IsFinished] at hfinished
    simp only [if_pos hstarts,updateJobColumn_updateJobColumn,hvalue]
    refine congrArg (fun jobs => Except.ok (Reply.status jobId status,recalculateIf _ now
      { db with jobs })) ((Table.modify_eq_iff hjob).mpr ?_)
    simp only [rustStatus,applyStatus,if_pos hstarts,if_neg hfinished]
    rfl
  · simp only [if_neg hstarts,updateJobColumn_updateJobColumn,hvalue]
    refine congrArg (fun jobs => Except.ok (Reply.status jobId status,recalculateIf _ now
      { db with jobs })) ((Table.modify_eq_iff hjob).mpr ?_)
    simp only [rustStatus,applyStatus,if_neg hstarts]
    rfl

theorem rust_markCancelled {jobId : String} {reason : Param String} {job : ProcessingJob}
    (hjob : db.jobs.get jobId = some job) :
    Rust.markCancelled jobId reason now db =
      .ok (.status jobId .cancelled,recalculateIf job.jobsManagerRunId.isSome now
        { db with
          jobs := db.jobs.modify jobId (applyCancel reason.get now) (fun _ => rfl) }) := by
  simp only [Rust.markCancelled,hjob,rust_recalculateIf]
  rfl

end

/-- There is no run, or its row is what a recount at this clock writes. -/
def RunUpToDate (now : Time) (db : Database) : Prop :=
  ∀ run ∈ db.run,
    let counts := recount db.jobs.rows run.countersResetAt
    run.updatedAt = now ∧
    if 0 < counts.queued + counts.running then
      run.counters = counts ∧ run.status = (if 0 < counts.running then .running else .pending) ∧
        run.startedAt ≠ none ∧ run.countersResetAt ≠ none ∧ run.completedAt = none
    else
      run.counters = ⟨0,0,0,0,0,0⟩ ∧ run.status = .pending ∧ run.startedAt = none ∧
        run.countersResetAt = some now ∧ run.completedAt = some now

section
variable {db : Database} {now : Time}

theorem recalculateRunCounts_run_eq_iff :
    db.run = (recalculateRunCounts now db).run ↔ RunUpToDate now db := by
  unfold RunUpToDate
  cases hrun : db.run with
  | none => simp [recalculateRunCounts,hrun]
  | some run =>
    simp only [Option.mem_some_iff,forall_eq']
    by_cases hwork : 0 < (recount db.jobs.rows run.countersResetAt).queued +
        (recount db.jobs.rows run.countersResetAt).running
    · simp only [if_pos hwork]
      have hrecount : (recalculateRunCounts now db).run = some { run with
          status := if 0 < (recount db.jobs.rows run.countersResetAt).running then .running
            else .pending,
          totalJobs := (recount db.jobs.rows run.countersResetAt).total,
          queuedJobs := (recount db.jobs.rows run.countersResetAt).queued,
          runningJobs := (recount db.jobs.rows run.countersResetAt).running,
          completedJobs := (recount db.jobs.rows run.countersResetAt).completed,
          failedJobs := (recount db.jobs.rows run.countersResetAt).failed,
          skippedJobs := (recount db.jobs.rows run.countersResetAt).skipped,
          updatedAt := now, startedAt := some (run.startedAt.getD now),
          countersResetAt := some (run.countersResetAt.getD (run.startedAt.getD now)),
          completedAt := none } := by
        simp only [recalculateRunCounts,hrun]
        split
        · rfl
        · rename_i hidle
          exact absurd hwork hidle
      rw [hrecount,Option.some.injEq]
      generalize recount db.jobs.rows run.countersResetAt = counts
      obtain ⟨status,_,startedAt,_,_,_,_,_,_,_,reset,_,_⟩ := run
      cases startedAt <;> cases reset <;> cases counts <;> simp [JobsManagerRun.counters]
      tauto
    · simp only [if_neg hwork]
      have hrecount : (recalculateRunCounts now db).run = some { run with
          status := .pending, completedAt := some now, startedAt := none, totalJobs := 0,
          queuedJobs := 0, runningJobs := 0, completedJobs := 0, failedJobs := 0, skippedJobs := 0,
          updatedAt := now, countersResetAt := some now } := by
        simp only [recalculateRunCounts,hrun]
        split
        · rename_i hbusy
          exact absurd hbusy hwork
        · rfl
      rw [hrecount,Option.some.injEq]
      obtain ⟨_,_,_,_,_,_,_,_,_,_,_,_,_⟩ := run
      simp [JobsManagerRun.counters]
      tauto

variable {jobId : String} {job : ProcessingJob} {f g : ProcessingJob → ProcessingJob}
  {hf : ∀ job, (f job).id = job.id} {hg : ∀ job, (g job).id = job.id}

/-- A recount does not see the job of another run, before a change or after it. -/
theorem runUpToDate_modify (hjob : db.jobs.get jobId = some job) (hother : ¬job.Assigned)
    (hkept : (f job).jobsManagerRunId = job.jobsManagerRunId) :
    RunUpToDate now { db with jobs := db.jobs.modify jobId f hf } ↔ RunUpToDate now db := by
  have hother' : ¬(f job).Assigned := by
    rw [ProcessingJob.Assigned,hkept]
    exact hother
  have hrecount : ∀ reset : Option Time, recount (db.jobs.modify jobId f hf).rows reset =
      recount db.jobs.rows reset := by
    intro reset
    rw [recount_modify_iff hjob,mark_eq_none.mpr (fun h => hother' h.1),
      mark_eq_none.mpr (fun h => hother h.1)]
  unfold RunUpToDate
  simp only [hrecount]

/-- The Python writer recounts after a change of a job with a run, the Rust writer also when the
id of the run is the empty string. -/
theorem agree_modify_iff (reply : Reply) (hjob : db.jobs.get jobId = some job)
    (hkept : (g job).jobsManagerRunId = job.jobsManagerRunId) :
    Agree (.ok (reply,recalculateIf (truthy job.jobsManagerRunId) now
        { db with jobs := db.jobs.modify jobId f hf }))
      (.ok (reply,recalculateIf job.jobsManagerRunId.isSome now
        { db with jobs := db.jobs.modify jobId g hg })) ↔
      f job = g job ∧ (job.jobsManagerRunId = some "" → RunUpToDate now db) := by
  simp only [Agree,recalculateIf_jobs,Table.modify_eq_iff hjob,true_and]
  apply and_congr_right
  intro hrow
  have htable : db.jobs.modify jobId f hf = db.jobs.modify jobId g hg :=
    (Table.modify_eq_iff hjob).mpr hrow
  rw [htable]
  cases hrun : job.jobsManagerRunId with
  | none => simp [truthy]
  | some runId =>
    by_cases hempty : runId = ""
    · have hother : ¬job.Assigned := by
        rw [ProcessingJob.Assigned,hrun,hempty]
        decide
      have hidle : db.run = (recalculateRunCounts now { db with
          jobs := db.jobs.modify jobId g hg }).run ↔ RunUpToDate now db :=
        recalculateRunCounts_run_eq_iff.trans (runUpToDate_modify hjob hother hkept)
      simp [truthy,hempty,recalculateIf,hidle]
    · simp [truthy,hempty]

end

/-- The request fills the columns that may not be null, and its id is free. -/
def Inserts (data : JobFields) (newId : String) (db : Database) : Prop :=
  data.postGuid.get ≠ none ∧ data.status.get ≠ none ∧
    db.jobs.get (data.id.get.getD newId) = none

section
variable {db : Database} {now : Time} (data : JobFields) (newId : String)

/-- The row of the Rust writer, but for the text in its history. -/
theorem rust_insertJob : Rust.insertJob data newId now db =
    match jobFromFields data newId now with
    | .error _ => .error "database operation failed"
    | .ok job =>
      match db.jobs.insert { job with
        stageHistory := some (Rust.seedHistory data (data.createdAt.get.getD now)) } with
      | none => .error "database operation failed"
      | some jobs => .ok (job.id,{ db with jobs }) := by
  have hvalue : ∀ {α : Type} (p : Param α), Rust.column none p = p.get := by
    intro α p
    cases p <;> rfl
  have hdefault : ∀ {α : Type} (a : α) (p : Param α),
      Rust.column (some a) p = some (p.get.getD a) := by
    intro α a p
    cases p <;> rfl
  unfold Rust.insertJob jobFromFields
  simp only [hvalue,hdefault,Option.getD_some]
  cases data.postGuid.get with
  | none => rfl
  | some postGuid => cases data.status.get <;> rfl

/-- What the row of the Python writer has that the insertion and the recount read. -/
theorem jobFromFields_ok {job : ProcessingJob} (h : jobFromFields data newId now = .ok job) :
    data.postGuid.get ≠ none ∧ data.status.get ≠ none ∧ job.id = data.id.get.getD newId ∧
      job.jobsManagerRunId = data.jobsManagerRunId.get ∧
      (job.stageHistory = some (Rust.seedHistory data (data.createdAt.get.getD now)) ↔
        ¬WholeSecond (data.createdAt.get.getD now)) := by
  unfold jobFromFields at h
  cases hguid : data.postGuid.get with
  | none => simp [hguid] at h
  | some postGuid =>
    cases hstatus : data.status.get with
    | none => simp [hguid,hstatus] at h
    | some status =>
      simp only [hguid,hstatus,Except.ok.injEq] at h
      subst h
      refine ⟨nofun,nofun,rfl,rfl,?_⟩
      rw [← isoformat_eq_iff]
      have hstep : Rust.column (some 0) data.currentStep = some (data.currentStep.get.getD 0) := by
        cases data.currentStep <;> rfl
      simp only [initialStageHistory,Rust.seedHistory,hstep,Option.getD_some]
      simp

theorem agree_createJob_iff : Agree (createJobFromFields data newId now db)
    (Rust.createJob data newId now db) ↔
      (Inserts data newId db → ¬WholeSecond (data.createdAt.get.getD now)) := by
  unfold createJobFromFields Rust.createJob Inserts
  rw [rust_insertJob]
  cases hjob : jobFromFields data newId now with
  | error e =>
    have hnull : ¬(data.postGuid.get ≠ none ∧ data.status.get ≠ none) := by
      rintro ⟨hguid,hstatus⟩
      unfold jobFromFields at hjob
      cases hguid' : data.postGuid.get <;> cases hstatus' : data.status.get <;>
        simp [hguid',hstatus'] at hguid hstatus hjob
    simp only [Agree,true_iff]
    rintro ⟨hguid,hstatus,-⟩
    exact absurd ⟨hguid,hstatus⟩ hnull
  | ok job =>
    obtain ⟨hguid,hstatus,hid,hrun,hhistory⟩ := jobFromFields_ok data newId hjob
    rw [← hhistory,← hid]
    cases hinsert : db.jobs.insert job with
    | none =>
      have htaken := Table.insert_eq_none.mp hinsert
      have hinsert' : db.jobs.insert { job with
          stageHistory := some (Rust.seedHistory data (data.createdAt.get.getD now)) } = none :=
        Table.insert_eq_none.mpr htaken
      simp [insertJob,hinsert,hinsert',Agree,htaken]
    | some jobs =>
      have hfree : db.jobs.get job.id = none := Table.insert_get_ne_none hinsert
      obtain ⟨jobs',hinsert'⟩ : ∃ jobs', db.jobs.insert { job with
          stageHistory := some (Rust.seedHistory data (data.createdAt.get.getD now)) } =
            some jobs' := by
        rw [← Option.ne_none_iff_exists']
        exact fun h => Table.insert_eq_none.mp h hfree
      have htable : jobs = jobs' ↔
          job.stageHistory = some (Rust.seedHistory data (data.createdAt.get.getD now)) := by
        rw [Table.ext_iff,Table.rows_insert hinsert,Table.rows_insert hinsert']
        constructor
        · intro h
          simpa using congrArg ProcessingJob.stageHistory
            (List.singleton_inj.mp (List.append_cancel_left h))
        · intro h
          rw [← h]
      simp only [insertJob,hinsert,hinsert',Agree,recalculateIf_jobs,rust_recalculateIf]
      simp only [Param.truthy,← hrun,← htable,true_and,ne_eq,hguid,hstatus,hfree,
        not_false_eq_true,and_self,forall_true_left]
      constructor
      · exact fun h => h.1
      · rintro rfl
        exact ⟨rfl,rfl⟩

/-- The request names a post that has no job yet. -/
def NewPost (data : JobFields) (db : Database) : Prop :=
  ∃ postGuid ∈ data.postGuid.get, postGuid ≠ "" ∧ ∀ job ∈ db.jobs.rows, job.postGuid ≠ postGuid

theorem agree_createJobIfMissing_iff : Agree (createJobIfMissingFromFields data newId now db)
    (Rust.createJobIfMissing data newId now db) ↔
      (NewPost data db → Inserts data newId db →
        ¬WholeSecond (data.createdAt.get.getD now)) := by
  unfold createJobIfMissingFromFields Rust.createJobIfMissing NewPost
  cases hguid : data.postGuid with
  | missing => simp [Param.get,Agree]
  | null => simp [Param.get,Agree]
  | value postGuid =>
    have hget : (Param.value postGuid).get = some postGuid := rfl
    simp only [hget]
    by_cases hempty : postGuid = ""
    · simp [truthy,hempty,Agree]
    have htruthy : truthy (some postGuid) = true := by simp [truthy,hempty]
    rw [if_neg hempty,if_pos htruthy]
    by_cases hexists : db.jobs.rows.any (fun job => decide (job.postGuid = postGuid)) = true
    · rw [if_pos hexists,if_pos hexists]
      have hold : ¬∀ job ∈ db.jobs.rows, job.postGuid ≠ postGuid := by simpa using hexists
      simp only [agree_refl,true_iff]
      rintro ⟨other,hother,-,hnew⟩
      exact absurd (Option.some.inj hother ▸ hnew) hold
    · rw [if_neg hexists,if_neg hexists,agree_createJob_iff]
      have hnew : ∀ job ∈ db.jobs.rows, job.postGuid ≠ postGuid := by simpa using hexists
      constructor
      · exact fun h _ => h
      · exact fun h => h ⟨postGuid,rfl,hempty,hnew⟩

end

/-- Both writers can compute the cutoff or neither can, and no job was created between the two. -/
def CutoffsAgree (seconds : ℚ) (now : Time) (db : Database) : Prop :=
  let python := now - timedeltaMicroseconds seconds
  let rust := now - Rust.roundMicroseconds seconds
  (InDatetimeRange python ↔ (-2 ^ 63 ≤ Rust.roundMicroseconds seconds ∧
    Rust.roundMicroseconds seconds ≤ 2 ^ 63) ∧ Rust.InNaiveRange rust) ∧
  (InDatetimeRange python →
    ∀ job ∈ db.jobs.rows, isStale python job = Rust.textIsStale rust job)

section
variable {db : Database} {now : Time}

/-- Two deletions leave the same rows when they select the same. -/
theorem deleteWhere_eq_iff {t : JobTable} {p q : ProcessingJob → Bool} :
    t.deleteWhere p = t.deleteWhere q ↔ ∀ job ∈ t.rows, p job = q job := by
  rw [Table.ext_iff]
  constructor
  · intro h job hjob
    have hmem := congrArg (fun rows => job ∈ rows) h
    simp only [Table.deleteWhere,List.mem_filter,hjob,true_and,eq_iff_iff] at hmem
    cases hp : p job <;> cases hq : q job <;> simp [hp,hq] at hmem ⊢
  · intro h
    apply List.filter_congr
    intro job hjob
    rw [h job hjob]

theorem agree_cleanupStaleJobs_iff {olderThanSeconds : Param ℚ}
    (hnull : olderThanSeconds ≠ .null) :
    Agree (cleanupStaleJobsAction olderThanSeconds.get now db)
      (Rust.cleanupStaleJobs olderThanSeconds now db) ↔
      CutoffsAgree (olderThanSeconds.get.getD 3600) now db := by
  have hrust : Rust.cleanupStaleJobs olderThanSeconds now db =
      (let microseconds := Rust.roundMicroseconds (olderThanSeconds.get.getD 3600)
      if microseconds < -2 ^ 63 ∨ microseconds > 2 ^ 63 then
        .error "older_than_seconds is out of range"
      else if Rust.InNaiveRange (now - microseconds) then
        .ok (.count (db.jobs.rows.countP (Rust.textIsStale (now - microseconds))),
          { db with jobs := db.jobs.deleteWhere (Rust.textIsStale (now - microseconds)) })
      else .error "`NaiveDateTime - TimeDelta` overflowed") := by
    cases olderThanSeconds with
    | missing => rfl
    | null => exact absurd rfl hnull
    | value seconds => rfl
  rw [hrust]
  unfold cleanupStaleJobsAction CutoffsAgree
  generalize olderThanSeconds.get.getD 3600 = seconds
  simp only
  have hrange : (Rust.roundMicroseconds seconds < -2 ^ 63 ∨ Rust.roundMicroseconds seconds > 2 ^ 63)
      ↔ ¬(-2 ^ 63 ≤ Rust.roundMicroseconds seconds ∧ Rust.roundMicroseconds seconds ≤ 2 ^ 63) := by
    omega
  by_cases hpython : InDatetimeRange (now - timedeltaMicroseconds seconds) <;>
  by_cases hfits : -2 ^ 63 ≤ Rust.roundMicroseconds seconds ∧
    Rust.roundMicroseconds seconds ≤ 2 ^ 63 <;>
  by_cases hnaive : Rust.InNaiveRange (now - Rust.roundMicroseconds seconds) <;>
  simp only [hrange,hpython,hfits,hnaive,if_true,if_false,not_true_eq_false,not_false_eq_true,
    Agree,and_true,true_and,and_false,false_and,and_self,true_implies,false_implies,iff_true,
    iff_false]
  rw [deleteWhere_eq_iff]
  constructor
  · exact fun h => h.2
  · intro h
    exact ⟨congrArg Reply.count (List.countP_congr (fun job hjob => by rw [h job hjob])),h⟩

/-- When the handlers of a request do the same. -/
def LinesUp (request : JobRequest) (newId : String) (now : Time) (db : Database) : Prop :=
  match request with
  | .cleanupStaleJobs .null => True
  | .cleanupStaleJobs olderThanSeconds => CutoffsAgree (olderThanSeconds.get.getD 3600) now db
  | .createJob data => Inserts data newId db → ¬WholeSecond (data.createdAt.get.getD now)
  | .createJobIfMissing data =>
    NewPost data db → Inserts data newId db → ¬WholeSecond (data.createdAt.get.getD now)
  | .updateJobStatus jobId status step _ _ _ _ =>
    ∀ job ∈ db.jobs.get jobId, ¬(job.status = .cancelled ∧ status ≠ .cancelled) →
      ((job.stageHistory.getD []).getLast?.map StageEntry.step ≠ some step.get →
        ¬WholeSecond now) ∧
      (job.jobsManagerRunId = some "" → RunUpToDate now db)
  | .markCancelled jobId _ =>
    ∀ job ∈ db.jobs.get jobId, job.jobsManagerRunId = some "" → RunUpToDate now db
  | _ => True

/-- The two writers agree on a request exactly when they write no whole second, recount no run
for a job whose run id is the empty string, and delete by the same cutoff. -/
theorem agree_handle_iff (request : JobRequest) (newId : String) (now : Time) (db : Database) :
    Agree (handlePython request newId now db) (Rust.handle request newId now db) ↔
      LinesUp request newId now db := by
  cases request with
  | dequeueJob runId => simp [handlePython,Rust.handle,LinesUp,rust_dequeueJob]
  | cleanupStaleJobs olderThanSeconds =>
    cases olderThanSeconds with
    | missing => exact agree_cleanupStaleJobs_iff nofun
    | null => simp [handlePython,Rust.handle,LinesUp,Rust.cleanupStaleJobs,Agree]
    | value seconds => exact agree_cleanupStaleJobs_iff nofun
  | clearAllJobs => simp [handlePython,Rust.handle,LinesUp,rust_clearAllJobs]
  | clearActiveJobs => simp [handlePython,Rust.handle,LinesUp,rust_clearActiveJobs]
  | createJob data => exact agree_createJob_iff data newId
  | createJobIfMissing data => exact agree_createJobIfMissing_iff data newId
  | cancelExistingJobs postGuid currentJobId =>
    simp [handlePython,Rust.handle,LinesUp,rust_cancelExistingJobs]
  | updateJobAttribution jobId runId requestedByUserId billingUserId =>
    simp [handlePython,Rust.handle,LinesUp,rust_updateJobAttribution]
  | updateJobStatus jobId status step stepName progress totalSteps errorMessage =>
    simp only [handlePython,Rust.handle,LinesUp]
    cases hjob : db.jobs.get jobId with
    | none => simp [updateJobStatusAction,withJob,Rust.updateJobStatus,hjob,Agree]
    | some job =>
      have hid : job.id = jobId := (Table.get_eq_some.mp hjob).2
      simp only [Option.mem_some_iff,forall_eq',updateJobStatusAction,withJob,hjob,hid]
      by_cases hclosed : job.status = .cancelled ∧ status ≠ .cancelled
      · simp [Rust.updateJobStatus,hjob,hclosed]
      · rw [if_neg hclosed,rust_updateJobStatus hjob hclosed]
        refine (agree_modify_iff (.status jobId status) hjob rfl).trans ?_
        simp only [rustStatus_eq_iff,hclosed,not_false_eq_true,true_implies]
  | markCancelled jobId reason =>
    simp only [handlePython,Rust.handle,LinesUp]
    cases hjob : db.jobs.get jobId with
    | none => simp [markCancelledAction,withJob,Rust.markCancelled,hjob,Agree]
    | some job =>
      have hid : job.id = jobId := (Table.get_eq_some.mp hjob).2
      simp only [Option.mem_some_iff,forall_eq',markCancelledAction,withJob,hjob,hid]
      rw [rust_markCancelled hjob]
      exact (agree_modify_iff (.status jobId .cancelled) hjob rfl).trans (by simp only [true_and])
  | markClassificationParseError jobId =>
    simp [handlePython,Rust.handle,LinesUp,Rust.markClassificationParseError,
      rust_updateRequiredJobFlag,markClassificationParseErrorAction]
  | recordAdWindowsCount jobId count =>
    simp [handlePython,Rust.handle,LinesUp,rust_recordAdWindowsCount]
  | markAutoRetryAttempted jobId =>
    simp [handlePython,Rust.handle,LinesUp,Rust.markAutoRetryAttempted,
      rust_updateRequiredJobFlag,markAutoRetryAttemptedAction]
  | reassignPendingJobs runId =>
    simp [handlePython,Rust.handle,LinesUp,rust_reassignPendingJobs]

end

/-- A pending job without a history. -/
def pendingJob : ProcessingJob where
  id := "job"
  jobsManagerRunId := none
  postGuid := "post"
  status := .pending
  currentStep := some 0
  stepName := none
  totalSteps := some 4
  progressPercentage := none
  startedAt := none
  completedAt := none
  errorMessage := none
  createdAt := some 0
  requestedByUserId := none
  billingUserId := none
  stageHistory := none
  adWindowsCount := none
  hadClassificationParseError := false
  autoRetryAttempted := false

/-- At a whole second the two writers record a stage under different texts. -/
theorem agree_fails_wholeSecond :
    let db : Database := ⟨⟨[pendingJob],by decide⟩,none,[],[],[]⟩
    let request : JobRequest := .updateJobStatus "job" .running (.value 1) (.value "Downloading")
      .missing .missing .missing
    ¬Agree (handlePython request "" 1000000 db) (Rust.handle request "" 1000000 db) := by
  intro db request h
  have hrows := congrArg Table.rows h.2.1
  exact absurd (congrArg (List.map ProcessingJob.stageHistory) hrows) (by decide)

end Podly.Writer
