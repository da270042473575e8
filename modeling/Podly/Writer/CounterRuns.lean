import Podly.Writer.RunCounters

/-! The counters of the run along a run of job actions: what each action has to find in the database
to leave them exact. -/
namespace Podly.Writer
open Store

/-- The actions on jobs that change their status, their run or their rows. -/
def Action.IsJobAction : Action → Prop
  | .dequeueJob _ | .createJob _ | .createJobIfMissing _ | .cancelExistingJobs _ _
  | .clearActiveJobs | .clearAllJobs | .cleanupStaleJobs _ | .updateJobStatus _ _
  | .updateJobAttribution _ _ _ _ | .markCancelled _ _ | .reassignPendingJobs _ => True
  | _ => False

/-- The job the queue hands out next. -/
def nextJob (db : Database) : Option ProcessingJob :=
  if db.jobs.rows.any (fun job => job.status = .running) then none
  else firstAsc ProcessingJob.createdAt (db.jobs.rows.filter (fun job => job.status = .pending))

/-- A new row is unassigned, or the recount after its insertion is right. -/
def CreatesSound (data : JobData) (now : Time) (db : Database) : Prop :=
  truthy data.jobsManagerRunId = true → ∀ jobs, db.jobs.insert (newJob data now) = some jobs →
    RecountSound now { db with jobs }

/-- What an action has to find to leave the counters exact. The actions that do not recount may
only touch jobs the run does not see, or keep how it sees them; the others need their recount to be
right. -/
def CountsKept (db : Database) (cmd : Command) : Prop :=
  match cmd.action with
  | .dequeueJob runId => ∀ job, nextJob db = some job →
      KeepsCount db job (startJob runId cmd.now job)
  | .cleanupStaleJobs olderThanSeconds =>
    let cutoff := cmd.now - timedeltaMicroseconds (olderThanSeconds.getD 3600)
    InDatetimeRange cutoff → ∀ job ∈ db.jobs.rows, isStale cutoff job = true → Unseen db job
  | .clearAllJobs => ∀ job ∈ db.jobs.rows, Unseen db job
  | .clearActiveJobs =>
    let isActive : ProcessingJob → Bool := fun job => job.status.IsActive
    0 < db.jobs.rows.countP isActive →
      RecountSound cmd.now { db with jobs := db.jobs.deleteWhere isActive }
  | .createJob data => CreatesSound data cmd.now db
  | .createJobIfMissing data => data.postGuid ≠ "" →
      db.jobs.rows.any (fun job => job.postGuid = data.postGuid) = false →
      CreatesSound data cmd.now db
  | .cancelExistingJobs postGuid currentJobId =>
    let existing : ProcessingJob → Bool := fun job =>
      job.postGuid = postGuid && job.status.IsActive && job.id ≠ currentJobId
    0 < db.jobs.rows.countP existing →
      RecountSound cmd.now { db with jobs := db.jobs.deleteWhere existing }
  | .updateJobAttribution jobId runId requestedByUserId billingUserId => jobId ≠ "" →
      ∀ job, db.jobs.get jobId = some job →
        KeepsCount db job (applyAttribution runId requestedByUserId billingUserId job)
  | .updateJobStatus jobId update => ∀ job, db.jobs.get jobId = some job →
      ¬(job.status = .cancelled ∧ update.status ≠ .cancelled) →
      truthy job.jobsManagerRunId = true → RecountSound cmd.now { db with
        jobs := db.jobs.modify jobId (applyStatus update cmd.now) (fun _ => rfl) }
  | .markCancelled jobId reason => ∀ job, db.jobs.get jobId = some job →
      truthy job.jobsManagerRunId = true → RecountSound cmd.now { db with
        jobs := db.jobs.modify jobId (applyCancel reason cmd.now) (fun _ => rfl) }
  | .reassignPendingJobs runId => truthy runId = true →
      0 < db.jobs.rows.countP (fun job => job.status = .pending && job.jobsManagerRunId ≠ runId) →
      RecountSound cmd.now { db with jobs := db.jobs.mapRows (reassign runId) (reassign_id runId) }
  | _ => True

section
variable {db : Database} {now : Time}

theorem truthy_of_assigned {job : ProcessingJob} (h : job.Assigned) :
    truthy job.jobsManagerRunId = true := by
  rw [h]
  rfl

/-- A change of a job that is not assigned to the run, before or after, keeps the counters. -/
theorem keepsCount_of_unassigned {job job' : ProcessingJob} (h : ¬job.Assigned)
    (h' : ¬job'.Assigned) : KeepsCount db job job' := by
  intro run _
  have hmark : ∀ other : ProcessingJob, ¬other.Assigned → mark run.countersResetAt other = none :=
    fun other hother => mark_eq_none.mpr (fun hseen => hother hseen.1)
  exact ⟨by rw [hmark job h,hmark job' h'],fun hassigned => absurd hassigned h'⟩

theorem CountersExact.recalculate_iff (h : CountersExact db) (db' : Database)
    (hrun : db'.run = db.run) (now : Time) :
    CountersExact (recalculateRunCounts now db') ↔ RecountSound now db' := by
  obtain ⟨run,hsome,-⟩ := h
  exact countersExact_recalculate (hrun.trans hsome) now

theorem dequeueJobAction_eq (runId : Option String) : dequeueJobAction runId now db =
    match nextJob db with
    | none => .ok (.null,db)
    | some job => .ok (.dequeued job.id job.postGuid,
        { db with jobs := db.jobs.modify job.id (startJob runId now) (fun _ => rfl) }) := by
  unfold dequeueJobAction nextJob
  split
  · rfl
  · rfl

theorem get_nextJob {job : ProcessingJob} (h : nextJob db = some job) :
    db.jobs.get job.id = some job := by
  unfold nextJob at h
  split at h
  · cases h
  · exact Table.get_eq_some.mpr ⟨(List.mem_filter.mp (firstAsc_mem h)).1,rfl⟩

/-- A creation keeps the counters of an unassigned job, and recounts those of another. -/
theorem CountersExact.create_iff (h : CountersExact db) (data : JobData) :
    CountersExact (match createJobAction data now db with
      | .ok (_,db') => db'
      | .error _ => db) ↔ CreatesSound data now db := by
  unfold createJobAction insertJob CreatesSound
  cases hinsert : db.jobs.insert (newJob data now) with
  | none =>
    refine iff_of_true h ?_
    rintro - jobs hjobs
    cases hjobs
  | some jobs =>
    simp only [Option.some.injEq,forall_eq']
    by_cases hrun : truthy data.jobsManagerRunId = true
    · simp only [hrun,recalculateIf,if_true,true_imp_iff]
      exact h.recalculate_iff { db with jobs } rfl now
    · simp only [hrun,recalculateIf]
      refine iff_of_true (h.insert hinsert ?_) (fun he => absurd he (by simp))
      exact fun hassigned => hrun (truthy_of_assigned hassigned)

/-- An update of one job that recounts when the job has a run. -/
theorem CountersExact.update_iff (h : CountersExact db) {jobId : String} {job : ProcessingJob}
    {f : ProcessingJob → ProcessingJob} {hf : ∀ job, (f job).id = job.id}
    (hjob : db.jobs.get jobId = some job)
    (hrun : (f job).jobsManagerRunId = job.jobsManagerRunId) :
    CountersExact (recalculateIf (truthy job.jobsManagerRunId) now
        { db with jobs := db.jobs.modify jobId f hf }) ↔
      (truthy job.jobsManagerRunId = true →
        RecountSound now { db with jobs := db.jobs.modify jobId f hf }) := by
  by_cases htruthy : truthy job.jobsManagerRunId = true
  · simp only [htruthy,recalculateIf,if_true,true_imp_iff]
    exact h.recalculate_iff { db with jobs := db.jobs.modify jobId f hf } rfl now
  · have hunassigned : ¬job.Assigned := fun hassigned => htruthy (truthy_of_assigned hassigned)
    have hunassigned' : ¬(f job).Assigned := fun hassigned => hunassigned (hrun.symm.trans hassigned)
    simp only [htruthy,recalculateIf]
    refine iff_of_true ((h.modify_iff hjob).mpr ?_) (fun he => absurd he (by simp))
    exact keepsCount_of_unassigned hunassigned hunassigned'

/-- Where no pending job has another run, nothing is reassigned. -/
theorem mapRows_reassign {runId : Option String} {hid : ∀ job, (reassign runId job).id = job.id}
    (hnone : ¬0 < db.jobs.rows.countP
      (fun job => job.status = .pending && job.jobsManagerRunId ≠ runId)) :
    db.jobs.mapRows (reassign runId) hid = db.jobs := by
  apply Table.ext
  have hsame : ∀ job ∈ db.jobs.rows, reassign runId job = id job := by
    intro job hjob
    unfold reassign
    split
    · rename_i hpending
      have hrun : job.jobsManagerRunId = runId := by
        by_contra hother
        exact hnone (List.countP_pos_iff.mpr ⟨job,hjob,by simp [hpending,hother]⟩)
      rw [← hrun]
      rfl
    · rfl
  exact (List.map_congr_left hsame).trans (List.map_id _)

/-! What each job action needs to leave exact counters exact -/

theorem CountersExact.dequeueJob_iff (h : CountersExact db) (runId : Option String) :
    CountersExact (execute db ⟨.dequeueJob runId,now⟩) ↔
      CountsKept db ⟨.dequeueJob runId,now⟩ := by
  simp only [execute,perform,CountsKept]
  rw [dequeueJobAction_eq]
  cases hjob : nextJob db with
  | none => exact iff_of_true h (fun job hnone => by cases hnone)
  | some job =>
    simp only [Option.some.injEq,forall_eq']
    exact h.modify_iff (get_nextJob hjob)

theorem CountersExact.cleanupStaleJobs_iff (h : CountersExact db) (olderThanSeconds : Option ℚ) :
    CountersExact (execute db ⟨.cleanupStaleJobs olderThanSeconds,now⟩) ↔
      CountsKept db ⟨.cleanupStaleJobs olderThanSeconds,now⟩ := by
  simp only [execute,perform,CountsKept,cleanupStaleJobsAction]
  by_cases hrange : InDatetimeRange (now - timedeltaMicroseconds (olderThanSeconds.getD 3600))
  · simp only [hrange,true_imp_iff]
    exact h.deleteWhere_iff _
  · rw [if_neg hrange]
    exact iff_of_true h (fun hin => absurd hin hrange)

theorem CountersExact.clearAllJobs_iff (h : CountersExact db) :
    CountersExact (execute db ⟨.clearAllJobs,now⟩) ↔ CountsKept db ⟨.clearAllJobs,now⟩ := by
  simp only [execute,perform,CountsKept]
  have hempty : (Table.empty : JobTable) = db.jobs.deleteWhere (fun _ => true) := by
    apply Table.ext
    simp [Table.empty,Table.deleteWhere]
  simp only [clearAllJobsAction,hempty]
  rw [h.deleteWhere_iff]
  simp

theorem CountersExact.clearActiveJobs_iff (h : CountersExact db) :
    CountersExact (execute db ⟨.clearActiveJobs,now⟩) ↔ CountsKept db ⟨.clearActiveJobs,now⟩ := by
  simp only [execute,perform,CountsKept,clearActiveJobsAction,recalculateIf,decide_eq_true_eq]
  by_cases hcount : 0 < db.jobs.rows.countP (fun job => job.status.IsActive)
  · simp only [hcount,true_imp_iff]
    exact h.recalculate_iff { db with jobs := db.jobs.deleteWhere _ } rfl now
  · simp only [if_neg hcount]
    refine iff_of_true ((h.deleteWhere_iff _).mpr ?_) (fun hpos => absurd hpos hcount)
    intro job hjob hactive
    exact absurd (List.countP_pos_iff.mpr ⟨job,hjob,hactive⟩) hcount

theorem CountersExact.createJobIfMissing_iff (h : CountersExact db) (data : JobData) :
    CountersExact (execute db ⟨.createJobIfMissing data,now⟩) ↔
      CountsKept db ⟨.createJobIfMissing data,now⟩ := by
  simp only [execute,perform,CountsKept,createJobIfMissingAction]
  by_cases hguid : data.postGuid = ""
  · rw [if_pos hguid]
    exact iff_of_true h (fun hne => absurd hguid hne)
  · cases hexists : db.jobs.rows.any (fun job => job.postGuid = data.postGuid) with
    | true =>
      simp only [if_neg hguid,if_true]
      exact iff_of_true h (fun _ hmissing => by cases hmissing)
    | false =>
      simp only [ne_eq,hguid,not_false_eq_true,true_imp_iff]
      exact h.create_iff data

theorem CountersExact.cancelExistingJobs_iff (h : CountersExact db) (postGuid currentJobId : String) :
    CountersExact (execute db ⟨.cancelExistingJobs postGuid currentJobId,now⟩) ↔
      CountsKept db ⟨.cancelExistingJobs postGuid currentJobId,now⟩ := by
  simp only [execute,perform,CountsKept,cancelExistingJobsAction]
  by_cases hcount : 0 < db.jobs.rows.countP (fun job =>
      job.postGuid = postGuid && job.status.IsActive && job.id ≠ currentJobId)
  · simp only [hcount,true_imp_iff]
    exact h.recalculate_iff ⟨db.jobs.deleteWhere _,db.run,_,_,_⟩ rfl now
  · rw [if_neg hcount]
    refine iff_of_true ((h.deleteWhere_iff _).mpr ?_) (fun hpos => absurd hpos hcount)
    intro job hjob hexisting
    exact absurd (List.countP_pos_iff.mpr ⟨job,hjob,hexisting⟩) hcount

theorem CountersExact.updateJobAttribution_iff (h : CountersExact db) (jobId : String)
    (runId : Option String) (requestedByUserId billingUserId : Option ℤ) :
    CountersExact (execute db
        ⟨.updateJobAttribution jobId runId requestedByUserId billingUserId,now⟩) ↔
      CountsKept db ⟨.updateJobAttribution jobId runId requestedByUserId billingUserId,now⟩ := by
  simp only [execute,perform,CountsKept,updateJobAttributionAction,withJob]
  by_cases hid : jobId = ""
  · rw [if_pos hid]
    exact iff_of_true h (fun hne => absurd hid hne)
  · rw [if_neg hid]
    cases hjob : db.jobs.get jobId with
    | none => exact iff_of_true h (fun _ job hnone => by cases hnone)
    | some job =>
      simp only [hid,ne_eq,not_false_eq_true,true_imp_iff,Option.some.injEq,forall_eq']
      exact h.modify_iff hjob

theorem CountersExact.updateJobStatus_iff (h : CountersExact db) (jobId : String)
    (update : StatusUpdate) :
    CountersExact (execute db ⟨.updateJobStatus jobId update,now⟩) ↔
      CountsKept db ⟨.updateJobStatus jobId update,now⟩ := by
  simp only [execute,perform,CountsKept,updateJobStatusAction,withJob]
  cases hjob : db.jobs.get jobId with
  | none => exact iff_of_true h (fun job hnone => by cases hnone)
  | some job =>
    simp only [Option.some.injEq,forall_eq']
    by_cases hguard : job.status = .cancelled ∧ update.status ≠ .cancelled
    · rw [if_pos hguard]
      exact iff_of_true h (fun hnot => absurd hguard hnot)
    · simp only [hguard,not_false_eq_true,true_imp_iff]
      exact h.update_iff hjob rfl

theorem CountersExact.markCancelled_iff (h : CountersExact db) (jobId : String)
    (reason : Option String) :
    CountersExact (execute db ⟨.markCancelled jobId reason,now⟩) ↔
      CountsKept db ⟨.markCancelled jobId reason,now⟩ := by
  simp only [execute,perform,CountsKept,markCancelledAction,withJob]
  cases hjob : db.jobs.get jobId with
  | none => exact iff_of_true h (fun job hnone => by cases hnone)
  | some job =>
    simp only [Option.some.injEq,forall_eq']
    exact h.update_iff hjob rfl

theorem CountersExact.reassignPendingJobs_iff (h : CountersExact db) (runId : Option String) :
    CountersExact (execute db ⟨.reassignPendingJobs runId,now⟩) ↔
      CountsKept db ⟨.reassignPendingJobs runId,now⟩ := by
  simp only [execute,perform,CountsKept,reassignPendingJobsAction,recalculateIf,decide_eq_true_eq]
  by_cases hrun : truthy runId = true
  · by_cases hcount : 0 < db.jobs.rows.countP
        (fun job => job.status = .pending && job.jobsManagerRunId ≠ runId)
    · simp only [hrun,hcount,true_imp_iff]
      exact h.recalculate_iff { db with jobs := db.jobs.mapRows (reassign runId) _ } rfl now
    · simp only [if_pos hrun,if_neg hcount,mapRows_reassign hcount]
      exact iff_of_true h (fun _ hpos => absurd hpos hcount)
  · rw [if_neg hrun]
    exact iff_of_true h (fun htruthy => absurd htruthy hrun)

/-- One job action leaves exact counters exact exactly when it finds what it needs. -/
theorem CountersExact.execute_iff (h : CountersExact db) {cmd : Command}
    (hcmd : cmd.action.IsJobAction) : CountersExact (execute db cmd) ↔ CountsKept db cmd := by
  obtain ⟨action,now⟩ := cmd
  cases action with
  | dequeueJob runId => exact h.dequeueJob_iff runId
  | cleanupStaleJobs olderThanSeconds => exact h.cleanupStaleJobs_iff olderThanSeconds
  | clearAllJobs => exact h.clearAllJobs_iff
  | clearActiveJobs => exact h.clearActiveJobs_iff
  | createJob data => exact h.create_iff data
  | createJobIfMissing data => exact h.createJobIfMissing_iff data
  | cancelExistingJobs postGuid currentJobId => exact h.cancelExistingJobs_iff postGuid currentJobId
  | updateJobAttribution jobId runId requestedByUserId billingUserId =>
    exact h.updateJobAttribution_iff jobId runId requestedByUserId billingUserId
  | updateJobStatus jobId update => exact h.updateJobStatus_iff jobId update
  | markCancelled jobId reason => exact h.markCancelled_iff jobId reason
  | reassignPendingJobs runId => exact h.reassignPendingJobs_iff runId
  | _ => exact hcmd.elim

end

/-- Along every run of job actions from a run with zero counters and no jobs, the counters stay
exact at every point exactly when each action finds what it needs. -/
theorem countersExact_run_iff {db : Database} {run : JobsManagerRun} (hjobs : db.jobs = .empty)
    (hrun : db.run = some run) (hzero : run.counters = ⟨0,0,0,0,0,0⟩) {cmds : List Command}
    (hcmds : ∀ cmd ∈ cmds, cmd.action.IsJobAction) :
    (∀ before, before <+: cmds → CountersExact (Store.run execute db before)) ↔
      AllSteps execute CountsKept db cmds := by
  refine forall_prefix_iff (I := fun _ => True) (fun _ _ _ _ => trivial)
    (fun _ _ hcmd _ hexact => hexact.execute_iff hcmd) trivial ?_ hcmds
  refine ⟨run,hrun,?_,?_⟩
  · rw [hzero,hjobs]
    rfl
  · intro job hjob
    rw [hjobs] at hjob
    cases hjob

/-- A run as it is created. -/
def freshRun : JobsManagerRun :=
  ⟨.pending,"manual",some 0,none,0,0,0,0,0,0,some 0,0,0⟩

def freshDatabase : Database := ⟨.empty,some freshRun,[],[],[]⟩

/-- A pending job of the run. -/
def assignedJob : JobData :=
  ⟨"job","guid",some singletonRunId,none,some 1,none,none,false⟩

/-- A job is created, reported as running and reported as completed. -/
def reportedRun : List Command :=
  [⟨.createJob assignedJob,2⟩,
    ⟨.updateJobStatus "job" ⟨.running,some 1,some "Downloading",some 25,some 4,none⟩,3⟩,
    ⟨.updateJobStatus "job" ⟨.completed,some 4,some "Done",some 100,some 4,none⟩,4⟩]

theorem countsKept_reportedRun : AllSteps execute CountsKept freshDatabase reportedRun := by
  refine (countersExact_run_iff rfl rfl rfl ?_).mp ?_
  · simp [reportedRun,Action.IsJobAction]
  · have hexact : ∀ before ∈ reportedRun.inits,
        CountersExact (Store.run execute freshDatabase before) := by decide
    exact fun before hbefore => hexact before ((List.mem_inits before reportedRun).mpr hbefore)

/-- The job the queue hands out still counts as queued. -/
theorem countersExact_fails_dequeued :
    freshRun.counters = ⟨0,0,0,0,0,0⟩ ∧ ¬CountersExact (Store.run execute freshDatabase
      [⟨.createJob assignedJob,2⟩,⟨.dequeueJob (some singletonRunId),3⟩]) := by
  decide

end Podly.Writer
