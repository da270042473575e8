import Podly.Store.Run
import Podly.Writer.PostActions

/-! The command executor of the writer: one action after the other, each committed or rolled back,
and what any of them can do to the row of a job. -/
namespace Podly.Writer
open Store

/-- The registered actions that touch `processing_job` or the run. Every other action and model
command is `otherTables`: it leaves them alone and may change the other tables in any way. -/
inductive Action
  | dequeueJob (runId : Option String)
  | cleanupStaleJobs (olderThanSeconds : Option ℚ)
  | clearAllJobs
  | clearActiveJobs
  | createJob (data : JobData)
  | createJobIfMissing (data : JobData)
  | cancelExistingJobs (postGuid currentJobId : String)
  | updateJobAttribution (jobId : String) (runId : Option String)
      (requestedByUserId billingUserId : Option ℤ)
  | updateJobStatus (jobId : String) (update : StatusUpdate)
  | markCancelled (jobId : String) (reason : Option String)
  | markClassificationParseError (jobId : String)
  | recordAdWindowsCount (jobId : String) (count : Option ℤ)
  | markAutoRetryAttempted (jobId : String)
  | reassignPendingJobs (runId : Option String)
  | cleanupMissingAudioPaths (disk : Disk)
  | clearPostProcessingData (postId : ℤ)
  | clearPostProcessingDataKeepTranscript (postId : ℤ)
  | cleanupProcessedPost (postId : ℤ)
  | refreshFeed (feedId : ℤ) (title : Option String) (created : List (Post × String))
      (updates : List PostUpdate)
  | addFeed (feed : Feed) (created : List (Post × String))
  | createDevTestFeed (feed : Feed) (created : List (Post × String))
  | deleteFeedCascade (feedId : ℤ)
  | deleteUser (userId : ℤ)
  | ensureActiveRun (trigger : String)
  | otherTables (posts : List Post) (feeds : List Feed) (modelCalls : List ModelCall)

/-- An action and the clock it reads. -/
structure Command where
  action : Action
  now : Time

/-- Run the action of a command. -/
def perform (db : Database) (cmd : Command) : Outcome :=
  match cmd.action with
  | .dequeueJob runId => dequeueJobAction runId cmd.now db
  | .cleanupStaleJobs olderThanSeconds => cleanupStaleJobsAction olderThanSeconds cmd.now db
  | .clearAllJobs => clearAllJobsAction db
  | .clearActiveJobs => clearActiveJobsAction cmd.now db
  | .createJob data => createJobAction data cmd.now db
  | .createJobIfMissing data => createJobIfMissingAction data cmd.now db
  | .cancelExistingJobs postGuid currentJobId =>
    cancelExistingJobsAction postGuid currentJobId cmd.now db
  | .updateJobAttribution jobId runId requestedByUserId billingUserId =>
    updateJobAttributionAction jobId runId requestedByUserId billingUserId db
  | .updateJobStatus jobId update => updateJobStatusAction jobId update cmd.now db
  | .markCancelled jobId reason => markCancelledAction jobId reason cmd.now db
  | .markClassificationParseError jobId => markClassificationParseErrorAction jobId db
  | .recordAdWindowsCount jobId count => recordAdWindowsCountAction jobId count db
  | .markAutoRetryAttempted jobId => markAutoRetryAttemptedAction jobId db
  | .reassignPendingJobs runId => reassignPendingJobsAction runId cmd.now db
  | .cleanupMissingAudioPaths disk => cleanupMissingAudioPathsAction disk cmd.now db
  | .clearPostProcessingData postId => clearPostProcessingDataAction postId db
  | .clearPostProcessingDataKeepTranscript postId =>
    clearPostProcessingDataKeepTranscriptAction postId db
  | .cleanupProcessedPost postId => cleanupProcessedPostAction postId cmd.now db
  | .refreshFeed feedId title created updates =>
    refreshFeedAction feedId title created updates cmd.now db
  | .addFeed feed created => addFeedAction feed created cmd.now db
  | .createDevTestFeed feed created => createDevTestFeedAction feed created cmd.now db
  | .deleteFeedCascade feedId => deleteFeedCascadeAction feedId db
  | .deleteUser userId => deleteUserAction userId db
  | .ensureActiveRun trigger => ensureActiveRunAction trigger cmd.now db
  | .otherTables posts feeds modelCalls => .ok (.other,{ db with posts, feeds, modelCalls })

/-- `process_command`: commit on success, roll back on failure. -/
def execute (db : Database) (cmd : Command) : Database :=
  match perform db cmd with
  | .ok (_,db') => db'
  | .error _ => db

/-- The job that a command takes off the queue, if it is a dequeue and finds one. -/
def dequeuedJob (db : Database) (cmd : Command) : Option String :=
  match cmd.action with
  | .dequeueJob runId =>
    match dequeueJobAction runId cmd.now db with
    | .ok (.dequeued jobId _,_) => some jobId
    | _ => none
  | _ => none

/-- A row as the actions insert it. -/
def IsNew (job : ProcessingJob) : Prop :=
  (∃ data now, job = newJob data now) ∨ ∃ now post jobId, job = devTestJob now post jobId

theorem isNew_firstJobs (now : Time) (created : List (Post × String)) :
    ∀ job ∈ firstJobs now created, IsNew job := by
  intro job hjob
  obtain ⟨c,-,rfl⟩ := List.mem_map.mp hjob
  exact .inl ⟨_,now,rfl⟩

/-- The command is a cleanup that changes a path of a post whose latest job is this one. -/
def Requeues (db : Database) (cmd : Command) (jobId : String) : Prop :=
  ∃ disk, cmd.action = .cleanupMissingAudioPaths disk ∧ ∃ post ∈ changedPosts disk db,
    (latestJob db.jobs.rows post.guid).map ProcessingJob.id = some jobId

/-- What one command can do to a stored row that it does not delete. -/
inductive RowChange (db : Database) (cmd : Command) (job : ProcessingJob) : ProcessingJob → Prop
  | kept (job' : ProcessingJob) : job'.status = job.status → job'.completedAt = job.completedAt →
      RowChange db cmd job job'
  | started (runId : Option String) : job.status = .pending →
      RowChange db cmd job (startJob runId cmd.now job)
  | updated (update : StatusUpdate) : (job.status = .cancelled → update.status = .cancelled) →
      RowChange db cmd job (applyStatus update cmd.now job)
  | cancelled (reason : Option String) : RowChange db cmd job (applyCancel reason cmd.now job)
  | requeued : Requeues db cmd job.id → RowChange db cmd job (requeue cmd.now job)

/-- What one command can do to a stored row, with the action that does it. -/
inductive RowStep (db : Database) (cmd : Command) (job : ProcessingJob) : ProcessingJob → Prop
  | kept (job' : ProcessingJob) : job'.status = job.status → job'.completedAt = job.completedAt →
      RowStep db cmd job job'
  | started (runId : Option String) : dequeuedJob db cmd = some job.id → job.status = .pending →
      RowStep db cmd job (startJob runId cmd.now job)
  | updated (update : StatusUpdate) : cmd.action = .updateJobStatus job.id update →
      (job.status = .cancelled → update.status = .cancelled) →
      RowStep db cmd job (applyStatus update cmd.now job)
  | cancelled (reason : Option String) : RowStep db cmd job (applyCancel reason cmd.now job)
  | requeued : Requeues db cmd job.id → RowStep db cmd job (requeue cmd.now job)

theorem RowStep.rowChange {db : Database} {cmd : Command} {job job' : ProcessingJob}
    (h : RowStep db cmd job job') : RowChange db cmd job job' := by
  cases h with
  | kept _ hstatus htime => exact .kept _ hstatus htime
  | started runId _ hpending => exact .started runId hpending
  | updated update _ hguard => exact .updated update hguard
  | cancelled reason => exact .cancelled reason
  | requeued hrequeues => exact .requeued hrequeues

/-- Every row of the second table comes from its row in the first one, or is new. -/
def RowsFrom (R : ProcessingJob → ProcessingJob → Prop) (t t' : JobTable) : Prop :=
  ∀ jobId job', t'.get jobId = some job' →
    (∃ job, t.get jobId = some job ∧ R job job') ∨ (t.get jobId = none ∧ IsNew job')

namespace RowsFrom
variable {R : ProcessingJob → ProcessingJob → Prop} {t t' t'' : JobTable}

theorem refl (hR : ∀ job, R job job) (t : JobTable) : RowsFrom R t t :=
  fun _ job' h => .inl ⟨job',h,hR job'⟩

theorem mapRows {f : ProcessingJob → ProcessingJob} (hf : ∀ job, (f job).id = job.id)
    (hR : ∀ job ∈ t.rows, R job (f job)) : RowsFrom R t (t.mapRows f hf) := by
  intro jobId job' h
  rw [Table.get_mapRows] at h
  obtain ⟨job,hjob,rfl⟩ := Option.map_eq_some_iff.mp h
  exact .inl ⟨job,hjob,hR job (Table.get_eq_some.mp hjob).1⟩

theorem modify {jobId : String} {f : ProcessingJob → ProcessingJob}
    (hf : ∀ job, (f job).id = job.id) (hrefl : ∀ job, R job job)
    (hR : ∀ job, t.get jobId = some job → R job (f job)) : RowsFrom R t (t.modify jobId f hf) := by
  apply mapRows
  intro job hjob
  split
  · rename_i hid
    exact hR job (Table.get_eq_some.mpr ⟨hjob,hid⟩)
  · exact hrefl job

theorem deleteWhere (hrefl : ∀ job, R job job) (p : ProcessingJob → Bool) :
    RowsFrom R t (t.deleteWhere p) := by
  intro jobId job' h
  rw [Table.get_deleteWhere] at h
  exact .inl ⟨job',(Option.filter_eq_some_iff.mp h).1,hrefl job'⟩

theorem insert (hrefl : ∀ job, R job job) {job : ProcessingJob} (hnew : IsNew job)
    (h : t.insert job = some t') : RowsFrom R t t' := by
  intro jobId job' hjob'
  rw [Table.get_insert h] at hjob'
  split at hjob'
  · rename_i hid
    exact .inr ⟨hid ▸ Table.insert_get_ne_none h,Option.some.inj hjob' ▸ hnew⟩
  · exact .inl ⟨job',hjob',hrefl job'⟩

theorem mono {R' : ProcessingJob → ProcessingJob → Prop} (h : RowsFrom R t t')
    (hR : ∀ job ∈ t.rows, ∀ job', R job job' → R' job job') : RowsFrom R' t t' := by
  intro jobId job' hjob'
  refine (h jobId job' hjob').imp_left ?_
  rintro ⟨job,hjob,hjj⟩
  exact ⟨job,hjob,hR job (Table.get_eq_some.mp hjob).1 job' hjj⟩

/-- Insertions only add new rows. -/
theorem insertJobs {db db' : Database} {jobs : List ProcessingJob} (hnew : ∀ job ∈ jobs, IsNew job)
    (h : insertJobs db jobs = .ok db') : RowsFrom Eq db.jobs db'.jobs := by
  induction jobs generalizing db with
  | nil =>
    simp only [Writer.insertJobs, Except.ok.injEq] at h
    exact h ▸ refl (fun _ => rfl) _
  | cons job jobs ih =>
    simp only [Writer.insertJobs, insertJob] at h
    rcases hins : db.jobs.insert job with _ | t
    · simp [hins] at h
    simp only [hins] at h
    intro jobId job' hjob'
    rcases ih (fun job hjob => hnew job (by simp [hjob])) h jobId job' hjob' with
      ⟨job₁,hjob₁,rfl⟩ | ⟨hnone,hjobnew⟩
    · exact insert (fun _ => rfl) (hnew job (by simp)) hins jobId job₁ hjob₁
    · have hnone' : db.jobs.get jobId = none := by
        have hget := Table.get_insert hins jobId
        rw [hnone] at hget
        split at hget
        · simp at hget
        · exact hget.symm
      exact .inr ⟨hnone',hjobnew⟩

end RowsFrom

theorem requeue_requeue (now : Time) (job : ProcessingJob) :
    requeue now (requeue now job) = requeue now job := by
  have hactive : (requeue now job).status.IsActive := by
    unfold requeue
    split
    · assumption
    · exact .inl rfl
  rw [requeue,if_pos hactive]

/-- Requeueing changes no column the latest job is chosen by. -/
theorem latestJob_requeueLatest (now : Time) (t : JobTable) (guid guid' : String) :
    (latestJob (requeueLatest now t guid).rows guid').map ProcessingJob.id =
      (latestJob t.rows guid').map ProcessingJob.id := by
  unfold requeueLatest
  split
  · rfl
  · rename_i latest hlatest
    let f : ProcessingJob → ProcessingJob := fun job =>
      if job.id = latest.id then requeue now job else job
    have hrequeue : ∀ job, (requeue now job).postGuid = job.postGuid ∧
        (requeue now job).createdAt = job.createdAt := by
      intro job
      unfold requeue
      split <;> exact ⟨rfl,rfl⟩
    have hf : ∀ job, (f job).id = job.id ∧ (f job).postGuid = job.postGuid ∧
        (f job).createdAt = job.createdAt := by
      intro job
      dsimp only [f]
      split
      · exact ⟨requeue_id now job,hrequeue job⟩
      · exact ⟨rfl,rfl,rfl⟩
    have hguid : ((fun job : ProcessingJob => decide (job.postGuid = guid')) ∘ f) =
        fun job => decide (job.postGuid = guid') := by
      funext job
      simp only [Function.comp_apply, (hf job).2.1]
    change (latestJob (t.rows.map f) guid').map ProcessingJob.id = _
    rw [latestJob,List.filter_map,hguid,firstDesc_map]
    simp only [(hf _).2.2, Option.map_map]
    congr 1
    funext job
    exact (hf job).1

theorem get_requeueLatest (now : Time) (t : JobTable) (guid jobId : String) :
    (requeueLatest now t guid).get jobId = (t.get jobId).map (fun job =>
      if (latestJob t.rows guid).map ProcessingJob.id = some job.id then requeue now job
      else job) := by
  unfold requeueLatest
  split
  · rename_i hnone
    simp [hnone]
  · rename_i latest hlatest
    rw [Table.get_modify,hlatest]
    cases hjob : t.get jobId with
    | none =>
      split
      · rename_i hid
        rw [← hid,hjob]
        rfl
      · rfl
    | some job =>
      have hid : job.id = jobId := (Table.get_eq_some.mp hjob).2
      simp only [Option.map_some, Option.some.injEq, hid]
      split
      · rename_i h
        rw [if_pos h.symm,← h,hjob,Option.map_some]
      · rename_i h
        rw [if_neg (fun he => h he.symm)]

/-- A cleanup requeues the rows that are the latest job of a changed post, and no others. -/
theorem get_foldl_requeueLatest (now : Time) (posts : List Post) (t : JobTable) (jobId : String) :
    (posts.foldl (fun jobs post => requeueLatest now jobs post.guid) t).get jobId =
      (t.get jobId).map (fun job =>
        if ∃ post ∈ posts, (latestJob t.rows post.guid).map ProcessingJob.id = some job.id then
          requeue now job
        else job) := by
  induction posts generalizing t with
  | nil => simp
  | cons post posts ih =>
    rw [List.foldl_cons,ih,get_requeueLatest,Option.map_map]
    congr 1
    funext job
    have hid : ∀ job : ProcessingJob, (if (latestJob t.rows post.guid).map ProcessingJob.id =
        some job.id then requeue now job else job).id = job.id := by
      intro job
      split
      · exact requeue_id now job
      · rfl
    simp only [Function.comp_apply, latestJob_requeueLatest, hid, List.exists_mem_cons_iff]
    by_cases hlatest : (latestJob t.rows post.guid).map ProcessingJob.id = some job.id
    · simp only [hlatest, if_true, true_or, requeue_requeue, ite_self]
    · simp only [hlatest, if_false, false_or]

theorem withJob_eq_ok {jobId : String} {db : Database} {k : ProcessingJob → Outcome}
    {x : Reply × Database} (h : withJob jobId db k = .ok x) :
    ∃ job, db.jobs.get jobId = some job ∧ k job = .ok x := by
  unfold withJob at h
  split at h
  · cases h
  · rename_i job hjob
    exact ⟨job,hjob,h⟩

/-- An action that only patches the row of one job. -/
theorem patchJob_eq_ok {jobId : String} {db db' : Database} {reply : Reply}
    {answer : ProcessingJob → Reply} {f : ProcessingJob → ProcessingJob}
    {hf : ∀ job, (f job).id = job.id}
    (h : withJob jobId db (fun job => .ok (answer job,{ db with
      jobs := db.jobs.modify jobId f hf })) = .ok (reply,db')) :
    db'.jobs = db.jobs.modify jobId f hf := by
  obtain ⟨job,-,hjob⟩ := withJob_eq_ok h
  cases hjob
  rfl

theorem execute_withJob_none {db : Database} {cmd : Command} {jobId : String}
    {k : ProcessingJob → Outcome} (hcmd : perform db cmd = withJob jobId db k)
    (hjob : db.jobs.get jobId = none) : execute db cmd = db := by
  rw [execute,hcmd,withJob,hjob]

theorem execute_withJob_some {db db' : Database} {cmd : Command} {jobId : String}
    {k : ProcessingJob → Outcome} {job : ProcessingJob} {reply : Reply}
    (hcmd : perform db cmd = withJob jobId db k) (hjob : db.jobs.get jobId = some job)
    (hk : k job = .ok (reply,db')) : execute db cmd = db' := by
  rw [execute,hcmd,withJob,hjob]
  dsimp only
  rw [hk]

theorem withPost_eq_ok {postId : ℤ} {db : Database} {k : Post → Outcome}
    {x : Reply × Database} (h : withPost postId db k = .ok x) : ∃ post, k post = .ok x := by
  unfold withPost at h
  split at h
  · cases h
  · rename_i post _
    exact ⟨post,h⟩

section
variable {db db' : Database} {now : Time} {reply : Reply}

theorem dequeueJobAction_eq_ok {runId : Option String}
    (h : dequeueJobAction runId now db = .ok (reply,db')) :
    (reply = .null ∧ db' = db) ∨ ∃ job ∈ db.jobs.rows, job.status = .pending ∧
      reply = .dequeued job.id job.postGuid ∧ db' = { db with
        jobs := db.jobs.modify job.id (startJob runId now) (fun _ => rfl) } := by
  unfold dequeueJobAction at h
  split at h
  · cases h
    exact .inl ⟨rfl,rfl⟩
  · split at h
    · cases h
      exact .inl ⟨rfl,rfl⟩
    · rename_i job hjob
      cases h
      have hmem := List.mem_filter.mp (firstAsc_mem hjob)
      exact .inr ⟨job,hmem.1,by simpa using hmem.2,rfl,rfl⟩

/-- The queue hands out pending jobs only. -/
theorem dequeuedJob_pending {cmd : Command} {jobId : String}
    (h : dequeuedJob db cmd = some jobId) :
    ∃ job, db.jobs.get jobId = some job ∧ job.status = .pending := by
  unfold dequeuedJob at h
  split at h
  · split at h
    · rename_i hperform
      cases h
      rcases dequeueJobAction_eq_ok hperform with ⟨hnull,-⟩ | ⟨job,hjob,hpending,hreply,-⟩
      · cases hnull
      · cases hreply
        exact ⟨job,Table.get_eq_some.mpr ⟨hjob,rfl⟩,hpending⟩
    · cases h
  · cases h

theorem createJobAction_eq_ok {data : JobData}
    (h : createJobAction data now db = .ok (reply,db')) :
    ∃ t, db.jobs.insert (newJob data now) = some t ∧ db'.jobs = t := by
  unfold createJobAction insertJob at h
  rcases hins : db.jobs.insert (newJob data now) with _ | t
  · simp [hins] at h
  · simp only [hins, Except.ok.injEq, Prod.mk.injEq] at h
    exact ⟨t,rfl,by rw [← h.2,recalculateIf_jobs]⟩

/-- The jobs that a new post or a test feed brings along, when the action succeeds. -/
theorem insertJobs_eq_ok {jobs : List ProcessingJob} {k : Database → Reply × Database}
    (hk : ∀ d, (k d).2.jobs = d.jobs)
    (h : (match insertJobs db jobs with
      | .error e => .error e
      | .ok d => .ok (k d) : Outcome) = .ok (reply,db')) :
    ∃ d, insertJobs db jobs = .ok d ∧ db'.jobs = d.jobs := by
  split at h
  · cases h
  · rename_i d hd
    refine ⟨d,hd,?_⟩
    rw [← hk d,Except.ok.inj h]

end

/-! What the actions do to the rows of the jobs -/

section Rows
variable {db db' : Database} {cmd : Command} {now : Time} {reply : Reply}

theorem RowStep.refl (db : Database) (cmd : Command) (job : ProcessingJob) : RowStep db cmd job job :=
  .kept job rfl rfl

theorem rows_unchanged : RowsFrom (RowStep db cmd) db.jobs db.jobs := .refl (.refl db cmd) _

theorem rows_deleteWhere (p : ProcessingJob → Bool) :
    RowsFrom (RowStep db cmd) db.jobs (db.jobs.deleteWhere p) := .deleteWhere (.refl db cmd) p

theorem rows_of_insertJobs {jobs : List ProcessingJob} {d : Database} (hnew : ∀ job ∈ jobs, IsNew job)
    (h : insertJobs db jobs = .ok d) : RowsFrom (RowStep db cmd) db.jobs d.jobs :=
  (RowsFrom.insertJobs hnew h).mono (fun job _ _ heq => heq ▸ .refl db cmd job)

theorem rows_patchJob {jobId : String} {answer : ProcessingJob → Reply}
    {f : ProcessingJob → ProcessingJob} {hf : ∀ job, (f job).id = job.id}
    (h : withJob jobId db (fun job => .ok (answer job,{ db with
      jobs := db.jobs.modify jobId f hf })) = .ok (reply,db'))
    (hkept : ∀ job, (f job).status = job.status ∧ (f job).completedAt = job.completedAt) :
    RowsFrom (RowStep db cmd) db.jobs db'.jobs := by
  rw [patchJob_eq_ok h]
  exact .modify hf (.refl db cmd) (fun job _ => .kept _ (hkept job).1 (hkept job).2)

theorem dequeueJobAction_rows {runId : Option String}
    (h : dequeueJobAction runId now db = .ok (reply,db')) :
    RowsFrom (RowStep db ⟨.dequeueJob runId,now⟩) db.jobs db'.jobs := by
  have hperform := h
  rcases dequeueJobAction_eq_ok h with ⟨-,rfl⟩ | ⟨job,hjob,hpending,rfl,rfl⟩
  · exact rows_unchanged
  · dsimp only
    refine .modify _ (.refl db _) ?_
    intro job' hjob'
    obtain ⟨hmem,hid⟩ := Table.get_eq_some.mp hjob'
    obtain rfl : job = job' := Table.eq_of_key_eq hjob hmem hid.symm
    refine .started runId ?_ hpending
    simp only [dequeuedJob,hperform]

theorem cleanupStaleJobsAction_rows {olderThanSeconds : Option ℚ}
    (h : cleanupStaleJobsAction olderThanSeconds now db = .ok (reply,db')) :
    RowsFrom (RowStep db cmd) db.jobs db'.jobs := by
  unfold cleanupStaleJobsAction at h
  dsimp only at h
  split at h
  · cases h
    exact rows_deleteWhere _
  · cases h

theorem clearAllJobsAction_rows (h : clearAllJobsAction db = .ok (reply,db')) :
    RowsFrom (RowStep db cmd) db.jobs db'.jobs := by
  cases h
  intro jobId job' hjob'
  simp at hjob'

theorem clearActiveJobsAction_rows (h : clearActiveJobsAction now db = .ok (reply,db')) :
    RowsFrom (RowStep db cmd) db.jobs db'.jobs := by
  simp only [clearActiveJobsAction, Except.ok.injEq, Prod.mk.injEq] at h
  rw [← h.2,recalculateIf_jobs]
  exact rows_deleteWhere _

theorem createJobAction_rows {data : JobData} (h : createJobAction data now db = .ok (reply,db')) :
    RowsFrom (RowStep db cmd) db.jobs db'.jobs := by
  obtain ⟨t,hins,rfl⟩ := createJobAction_eq_ok h
  exact .insert (.refl db cmd) (.inl ⟨data,now,rfl⟩) hins

theorem createJobIfMissingAction_rows {data : JobData}
    (h : createJobIfMissingAction data now db = .ok (reply,db')) :
    RowsFrom (RowStep db cmd) db.jobs db'.jobs := by
  unfold createJobIfMissingAction at h
  split at h
  · cases h
  · split at h
    · cases h
      exact rows_unchanged
    · exact createJobAction_rows h

theorem cancelExistingJobsAction_rows {postGuid currentJobId : String}
    (h : cancelExistingJobsAction postGuid currentJobId now db = .ok (reply,db')) :
    RowsFrom (RowStep db cmd) db.jobs db'.jobs := by
  unfold cancelExistingJobsAction at h
  dsimp only at h
  split at h
  · cases h
    rw [recalculateRunCounts_jobs]
    exact rows_deleteWhere _
  · cases h
    exact rows_deleteWhere _

theorem updateJobAttributionAction_rows {jobId : String} {runId : Option String}
    {requestedByUserId billingUserId : Option ℤ}
    (h : updateJobAttributionAction jobId runId requestedByUserId billingUserId db =
      .ok (reply,db')) : RowsFrom (RowStep db cmd) db.jobs db'.jobs := by
  unfold updateJobAttributionAction at h
  split at h
  · cases h
  · exact rows_patchJob h (fun _ => ⟨rfl,rfl⟩)

theorem updateJobStatusAction_rows {jobId : String} {update : StatusUpdate}
    (h : updateJobStatusAction jobId update now db = .ok (reply,db')) :
    RowsFrom (RowStep db ⟨.updateJobStatus jobId update,now⟩) db.jobs db'.jobs := by
  obtain ⟨job,hget,hjob⟩ := withJob_eq_ok h
  split at hjob
  · cases hjob
    exact rows_unchanged
  · rename_i hguard
    cases hjob
    rw [recalculateIf_jobs]
    dsimp only
    refine .modify _ (.refl db _) ?_
    intro job' hjob'
    obtain rfl : job = job' := Option.some.inj (hget.symm.trans hjob')
    have hid : job.id = jobId := (Table.get_eq_some.mp hget).2
    refine .updated update (by rw [hid]) (fun hcancelled => ?_)
    by_contra hne
    exact hguard ⟨hcancelled,hne⟩

theorem markCancelledAction_rows {jobId : String} {reason : Option String}
    (h : markCancelledAction jobId reason now db = .ok (reply,db')) :
    RowsFrom (RowStep db ⟨.markCancelled jobId reason,now⟩) db.jobs db'.jobs := by
  obtain ⟨job,-,hjob⟩ := withJob_eq_ok h
  cases hjob
  rw [recalculateIf_jobs]
  dsimp only
  exact .modify _ (.refl db _) (fun _ _ => .cancelled reason)

theorem reassignPendingJobsAction_rows {runId : Option String}
    (h : reassignPendingJobsAction runId now db = .ok (reply,db')) :
    RowsFrom (RowStep db cmd) db.jobs db'.jobs := by
  unfold reassignPendingJobsAction at h
  split at h
  · cases h
    rw [recalculateIf_jobs]
    dsimp only
    refine .mapRows _ (fun job _ => ?_)
    unfold reassign
    split
    · exact .kept _ rfl rfl
    · exact .refl db cmd job
  · cases h
    exact rows_unchanged

theorem cleanupMissingAudioPathsAction_rows {disk : Disk}
    (h : cleanupMissingAudioPathsAction disk now db = .ok (reply,db')) :
    RowsFrom (RowStep db ⟨.cleanupMissingAudioPaths disk,now⟩) db.jobs db'.jobs := by
  cases h
  intro jobId job' hjob'
  rw [get_foldl_requeueLatest] at hjob'
  obtain ⟨job,hjob,rfl⟩ := Option.map_eq_some_iff.mp hjob'
  refine .inl ⟨job,hjob,?_⟩
  split
  · rename_i hlatest
    exact .requeued ⟨disk,rfl,hlatest⟩
  · exact .refl db _ job

/-- The actions that clear what was made of a post delete its jobs. -/
theorem withPost_deleteWhere_rows {postId : ℤ} {p : Post → ProcessingJob → Bool}
    {answer : Post → Reply} {f : Post → Database} (hf : ∀ post, (f post).jobs =
      db.jobs.deleteWhere (p post))
    (h : withPost postId db (fun post => .ok (answer post,f post)) = .ok (reply,db')) :
    RowsFrom (RowStep db cmd) db.jobs db'.jobs := by
  obtain ⟨post,hpost⟩ := withPost_eq_ok h
  cases hpost
  rw [hf]
  exact rows_deleteWhere _

theorem cleanupProcessedPostAction_rows {postId : ℤ}
    (h : cleanupProcessedPostAction postId now db = .ok (reply,db')) :
    RowsFrom (RowStep db cmd) db.jobs db'.jobs := by
  unfold cleanupProcessedPostAction at h
  split at h
  · cases h
  · exact withPost_deleteWhere_rows (fun _ => recalculateRunCounts_jobs _ _) h

theorem refreshFeedAction_rows {feedId : ℤ} {title : Option String} {created : List (Post × String)}
    {updates : List PostUpdate}
    (h : refreshFeedAction feedId title created updates now db = .ok (reply,db')) :
    RowsFrom (RowStep db cmd) db.jobs db'.jobs := by
  unfold refreshFeedAction at h
  split at h
  · cases h
  · obtain ⟨d,hd,hjobs⟩ := insertJobs_eq_ok (fun d => recalculateRunCounts_jobs _ _) h
    rw [hjobs]
    exact rows_of_insertJobs (isNew_firstJobs now created) hd

theorem addFeedAction_rows {feed : Feed} {created : List (Post × String)}
    (h : addFeedAction feed created now db = .ok (reply,db')) :
    RowsFrom (RowStep db cmd) db.jobs db'.jobs := by
  obtain ⟨d,hd,hjobs⟩ := insertJobs_eq_ok (fun d => recalculateRunCounts_jobs _ _) h
  rw [hjobs]
  exact rows_of_insertJobs (isNew_firstJobs now created) hd

theorem createDevTestFeedAction_rows {feed : Feed} {created : List (Post × String)}
    (h : createDevTestFeedAction feed created now db = .ok (reply,db')) :
    RowsFrom (RowStep db cmd) db.jobs db'.jobs := by
  obtain ⟨d,hd,hjobs⟩ := insertJobs_eq_ok (fun d => rfl) h
  rw [hjobs]
  refine rows_of_insertJobs ?_ hd
  intro job hjob
  obtain ⟨c,-,rfl⟩ := List.mem_map.mp hjob
  exact .inr ⟨now,c.1,c.2,rfl⟩

theorem deleteFeedCascadeAction_rows {feedId : ℤ}
    (h : deleteFeedCascadeAction feedId db = .ok (reply,db')) :
    RowsFrom (RowStep db cmd) db.jobs db'.jobs := by
  unfold deleteFeedCascadeAction at h
  split at h
  · cases h
  · split at h
    · cases h
      exact rows_unchanged
    · cases h
      exact rows_deleteWhere _

theorem deleteUserAction_rows {userId : ℤ} (h : deleteUserAction userId db = .ok (reply,db')) :
    RowsFrom (RowStep db cmd) db.jobs db'.jobs := by
  cases h
  dsimp only
  exact .mapRows _ (fun job _ => .kept _ rfl rfl)

/-- What a command does to the rows of the jobs, when it succeeds. -/
theorem rowSteps_perform (h : perform db cmd = .ok (reply,db')) :
    RowsFrom (RowStep db cmd) db.jobs db'.jobs := by
  obtain ⟨action,now⟩ := cmd
  cases action with
  | dequeueJob runId => exact dequeueJobAction_rows h
  | cleanupStaleJobs olderThanSeconds => exact cleanupStaleJobsAction_rows h
  | clearAllJobs => exact clearAllJobsAction_rows h
  | clearActiveJobs => exact clearActiveJobsAction_rows h
  | createJob data => exact createJobAction_rows h
  | createJobIfMissing data => exact createJobIfMissingAction_rows h
  | cancelExistingJobs postGuid currentJobId => exact cancelExistingJobsAction_rows h
  | updateJobAttribution jobId runId requestedByUserId billingUserId =>
    exact updateJobAttributionAction_rows h
  | updateJobStatus jobId update => exact updateJobStatusAction_rows h
  | markCancelled jobId reason => exact markCancelledAction_rows h
  | markClassificationParseError jobId => exact rows_patchJob h (fun _ => ⟨rfl,rfl⟩)
  | recordAdWindowsCount jobId count => exact rows_patchJob h (fun _ => ⟨rfl,rfl⟩)
  | markAutoRetryAttempted jobId => exact rows_patchJob h (fun _ => ⟨rfl,rfl⟩)
  | reassignPendingJobs runId => exact reassignPendingJobsAction_rows h
  | cleanupMissingAudioPaths disk => exact cleanupMissingAudioPathsAction_rows h
  | clearPostProcessingData postId => exact withPost_deleteWhere_rows (fun _ => rfl) h
  | clearPostProcessingDataKeepTranscript postId => exact withPost_deleteWhere_rows (fun _ => rfl) h
  | cleanupProcessedPost postId => exact cleanupProcessedPostAction_rows h
  | refreshFeed feedId title created updates => exact refreshFeedAction_rows h
  | addFeed feed created => exact addFeedAction_rows h
  | createDevTestFeed feed created => exact createDevTestFeedAction_rows h
  | deleteFeedCascade feedId => exact deleteFeedCascadeAction_rows h
  | deleteUser userId => exact deleteUserAction_rows h
  | ensureActiveRun trigger =>
    cases h
    exact rows_unchanged
  | otherTables posts feeds modelCalls =>
    cases h
    exact rows_unchanged

end Rows

/-- What a command does to the rows of the jobs: a failed one does nothing. -/
theorem rowSteps_execute (db : Database) (cmd : Command) :
    RowsFrom (RowStep db cmd) db.jobs (execute db cmd).jobs := by
  unfold execute
  split
  · rename_i reply db' h
    exact rowSteps_perform h
  · exact .refl (fun job => .kept job rfl rfl) _

theorem rowsFrom_execute (db : Database) (cmd : Command) :
    RowsFrom (RowChange db cmd) db.jobs (execute db cmd).jobs :=
  (rowSteps_execute db cmd).mono (fun _ _ _ hstep => hstep.rowChange)

end Podly.Writer
