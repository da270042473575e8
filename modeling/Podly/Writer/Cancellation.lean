import Podly.Writer.Executor

/-! What happens to a cancelled job over the rest of a run of the writer. -/
namespace Podly.Writer
open Store

/-- Every cancelled row has its completion time. -/
def CancelledCompleted (db : Database) : Prop :=
  ∀ jobId job, db.jobs.get jobId = some job → job.status = .cancelled → job.completedAt.isSome

/-- The row of a job is cancelled and has its completion time. -/
def IsCancelled (db : Database) (jobId : String) : Prop :=
  ∃ job, db.jobs.get jobId = some job ∧ job.status = .cancelled ∧ job.completedAt.isSome

/-- At some point of the run the job has no row. -/
def DeletedAlong (db : Database) (jobId : String) (cmds : List Command) : Prop :=
  ∃ before, before <+: cmds ∧ (run execute db before).jobs.get jobId = none

section
variable {db : Database} {cmd : Command} {job job' : ProcessingJob} {jobId : String}

theorem applyStatus_completedAt {update : StatusUpdate} {now : Time}
    (h : update.status.IsFinished) : (applyStatus update now job).completedAt.isSome := by
  simp only [applyStatus]
  split
  · rfl
  · rename_i hset
    exact Option.isSome_iff_ne_none.mpr (fun hnone => hset ⟨h,hnone⟩)

theorem IsNew.completed (h : IsNew job) (hcancelled : job.status = .cancelled) :
    job.completedAt.isSome := by
  rcases h with ⟨data,now,rfl⟩ | ⟨now,post,jobId,rfl⟩
  · cases hcancelled
  · cases hcancelled

theorem requeue_not_cancelled (now : Time) (job : ProcessingJob) :
    (requeue now job).status ≠ .cancelled := by
  unfold requeue
  split
  · rename_i hactive
    rcases hactive with h | h <;> simp [h]
  · simp

/-- Only a requeue takes a cancelled row back, and no change lets a cancelled row lose its time. -/
theorem RowChange.cancelled_completed (h : RowChange db cmd job job')
    (hjob : job.status = .cancelled → job.completedAt.isSome)
    (hcancelled : job'.status = .cancelled) : job'.completedAt.isSome := by
  cases h with
  | kept _ hstatus htime =>
    rw [htime]
    exact hjob (hstatus ▸ hcancelled)
  | started runId hpending => cases hcancelled
  | updated update hguard => exact applyStatus_completedAt (.inr (.inr (.inl hcancelled)))
  | cancelled reason => rfl
  | requeued hrequeues => exact absurd hcancelled (requeue_not_cancelled cmd.now job)

theorem RowChange.cancelled_of_cancelled (h : RowChange db cmd job job')
    (hrequeue : ¬Requeues db cmd job.id) (hcancelled : job.status = .cancelled) :
    job'.status = .cancelled := by
  cases h with
  | kept _ hstatus htime => rw [hstatus,hcancelled]
  | started runId hpending => rw [hcancelled] at hpending; cases hpending
  | updated update hguard => exact hguard hcancelled
  | cancelled reason => rfl
  | requeued hrequeues => exact absurd hrequeues hrequeue

/-- One command keeps the completion times of cancelled rows. -/
theorem cancelledCompleted_execute (h : CancelledCompleted db) (cmd : Command) :
    CancelledCompleted (execute db cmd) := by
  intro jobId job' hjob' hcancelled
  rcases rowsFrom_execute db cmd jobId job' hjob' with ⟨job,hjob,hchange⟩ | ⟨-,hnew⟩
  · exact hchange.cancelled_completed (h jobId job hjob) hcancelled
  · exact hnew.completed hcancelled

/-- One command that does not requeue the job deletes its cancelled row or keeps it cancelled. -/
theorem isCancelled_execute (h : IsCancelled db jobId) (hrequeue : ¬Requeues db cmd jobId) :
    (execute db cmd).jobs.get jobId = none ∨ IsCancelled (execute db cmd) jobId := by
  obtain ⟨job,hjob,hcancelled,htime⟩ := h
  rcases hjob' : (execute db cmd).jobs.get jobId with _ | job'
  · exact .inl rfl
  · right
    rcases rowsFrom_execute db cmd jobId job' hjob' with ⟨job₁,hjob₁,hchange⟩ | ⟨hnone,-⟩
    · obtain rfl : job = job₁ := Option.some.inj (hjob.symm.trans hjob₁)
      have hid : job.id = jobId := (Table.get_eq_some.mp hjob).2
      have hcancelled' := hchange.cancelled_of_cancelled (hid ▸ hrequeue) hcancelled
      exact ⟨job',hjob',hcancelled',hchange.cancelled_completed (fun _ => htime) hcancelled'⟩
    · rw [hjob] at hnone
      cases hnone

end

theorem cancelledCompleted_run {db : Database} (h : CancelledCompleted db) (cmds : List Command) :
    CancelledCompleted (run execute db cmds) :=
  run_invariant (I := CancelledCompleted) (fun _ cmd hdb => cancelledCompleted_execute hdb cmd) h
    cmds

theorem DeletedAlong.cons {db : Database} {jobId : String} {cmd : Command} {cmds : List Command}
    (h : DeletedAlong (execute db cmd) jobId cmds) : DeletedAlong db jobId (cmd::cmds) := by
  obtain ⟨before,hpre,hnone⟩ := h
  exact ⟨cmd::before,List.cons_prefix_cons.mpr ⟨rfl,hpre⟩,hnone⟩

/-- A run that never requeues the job deletes its cancelled row at some point or keeps it. -/
theorem isCancelled_run {db : Database} {jobId : String} (h : IsCancelled db jobId)
    {cmds : List Command}
    (hcmds : AllSteps execute (fun db cmd => ¬Requeues db cmd jobId) db cmds) :
    DeletedAlong db jobId cmds ∨ IsCancelled (run execute db cmds) jobId := by
  induction cmds generalizing db with
  | nil => exact .inr h
  | cons cmd cmds ih =>
    obtain ⟨hcmd,hcmds⟩ := hcmds
    rcases isCancelled_execute h hcmd with hnone | hcancelled
    · exact .inl ⟨[cmd],List.cons_prefix_cons.mpr ⟨rfl,List.nil_prefix⟩,hnone⟩
    · exact (ih hcancelled hcmds).imp_left DeletedAlong.cons

/-- A requeueing cleanup puts a cancelled row back into the queue. -/
theorem Requeues.pending {db : Database} {cmd : Command} {jobId : String} {job : ProcessingJob}
    (h : Requeues db cmd jobId) (hjob : db.jobs.get jobId = some job)
    (hcancelled : job.status = .cancelled) :
    (execute db cmd).jobs.get jobId = some (requeue cmd.now job) ∧
      (requeue cmd.now job).status = .pending := by
  obtain ⟨disk,haction,hlatest⟩ := h
  obtain ⟨action,now⟩ := cmd
  obtain rfl : action = .cleanupMissingAudioPaths disk := haction
  have hid : job.id = jobId := (Table.get_eq_some.mp hjob).2
  constructor
  · change ((changedPosts disk db).foldl (fun jobs post => requeueLatest now jobs post.guid)
      db.jobs).get jobId = _
    rw [get_foldl_requeueLatest,hjob,Option.map_some,hid,if_pos hlatest]
  · have hactive : ¬job.status.IsActive := by
      rw [hcancelled]
      decide
    simp [requeue, hactive]

/-- Cancellation is absorbing but for the cleanup of missing audio. From the point on at which a
job is cancelled, as long as no cleanup changes a path of a post whose latest job it is, its row
is deleted or still cancelled with its completion time, and the queue never hands it out. Such a
cleanup makes it pending. -/
theorem cancelled_until_requeued {db : Database} (hdb : CancelledCompleted db)
    (before after : List Command) {jobId : String} {job : ProcessingJob}
    (hjob : (run execute db before).jobs.get jobId = some job)
    (hcancelled : job.status = .cancelled)
    (hafter : AllSteps execute (fun db cmd => ¬Requeues db cmd jobId) (run execute db before)
      after) :
    DeletedAlong (run execute db before) jobId after ∨
      (IsCancelled (run execute db (before ++ after)) jobId ∧
        ∀ cmd, dequeuedJob (run execute db (before ++ after)) cmd ≠ some jobId ∧
          (Requeues (run execute db (before ++ after)) cmd jobId →
            ∃ job', (execute (run execute db (before ++ after)) cmd).jobs.get jobId = some job' ∧
              job'.status = .pending)) := by
  have hstart : IsCancelled (run execute db before) jobId :=
    ⟨job,hjob,hcancelled,cancelledCompleted_run hdb before jobId job hjob hcancelled⟩
  rw [run_append]
  refine (isCancelled_run hstart hafter).imp_right (fun hend => ⟨hend,fun cmd => ⟨?_,?_⟩⟩)
  · intro hdequeued
    obtain ⟨job₁,hjob₁,hcancelled₁,-⟩ := hend
    obtain ⟨job₂,hjob₂,hpending⟩ := dequeuedJob_pending hdequeued
    obtain rfl : job₁ = job₂ := Option.some.inj (hjob₁.symm.trans hjob₂)
    rw [hcancelled₁] at hpending
    cases hpending
  · intro hrequeues
    obtain ⟨job₁,hjob₁,hcancelled₁,-⟩ := hend
    obtain ⟨hget,hpending⟩ := hrequeues.pending hjob₁ hcancelled₁
    exact ⟨_,hget,hpending⟩

/-- A whitelisted episode whose processed audio is stored at a path. -/
def storedEpisode : Database :=
  ⟨Table.empty,none,[⟨1,"guid","Episode",1,true,none,some "/srv/episode.mp3"⟩],[⟨1,"Feed"⟩],[]⟩

theorem storedEpisode_cancelledCompleted : CancelledCompleted storedEpisode := by
  intro jobId job hjob
  cases hjob

def createThenCancel : List Command :=
  [⟨.createJob ⟨"job","guid",none,none,none,none,none,false⟩,0⟩,⟨.markCancelled "job" none,1⟩]

/-- A late update of the worker and a second cancellation. -/
def lateWrites : List Command :=
  [⟨.updateJobStatus "job" ⟨.running,some 2,some "Transcribing",some 50,none,none⟩,2⟩,
    ⟨.markCancelled "job" none,3⟩]

/-- The row of the cancelled job. -/
def cancelledRow : ProcessingJob :=
  applyCancel none 1 (newJob ⟨"job","guid",none,none,none,none,none,false⟩ 0)

theorem cancelled_until_requeued_lateWrites :
    DeletedAlong (run execute storedEpisode createThenCancel) "job" lateWrites ∨
      (IsCancelled (run execute storedEpisode (createThenCancel ++ lateWrites)) "job" ∧
        ∀ cmd, dequeuedJob (run execute storedEpisode (createThenCancel ++ lateWrites)) cmd ≠
            some "job" ∧
          (Requeues (run execute storedEpisode (createThenCancel ++ lateWrites)) cmd "job" →
            ∃ job', (execute (run execute storedEpisode (createThenCancel ++ lateWrites))
              cmd).jobs.get "job" = some job' ∧ job'.status = .pending)) := by
  have hrow : (run execute storedEpisode createThenCancel).jobs.get "job" = some cancelledRow := by
    decide
  apply cancelled_until_requeued storedEpisode_cancelledCompleted createThenCancel lateWrites hrow
    rfl
  refine ⟨?_,?_,trivial⟩
  · rintro ⟨disk,haction,-⟩
    cases haction
  · rintro ⟨disk,haction,-⟩
    cases haction

/-- A cleanup on a disk that has lost the episode. -/
def cleanupLostAudio : Command :=
  ⟨.cleanupMissingAudioPaths ⟨"/srv",id,fun _ => none,fun _ => false⟩,2⟩

/-- The cancelled job is neither deleted nor still cancelled, and is dequeued again. -/
theorem cancelled_requeued_lostAudio :
    IsCancelled (run execute storedEpisode createThenCancel) "job" ∧
      ¬(DeletedAlong (run execute storedEpisode createThenCancel) "job" [cleanupLostAudio] ∨
        IsCancelled (run execute storedEpisode (createThenCancel ++ [cleanupLostAudio])) "job") ∧
      dequeuedJob (run execute storedEpisode (createThenCancel ++ [cleanupLostAudio]))
        ⟨.dequeueJob none,3⟩ = some "job" := by
  have hbefore : (run execute storedEpisode createThenCancel).jobs.get "job" =
      some cancelledRow := by
    decide
  have hafter : (run execute storedEpisode (createThenCancel ++ [cleanupLostAudio])).jobs.get
      "job" = some (requeue 2 cancelledRow) := by
    decide +kernel
  refine ⟨⟨cancelledRow,hbefore,rfl,rfl⟩,?_,by decide +kernel⟩
  rintro (⟨before,hpre,hnone⟩ | ⟨job,hjob,hcancelled,-⟩)
  · cases before with
    | nil =>
      rw [run_nil,hbefore] at hnone
      cases hnone
    | cons cmd before =>
      obtain ⟨rfl,hnil⟩ := List.cons_prefix_cons.mp hpre
      obtain rfl := List.prefix_nil.mp hnil
      rw [← run_append,hafter] at hnone
      cases hnone
  · rw [hafter] at hjob
    cases hjob
    exact requeue_not_cancelled 2 cancelledRow hcancelled

end Podly.Writer
