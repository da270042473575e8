import Podly.AutoRetry.Process

/-! What every part of a run but the creation of the retry keeps: no job comes to wait, no guard flag
is taken back, no job is new, and no post or feed gets another name. -/
namespace Podly.AutoRetry
open Store Episodes Programs
open Writer (Time StatusUpdate JobStatus ProcessingJob JobTable)

/-- What becomes of a job that is not deleted. -/
structure JobKept (job job' : ProcessingJob) : Prop where
  id : job.id = job'.id
  guid : job.postGuid = job'.postGuid
  flag : job.autoRetryAttempted = true → job'.autoRetryAttempted = true
  pending : job'.status = .pending → job.status = .pending

theorem JobKept.refl (job : ProcessingJob) : JobKept job job := ⟨rfl,rfl,fun h => h,fun h => h⟩

theorem JobKept.trans {a b c : ProcessingJob} (hab : JobKept a b) (hbc : JobKept b c) :
    JobKept a c :=
  ⟨hab.id.trans hbc.id,hab.guid.trans hbc.guid,fun h => hbc.flag (hab.flag h),
    fun h => hab.pending (hbc.pending h)⟩

/-- Every job was there before. -/
def JobsKept (jobs jobs' : JobTable) : Prop :=
  ∀ job' ∈ jobs'.rows, ∃ job ∈ jobs.rows, JobKept job job'

theorem JobsKept.refl (jobs : JobTable) : JobsKept jobs jobs :=
  fun job hjob => ⟨job,hjob,JobKept.refl job⟩

theorem JobsKept.trans {a b c : JobTable} (hab : JobsKept a b) (hbc : JobsKept b c) :
    JobsKept a c := by
  intro job'' hjob''
  obtain ⟨job',hjob',hkept'⟩ := hbc job'' hjob''
  obtain ⟨job,hjob,hkept⟩ := hab job' hjob'
  exact ⟨job,hjob,hkept.trans hkept'⟩

theorem JobsKept.modify {jobs : JobTable} {jobId : String} {f : ProcessingJob → ProcessingJob}
    (hkept : ∀ job, JobKept job (f job)) (hf : ∀ job, (f job).id = job.id) :
    JobsKept jobs (jobs.modify jobId f hf) := by
  intro job' hjob'
  obtain ⟨job,hjob,rfl⟩ := List.mem_map.mp hjob'
  refine ⟨job,hjob,?_⟩
  split
  · exact hkept job
  · exact JobKept.refl job

theorem JobsKept.deleteWhere (jobs : JobTable) (p : ProcessingJob → Bool) :
    JobsKept jobs (jobs.deleteWhere p) :=
  fun job hjob => ⟨job,(Table.mem_deleteWhere.mp hjob).1,JobKept.refl job⟩

/-- The columns of a post that no part of a run writes. -/
def identity (post : Post) : (ℕ × String) × String := (post.key,post.title)

/-- What the rows keep. -/
structure QuietRows (db db' : Database) : Prop where
  jobs : JobsKept db.jobs db'.jobs
  posts : ∀ id, (db'.posts.get id).map identity = (db.posts.get id).map identity
  feeds : db'.feeds = db.feeds

theorem QuietRows.refl (db : Database) : QuietRows db db :=
  ⟨JobsKept.refl db.jobs,fun _ => rfl,rfl⟩

theorem QuietRows.trans {a b c : Database} (hab : QuietRows a b) (hbc : QuietRows b c) :
    QuietRows a c :=
  ⟨hab.jobs.trans hbc.jobs,fun id => (hbc.posts id).trans (hab.posts id),
    hbc.feeds.trans hab.feeds⟩

/-- What a state keeps. -/
structure Quiet (s s' : State) : Prop where
  rows : QuietRows s.db s'.db
  handovers : s'.handovers = s.handovers

instance : Std.Refl Quiet := ⟨fun s => ⟨QuietRows.refl s.db,rfl⟩⟩

instance : IsTrans State Quiet :=
  ⟨fun _ _ _ hab hbc => ⟨hab.rows.trans hbc.rows,hbc.handovers.trans hab.handovers⟩⟩

/-- A command that keeps the rows from every database. -/
def QuietCommand (cmd : Command) : Prop := ∀ db, QuietRows db (execute db cmd)

section Commands

theorem applyPostColumns_title (columns : List PostColumn) (post : Post) :
    (applyPostColumns columns post).title = post.title := by
  induction columns generalizing post with
  | nil => rfl
  | cons column columns ih =>
    have hfirst : (column.apply post).title = post.title := by cases column <;> rfl
    exact (ih (column.apply post)).trans hfirst

theorem quietRows_columns (db : Database) (id : ℕ) (columns : List PostColumn) :
    QuietRows db { db with
      posts := db.posts.modify id (applyPostColumns columns) (applyPostColumns_id columns)
        (applyPostColumns_key columns) } := by
  have hidentity : ∀ post, identity (applyPostColumns columns post) = identity post := by
    intro post
    rw [identity,applyPostColumns_key,applyPostColumns_title]
    rfl
  exact ⟨JobsKept.refl _,Indexed.map_get_modify (applyPostColumns_id columns)
    (applyPostColumns_key columns) hidentity,rfl⟩

/-- A job action writes the jobs and the run only. -/
theorem execute_job (db : Database) (cmd : Writer.Command) :
    ∃ jobs run, execute db (.job cmd) = { db with jobs, run } := by
  unfold execute
  split
  · rename_i db' h
    change jobAction cmd db = .ok db' at h
    unfold jobAction at h
    split at h
    · split at h
      · cases h
      · cases h
        exact ⟨_,_,rfl⟩
    · cases h
  · exact ⟨_,_,rfl⟩

theorem execute_job_posts (db : Database) (cmd : Writer.Command) :
    (execute db (.job cmd)).posts = db.posts := by
  obtain ⟨jobs,run,h⟩ := execute_job db cmd
  rw [h]

theorem quietCommand_job {cmd : Writer.Command}
    (h : ∀ w reply w', Writer.perform w cmd = .ok (reply,w') → JobsKept w.jobs w'.jobs) :
    QuietCommand (.job cmd) := by
  intro db
  have hjobs : ∀ db', jobAction cmd db = .ok db' → QuietRows db db' := by
    intro db' hok
    unfold jobAction at hok
    split at hok
    · split at hok
      · cases hok
      · rename_i reply w' hperform
        cases hok
        exact ⟨h _ reply w' hperform,fun _ => rfl,rfl⟩
    · cases hok
  unfold execute
  split
  · rename_i db' hok
    exact hjobs db' hok
  · exact QuietRows.refl db

theorem withJob_modify {w w' : Writer.Database} {jobId : String} {reply : Writer.Reply}
    {k : ProcessingJob → Writer.Outcome}
    (hk : ∀ job, k job = .ok (reply,w') → JobsKept w.jobs w'.jobs)
    (h : Writer.withJob jobId w k = .ok (reply,w')) : JobsKept w.jobs w'.jobs := by
  unfold Writer.withJob at h
  split at h
  · cases h
  · exact hk _ h

theorem quietCommand_updateJobStatus (jobId : String) (update : StatusUpdate) (now : Time)
    (hstatus : update.status ≠ .pending) :
    QuietCommand (.job ⟨.updateJobStatus jobId update,now⟩) := by
  apply quietCommand_job
  intro w reply w' h
  refine withJob_modify (fun job hjob => ?_) h
  split at hjob
  · cases hjob
    exact JobsKept.refl _
  · cases hjob
    rw [Writer.recalculateIf_jobs]
    apply JobsKept.modify
    · intro job
      exact ⟨rfl,rfl,fun h => h,fun hpending => absurd hpending hstatus⟩
    · exact fun _ => rfl

theorem quietCommand_recordAdWindowsCount (jobId : String) (count : Option ℤ) (now : Time) :
    QuietCommand (.job ⟨.recordAdWindowsCount jobId count,now⟩) := by
  apply quietCommand_job
  intro w reply w' h
  refine withJob_modify (fun job hjob => ?_) h
  cases hjob
  apply JobsKept.modify
  · intro job
    exact ⟨rfl,rfl,fun h => h,fun h => h⟩
  · exact fun _ => rfl

theorem quietCommand_markClassificationParseError (jobId : String) (now : Time) :
    QuietCommand (.job ⟨.markClassificationParseError jobId,now⟩) := by
  apply quietCommand_job
  intro w reply w' h
  refine withJob_modify (fun job hjob => ?_) h
  cases hjob
  apply JobsKept.modify
  · intro job
    exact ⟨rfl,rfl,fun h => h,fun h => h⟩
  · exact fun _ => rfl

theorem quietCommand_markAutoRetryAttempted (jobId : String) (now : Time) :
    QuietCommand (.job ⟨.markAutoRetryAttempted jobId,now⟩) := by
  apply quietCommand_job
  intro w reply w' h
  refine withJob_modify (fun job hjob => ?_) h
  cases hjob
  apply JobsKept.modify
  · intro job
    exact ⟨rfl,rfl,fun _ => rfl,fun h => h⟩
  · exact fun _ => rfl

theorem quietCommand_cancelExistingJobs (guid : String) (jobId : Option String) (now : Time) :
    QuietCommand (.cancelExistingJobs guid jobId now) := by
  intro db
  change QuietRows db (cancelExistingJobs guid jobId now db)
  unfold cancelExistingJobs
  dsimp only
  split
  · exact ⟨JobsKept.deleteWhere _ _,fun _ => rfl,rfl⟩
  · exact ⟨JobsKept.deleteWhere _ _,fun _ => rfl,rfl⟩

theorem quietCommand_updatePost (id : ℕ) (columns : List PostColumn) :
    QuietCommand (.updatePost id columns) := by
  intro db
  unfold execute
  split
  · rename_i db' h
    change updatePost id columns db = .ok db' at h
    unfold updatePost withRow at h
    split at h
    · cases h
    · split at h
      · cases h
      · cases h
        exact quietRows_columns db id columns
  · exact QuietRows.refl db

theorem quietCommand_preparePostForAutoRetry (id : ℕ) :
    QuietCommand (.preparePostForAutoRetry id) := by
  intro db
  unfold execute
  split
  · rename_i db' h
    obtain ⟨post,-,hok⟩ := withPost_eq_ok h
    cases hok
    refine ⟨JobsKept.refl _,?_,rfl⟩
    apply Indexed.map_get_modify
    all_goals exact fun _ => rfl
  · exact QuietRows.refl db

end Commands

section Programs
variable {host : Host} {ep : Episode} {course : Course} {R : State → State → Prop}

theorem exec_send (call : Call) (cmd : Command) (s : State) :
    exec (send course call cmd) s =
      (if (course.reply call).raises then .error (.other "writer outcome unknown")
        else .ok ((course.reply call).reached && (perform s.db cmd).isOk),
      if (course.reply call).reached then { s with db := execute s.db cmd } else s) := by
  rw [send,exec_bind]
  simp only [exec_get]
  rw [exec_bind]
  simp only [exec_modify]
  split <;> rfl

/-- After a call the command is carried out or not, and the program goes on or stops there. -/
theorem exec_send_cases {α : Type} (call : Call) (cmd : Command) (f : Bool → Proc α) (s : State) :
    ∃ u, (u = s ∨ u = { s with db := execute s.db cmd }) ∧
      ((exec (send course call cmd >>= f) s).2 = u ∨
        ∃ success, exec (send course call cmd >>= f) s = exec (f success) u) := by
  refine ⟨if (course.reply call).reached then { s with db := execute s.db cmd } else s,?_,?_⟩
  · split
    · exact Or.inr rfl
    · exact Or.inl rfl
  · rw [exec_bind,exec_send]
    cases (course.reply call).raises with
    | true => exact Or.inl rfl
    | false => exact Or.inr ⟨_,rfl⟩

/-- A call whose result is not looked at. -/
theorem exec_send_pure (call : Call) (cmd : Command) (s : State) :
    (exec (send course call cmd >>= fun _ => (pure () : Proc Unit)) s).2 =
      if (course.reply call).reached then { s with db := execute s.db cmd } else s := by
  rw [exec_bind,exec_send]
  cases (course.reply call).raises <;> rfl

/-- A call keeps what its command keeps. -/
theorem keeps_send [Std.Refl R] {call : Call} {cmd : Command}
    (h : ∀ s : State, R s { s with db := execute s.db cmd }) :
    Keeps R (send course call cmd) := by
  intro s
  rw [exec_send]
  dsimp only
  split
  · exact h s
  · exact Std.Refl.refl s

theorem exec_attempt (p : Proc Unit) (s : State) :
    (exec (attempt p) s).2 = (exec p s).2 := by
  rw [attempt,exec_tryCatch]
  rcases exec p s with ⟨_ | _,_⟩ <;> rfl

theorem keeps_require [Std.Refl R] (success : Bool) : Keeps R (require success) := by
  unfold require
  split
  · exact keeps_pure _
  · exact keeps_throw _

theorem keeps_attempt [Std.Refl R] [IsTrans State R] {p : Proc Unit} (h : Keeps R p) :
    Keeps R (attempt p) :=
  keeps_tryCatch h (fun _ => keeps_pure _)

theorem keeps_rowOf [Std.Refl R] : Keeps R (rowOf ep) := by
  apply keeps_get_bind
  intro s
  split
  · exact keeps_throw _ s
  · exact keeps_pure _ s

theorem keeps_jobOf [Std.Refl R] (jobId : String) : Keeps R (jobOf jobId) := by
  apply keeps_get_bind
  intro s
  split
  · exact keeps_throw _ s
  · exact keeps_pure _ s

theorem statusUpdate_status {job : ProcessingJob} {status : JobStatus} {step : Option ℤ}
    {stepName : String} {progress : Option ℚ} {totalSteps : Option ℤ} {update : StatusUpdate}
    (h : statusUpdate job status step stepName progress totalSteps = some update) :
    update.status = status := by
  unfold statusUpdate at h
  dsimp only at h
  split at h
  · cases h
    rfl
  · split at h
    · cases h
    · cases h
      rfl
  · cases h

theorem keeps_updateJobStatus [Std.Refl R] [IsTrans State R] {call : Call} {jobId : String}
    {status : JobStatus} {step : Option ℤ} {stepName : String} {progress : Option ℚ}
    {totalSteps : Option ℤ}
    (h : ∀ (update : StatusUpdate) (now : Time) (s : State), update.status = status →
      R s { s with db := execute s.db (.job ⟨.updateJobStatus jobId update,now⟩) }) :
    Keeps R (updateJobStatus course call jobId status step stepName progress totalSteps) := by
  refine keeps_bind (keeps_jobOf jobId) (fun job => ?_)
  split
  · exact keeps_throw _
  · rename_i update hupdate
    apply keeps_bind (keeps_send (fun s => h update _ s (statusUpdate_status hupdate)))
    exact fun _ => keeps_pure _

theorem keeps_updatePostRow [Std.Refl R] [IsTrans State R] {call : Call}
    {columns : List PostColumn}
    (h : ∀ s : State, R s { s with db := execute s.db (.updatePost ep.postId columns) }) :
    Keeps R (updatePostRow ep course call columns) :=
  keeps_bind (keeps_send h) keeps_require

end Programs

section Parts
variable {host : Host} {ep : Episode} {course : Course} {jobId : String}

theorem quiet_command {cmd : Command} (h : QuietCommand cmd) (s : State) :
    Quiet s { s with db := execute s.db cmd } := ⟨h s.db,rfl⟩

theorem quiet_files (s : State) (files : String → Option (List UInt8)) :
    Quiet s { s with files } := ⟨QuietRows.refl s.db,rfl⟩

theorem quiet_updateJobStatus {call : Call} {status : JobStatus} {step : Option ℤ}
    {stepName : String} {progress : Option ℚ} {totalSteps : Option ℤ}
    (h : status ≠ .pending) :
    Keeps Quiet (updateJobStatus course call jobId status step stepName progress totalSteps) :=
  keeps_updateJobStatus (fun update now s hstatus =>
    quiet_command (quietCommand_updateJobStatus jobId update now (hstatus ▸ h)) s)

theorem quiet_updatePostRow {call : Call} {columns : List PostColumn} :
    Keeps Quiet (updatePostRow ep course call columns) :=
  keeps_updatePostRow (fun s => quiet_command (quietCommand_updatePost ep.postId columns) s)

theorem quiet_complete : Keeps Quiet (complete course jobId) :=
  keeps_bind (keeps_jobOf jobId) (fun _ => quiet_updateJobStatus (by decide))

theorem quiet_prepareForAutoRetry : Keeps Quiet (prepareForAutoRetry host ep course) := by
  apply keeps_attempt
  refine keeps_bind keeps_rowOf (fun row => ?_)
  refine keeps_bind ?_ (fun _ => ?_)
  · apply keeps_modify
    intro s
    split
    · exact quiet_files s _
    · exact Std.Refl.refl s
  apply keeps_bind
  · exact keeps_send (quiet_command (quietCommand_preparePostForAutoRetry ep.postId))
  exact fun _ => keeps_pure _

theorem quiet_openRun : Keeps Quiet (openRun host ep course jobId) := by
  refine keeps_bind (quiet_updateJobStatus (by decide)) (fun _ => ?_)
  refine keeps_bind keeps_rowOf (fun row => ?_)
  split
  · refine keeps_bind (keeps_jobOf jobId) (fun job => ?_)
    split
    · exact quiet_prepareForAutoRetry
    · exact keeps_pure _
  · exact keeps_throw _

theorem quiet_checkExistingProcessedAudio :
    Keeps Quiet (checkExistingProcessedAudio host ep course) := by
  refine keeps_bind keeps_rowOf (fun row => ?_)
  refine keeps_bind keeps_get (fun s => ?_)
  split
  · apply keeps_bind
    · split
      · exact keeps_pure _
      · exact quiet_updatePostRow
    · exact fun _ => keeps_pure _
  · apply keeps_bind
    · split
      · exact keeps_pure _
      · exact quiet_updatePostRow
    · exact fun _ => keeps_pure _

theorem quiet_writeFile (path : String) (bytes : List UInt8) :
    Keeps Quiet (modify (writeFile host path bytes) : Proc PUnit) :=
  keeps_modify (fun s => quiet_files s _)

theorem quiet_simulateDeveloperProcessing (title : String) (sample : List UInt8) :
    Keeps Quiet (simulateDeveloperProcessing host ep course jobId title sample) := by
  refine keeps_bind (quiet_updateJobStatus (by decide)) (fun _ => ?_)
  refine keeps_bind keeps_rowOf (fun row => ?_)
  refine keeps_bind (quiet_writeFile _ _) (fun _ => ?_)
  refine keeps_bind (quiet_writeFile _ _) (fun _ => ?_)
  exact keeps_bind quiet_updatePostRow (fun _ => quiet_complete)

theorem quiet_handleDownloadStep : Keeps Quiet (handleDownloadStep host ep course jobId) := by
  refine keeps_bind keeps_rowOf (fun row => ?_)
  refine keeps_bind keeps_get (fun s => ?_)
  split
  · exact keeps_pure _
  refine keeps_bind ?_ (fun _ => ?_)
  · split
    · exact keeps_pure _
    · exact quiet_updatePostRow
  dsimp only
  split
  · exact quiet_updatePostRow
  refine keeps_bind (quiet_updateJobStatus (by decide)) (fun _ => ?_)
  split
  · exact keeps_throw _
  · exact keeps_bind (quiet_writeFile _ _) (fun _ => quiet_updatePostRow)

theorem quiet_acquireProcessingLock (title : String) :
    Keeps Quiet (acquireProcessingLock host ep course jobId title) := by
  refine keeps_bind keeps_rowOf (fun row => ?_)
  split
  · exact keeps_throw _
  split
  · exact keeps_throw _
  · apply keeps_bind
    · exact keeps_send (quiet_command (quietCommand_cancelExistingJobs _ _ _))
    · exact fun _ => keeps_pure _

theorem quiet_removeUnprocessedAudio : Keeps Quiet (removeUnprocessedAudio host ep) := by
  refine keeps_bind keeps_rowOf (fun row => ?_)
  apply keeps_modify
  intro s
  split
  · exact ⟨QuietRows.refl s.db,rfl⟩
  split
  · exact Std.Refl.refl s
  split
  · exact Std.Refl.refl s
  · exact quiet_files s _

theorem quiet_performWork (processedPath : String) :
    Keeps Quiet (performWork host ep course jobId processedPath) := by
  refine keeps_bind (quiet_updateJobStatus (by decide)) (fun _ => ?_)
  refine keeps_bind (quiet_updateJobStatus (by decide)) (fun _ => ?_)
  refine keeps_bind (quiet_updateJobStatus (by decide)) (fun _ => ?_)
  refine keeps_bind ?_ (fun _ => ?_)
  · apply keeps_modify
    intro s
    have h := quietRows_columns s.db ep.postId (course.work.outputs.map (fun c => .output c.1 c.2))
    exact ⟨⟨h.jobs,h.posts,h.feeds⟩,rfl⟩
  refine keeps_bind ?_ (fun _ => ?_)
  · split
    · exact keeps_pure _
    · exact quiet_writeFile _ _
  split
  · exact keeps_throw _
  · exact keeps_pure _

theorem quiet_recordOutcome : Keeps Quiet (recordOutcome course jobId) := by
  refine keeps_bind ?_ (fun _ => ?_)
  · apply keeps_attempt
    apply keeps_bind
    · exact keeps_send (quiet_command (quietCommand_recordAdWindowsCount _ _ _))
    · exact fun _ => keeps_pure _
  split
  · apply keeps_attempt
    apply keeps_bind
    · exact keeps_send (quiet_command (quietCommand_markClassificationParseError _ _))
    · exact fun _ => keeps_pure _
  · exact keeps_pure _

theorem quiet_generateChapters (processedPath : String) :
    Keeps Quiet (generateChapters host course jobId processedPath) := by
  refine keeps_bind ?_ (fun _ => ?_)
  · split
    · exact quiet_updateJobStatus (by decide)
    · exact keeps_pure _
  refine keeps_bind ?_ (fun _ => ?_)
  · split
    · exact keeps_pure _
    · exact quiet_writeFile _ _
  split
  · exact keeps_throw _
  · exact keeps_pure _

theorem quiet_finalizeProcessing (processedPath : String) :
    Keeps Quiet (finalizeProcessing host ep course jobId processedPath) := by
  refine keeps_bind keeps_rowOf (fun row => ?_)
  refine keeps_bind keeps_get (fun s => ?_)
  refine keeps_bind quiet_removeUnprocessedAudio (fun _ => ?_)
  exact keeps_bind quiet_updatePostRow (fun _ => quiet_complete)

theorem quiet_adoptProcessed (processedPath : String) :
    Keeps Quiet (adoptProcessed host ep course jobId processedPath) := by
  refine keeps_bind quiet_removeUnprocessedAudio (fun _ => ?_)
  exact keeps_bind quiet_updatePostRow (fun _ => quiet_complete)

theorem quiet_failUnfinished (caller : ℕ) (message : String) :
    Keeps Quiet (failUnfinished course caller jobId message) := by
  apply keeps_attempt
  refine keeps_bind (keeps_jobOf jobId) (fun job => ?_)
  split
  · exact keeps_pure _
  · exact quiet_updateJobStatus (by decide)

end Parts

/-- What is read does not depend on the jobs. -/
def IgnoresJobs {β : Type} (g : State → β) : Prop :=
  ∀ s jobs run, g { s with db := { s.db with jobs, run } } = g s

namespace IgnoresJobs
variable {β : Type} {g : State → β} (hg : IgnoresJobs g) {ep : Episode} {course : Course}
  {jobId : String}

include hg

theorem command (cmd : Writer.Command) (s : State) :
    Same g s { s with db := execute s.db (.job cmd) } := by
  obtain ⟨jobs,run,h⟩ := execute_job s.db cmd
  rw [h]
  exact hg s jobs run

theorem updateJobStatus {call : Call} {status : JobStatus} {step : Option ℤ} {stepName : String}
    {progress : Option ℚ} {totalSteps : Option ℤ} : Keeps (Same g)
      (updateJobStatus course call jobId status step stepName progress totalSteps) :=
  keeps_updateJobStatus (fun _ _ s _ => hg.command _ s)

theorem complete : Keeps (Same g) (complete course jobId) :=
  keeps_bind (keeps_jobOf jobId) (fun _ => hg.updateJobStatus)

theorem recordOutcome : Keeps (Same g) (recordOutcome course jobId) := by
  refine keeps_bind ?_ (fun _ => ?_)
  · apply keeps_attempt
    exact keeps_bind (keeps_send (hg.command _)) (fun _ => keeps_pure _)
  split
  · apply keeps_attempt
    exact keeps_bind (keeps_send (hg.command _)) (fun _ => keeps_pure _)
  · exact keeps_pure _

theorem failUnfinished {caller : ℕ} {message : String} :
    Keeps (Same g) (failUnfinished course caller jobId message) := by
  apply keeps_attempt
  refine keeps_bind (keeps_jobOf jobId) (fun job => ?_)
  split
  · exact keeps_pure _
  · exact hg.updateJobStatus

end IgnoresJobs

end Podly.AutoRetry
