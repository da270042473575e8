import Podly.AutoRetry.Quiet

/-! A run creates a retry only for a job that is not flagged, and the retry it creates is flagged. So
runs that begin with one job that a user created create at most one. -/
namespace Podly.AutoRetry
open Store Episodes Programs
open Writer (Time StatusUpdate JobStatus ProcessingJob JobTable)

/-- The path of the download, as the row has it. -/
def pathOf (ep : Episode) (s : State) : Option (Option String) :=
  (s.db.posts.get ep.postId).map Post.unprocessedAudioPath

/-- The job is flagged, where it is there. -/
def Flagged (jobId : String) (s : State) : Prop :=
  ∀ job ∈ s.db.jobs.rows, job.id = jobId → job.autoRetryAttempted = true

/-- The writer has created the retry, and a note is taken of it. -/
def Created (host : Host) (ep : Episode) (course : Course) (s t : State) : Prop :=
  ∃ row job jobs run, s.db.posts.get ep.postId = some row ∧
    jobs.rows = s.db.jobs.rows ++ [job] ∧ job.id = course.newId ∧ job.autoRetryAttempted = true ∧
    t = { s with
      handovers := s.handovers ++ [handoverOf host ep course row s],
      db := { s.db with jobs, run } }

/-- The guard comes to create the retry, with the download held back for it. -/
def Guarded (host : Host) (ep : Episode) (course : Course) (s t : State) : Prop :=
  ∃ u row, Quiet s u ∧ pathOf ep u = pathOf ep s ∧ u.files = s.files ∧
    u.db.posts.get ep.postId = some row ∧ u.suppress = some row.guid ∧ Created host ep course u t

section Guard
variable {host : Host} {ep : Episode} {course : Course} {jobId : String}

theorem Quiet.flagged {s t : State} (h : Quiet s t) (hs : Flagged jobId s) : Flagged jobId t := by
  intro job' hjob' hid
  obtain ⟨job,hjob,hkept⟩ := h.rows.jobs job' hjob'
  exact hkept.flag (hs job hjob (hkept.id.trans hid))

theorem exec_rowOf (s : State) : exec (rowOf ep) s =
    match s.db.posts.get ep.postId with
    | none => (.error (.other "Post not found"),s)
    | some row => (.ok row,s) := by
  rw [rowOf,exec_bind]
  simp only [exec_get]
  cases s.db.posts.get ep.postId <;> rfl

theorem exec_jobOf (s : State) : exec (jobOf jobId) s =
    match s.db.jobs.get jobId with
    | none => (.error (.other "Job not found"),s)
    | some job => (.ok job,s) := by
  rw [jobOf,exec_bind]
  simp only [exec_get]
  cases s.db.jobs.get jobId <;> rfl

/-- A job that is created has the id and the flag that are asked for. -/
theorem perform_createJob {data : Writer.JobData} {now : Time} {db db' : Database}
    (h : perform db (.job ⟨.createJob data,now⟩) = .ok db') :
    ∃ jobs run, jobs.rows = db.jobs.rows ++ [Writer.newJob data now] ∧
      db' = { db with jobs, run } := by
  change jobAction ⟨.createJob data,now⟩ db = .ok db' at h
  have hjob : IsJobAction (.createJob data) = true := rfl
  unfold jobAction at h
  rw [if_pos hjob] at h
  split at h
  · cases h
  rename_i reply w hperform
  cases h
  refine ⟨w.jobs,w.run,?_,rfl⟩
  change Writer.createJobAction data now ⟨db.jobs,db.run,[],[],[]⟩ = .ok (reply,w) at hperform
  unfold Writer.createJobAction Writer.insertJob at hperform
  dsimp only at hperform
  cases hinsert : db.jobs.insert (Writer.newJob data now) with
  | none =>
    rw [hinsert] at hperform
    cases hperform
  | some jobs =>
    rw [hinsert] at hperform
    cases hperform
    rw [Writer.recalculateIf_jobs]
    exact Table.rows_insert hinsert

theorem createRetryJob_spec (s : State) :
    (exec (createRetryJob host ep course jobId) s).2 = s ∨
      Created host ep course s (exec (createRetryJob host ep course jobId) s).2 := by
  rw [createRetryJob,exec_bind,exec_rowOf]
  cases hrow : s.db.posts.get ep.postId with
  | none => exact Or.inl rfl
  | some row =>
    dsimp only
    rw [exec_bind,exec_jobOf]
    cases hjob : s.db.jobs.get jobId with
    | none => exact Or.inl rfl
    | some job =>
      dsimp only
      rw [exec_bind]
      simp only [exec_modify]
      rw [exec_send_pure]
      cases (course.reply .createRetry).reached with
      | false => exact Or.inl rfl
      | true =>
        cases hperform : perform s.db (.job ⟨.createJob ⟨course.newId,row.guid,
            job.jobsManagerRunId,some "Queued (auto-retry)",none,none,none,true⟩,
            course.now .createRetry⟩) with
        | error e =>
          left
          simp [execute,hperform,Except.isOk,Except.toBool]
        | ok db' =>
          right
          obtain ⟨jobs,run,hrows,rfl⟩ := perform_createJob hperform
          refine ⟨row,_,jobs,run,hrow,hrows,rfl,rfl,?_⟩
          simp [execute,hperform,Except.isOk,Except.toBool]

theorem requeueOnce_spec (s : State) :
    Quiet s (exec (requeueOnce host ep course jobId) s).2 ∨
      Guarded host ep course s (exec (requeueOnce host ep course jobId) s).2 := by
  rw [requeueOnce,exec_bind,exec_rowOf]
  cases hrow : s.db.posts.get ep.postId with
  | none => exact Or.inl (Std.Refl.refl s)
  | some row =>
    dsimp only
    rw [exec_bind]
    simp only [exec_modify]
    rw [exec_attempt]
    obtain ⟨u,hu,hexec⟩ := @exec_send_cases course _ .markAttempted
      (.job ⟨.markAutoRetryAttempted jobId,course.now .markAttempted⟩)
      (fun _ => createRetryJob host ep course jobId) { s with suppress := some row.guid }
    obtain ⟨hquiet,hposts,hfiles,hsuppress⟩ : Quiet s u ∧ u.db.posts = s.db.posts ∧
        u.files = s.files ∧ u.suppress = some row.guid := by
      obtain rfl | rfl := hu
      · exact ⟨⟨QuietRows.refl s.db,rfl⟩,rfl,rfl,rfl⟩
      · exact ⟨⟨quietCommand_markAutoRetryAttempted _ _ s.db,rfl⟩,execute_job_posts s.db _,rfl,rfl⟩
    obtain h | ⟨_,h⟩ := hexec
    · rw [h]
      exact Or.inl hquiet
    · rw [h]
      obtain h | h := @createRetryJob_spec host ep course jobId u
      · rw [h]
        exact Or.inl hquiet
      · refine Or.inr ⟨u,row,hquiet,?_,hfiles,hposts ▸ hrow,hsuppress,h⟩
        rw [pathOf,hposts]
        rfl

/-- The guard creates a retry only for a job without the flag. -/
theorem evaluateZeroAdsGuard_spec (s : State) :
    Quiet s (exec (evaluateZeroAdsGuard host ep course jobId) s).2 ∨
      ¬Flagged jobId s ∧
        Guarded host ep course s (exec (evaluateZeroAdsGuard host ep course jobId) s).2 := by
  rw [evaluateZeroAdsGuard,exec_bind]
  have hrecord := @quiet_recordOutcome course jobId s
  have hsame : Same (fun s => (pathOf ep s,s.files)) s (exec (recordOutcome course jobId) s).2 :=
    IgnoresJobs.recordOutcome (fun _ _ _ => rfl) s
  rcases hexec : exec (recordOutcome course jobId) s with ⟨e | _,u⟩
  · rw [hexec] at hrecord
    exact Or.inl hrecord
  rw [hexec] at hrecord hsame
  dsimp only
  split
  · exact Or.inl hrecord
  split
  · exact Or.inl hrecord
  split
  · exact Or.inl hrecord
  rw [exec_bind,exec_jobOf]
  cases hjob : u.db.jobs.get jobId with
  | none => exact Or.inl hrecord
  | some job =>
    dsimp only
    split
    · exact Or.inl hrecord
    rename_i hflag
    split
    · exact Or.inl hrecord
    have hunflagged : ¬Flagged jobId s := by
      intro h
      obtain ⟨hmem,hid⟩ := Table.get_eq_some.mp hjob
      exact hflag (hrecord.flagged h job hmem hid)
    obtain h | ⟨v,row,hquiet,hpath,hfiles,hrest⟩ := @requeueOnce_spec host ep course jobId u
    · exact Or.inl (IsTrans.trans _ _ _ hrecord h)
    · exact Or.inr ⟨hunflagged,v,row,IsTrans.trans _ _ _ hrecord hquiet,
        hpath.trans (congrArg Prod.fst hsame),hfiles.trans (congrArg Prod.snd hsame),hrest⟩

end Guard

end Podly.AutoRetry
