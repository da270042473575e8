import Podly.JobsManager.Clients
import Podly.Store.Run

/-! Which interleavings of the clients keep finished jobs finished and running jobs from going back
to the queue. -/
namespace Podly.JobsManager
open Store Writer

/-- A finished status stays as it is and a running one does not go back to pending. -/
def StatusKept (s s' : JobStatus) : Prop :=
  (s.IsFinished → s' = s) ∧ (s = .running → s' ≠ .pending)

/-- A finished status stays as it is and a running one stays until it is finished. -/
def StatusAdvances (s s' : JobStatus) : Prop :=
  (s.IsFinished → s' = s) ∧ (s = .running → s' = .running ∨ s'.IsFinished)

/-- Every job of the first database is in the second one, with related statuses. -/
def Related (R : JobStatus → JobStatus → Prop) (db db' : Database) : Prop :=
  ∀ jobId job, db.jobs.get jobId = some job →
    ∃ job', db'.jobs.get jobId = some job' ∧ R job.status job'.status

/-- The statuses of a finished job that was not cancelled. -/
def IsEnded (s : JobStatus) : Prop := s = .completed ∨ s = .failed ∨ s = .skipped

/-- The row a command is about still has a status that the command may overwrite: a cancellation
finds no ended job; an update finds an ended job only with the status it brings itself, and brings
a running job no pending. -/
def FindsCurrent (db : Database) (cmd : Command) : Prop :=
  match cmd.action with
  | .updateJobStatus jobId update => ∀ job, db.jobs.get jobId = some job →
    (IsEnded job.status → update.status = job.status) ∧
      (job.status = .running → update.status ≠ .pending)
  | .markCancelled jobId _ => ∀ job, db.jobs.get jobId = some job → ¬IsEnded job.status
  | _ => True

/-- The command of a step, if there is one, finds a current row. -/
def Service.FindsCurrent (srv : Service) (label : Label) : Prop :=
  ∀ cmd, srv.command label = some cmd → JobsManager.FindsCurrent srv.db cmd

theorem isFinished_iff {s : JobStatus} : s.IsFinished ↔ s = .cancelled ∨ IsEnded s := by
  unfold JobStatus.IsFinished IsEnded
  tauto

theorem StatusAdvances.refl (s : JobStatus) : StatusAdvances s s := ⟨fun _ => rfl,fun h => .inl h⟩

theorem StatusAdvances.trans {s t u : JobStatus} (hst : StatusAdvances s t)
    (htu : StatusAdvances t u) : StatusAdvances s u := by
  constructor
  · intro hs
    obtain rfl := hst.1 hs
    exact htu.1 hs
  · intro hs
    rcases hst.2 hs with ht | ht
    · exact htu.2 ht
    · exact .inr (htu.1 ht ▸ ht)

theorem StatusAdvances.kept {s s' : JobStatus} (h : StatusAdvances s s') : StatusKept s s' := by
  refine ⟨h.1,fun hs => ?_⟩
  rintro rfl
  rcases h.2 hs with hr | hf
  · cases hr
  · simp [JobStatus.IsFinished] at hf

theorem StatusKept.refl (s : JobStatus) : StatusKept s s := (StatusAdvances.refl s).kept

namespace Related
variable {R : JobStatus → JobStatus → Prop}

theorem refl (hR : ∀ s, R s s) (db : Database) : Related R db db :=
  fun _ job h => ⟨job,h,hR job.status⟩

theorem trans (hR : ∀ s t u, R s t → R t u → R s u) {db db' db'' : Database}
    (h : Related R db db') (h' : Related R db' db'') : Related R db db'' := by
  intro jobId job hjob
  obtain ⟨job',hjob',hr⟩ := h jobId job hjob
  obtain ⟨job'',hjob'',hr'⟩ := h' jobId job' hjob'
  exact ⟨job'',hjob'',hR _ _ _ hr hr'⟩

theorem mono {R' : JobStatus → JobStatus → Prop} (hR : ∀ s t, R s t → R' s t)
    {db db' : Database} (h : Related R db db') : Related R' db db' := by
  intro jobId job hjob
  obtain ⟨job',hjob',hr⟩ := h jobId job hjob
  exact ⟨job',hjob',hR _ _ hr⟩

/-- A change of one row relates the databases exactly if it relates the statuses of the row. -/
theorem modify_iff (hR : ∀ s, R s s) {db db' : Database} {jobId : String}
    {f : ProcessingJob → ProcessingJob}
    (h : ∀ k, db'.jobs.get k = if k = jobId then (db.jobs.get jobId).map f else db.jobs.get k) :
    Related R db db' ↔
      ∀ job, db.jobs.get jobId = some job → R job.status (f job).status := by
  constructor
  · intro hrelated job hjob
    obtain ⟨job',hjob',hr⟩ := hrelated jobId job hjob
    rw [h,if_pos rfl,hjob] at hjob'
    cases hjob'
    exact hr
  · intro hf k job hjob
    rw [h]
    split
    · rename_i hk
      subst hk
      exact ⟨f job,by rw [hjob,Option.map_some],hf job hjob⟩
    · exact ⟨job,hjob,hR job.status⟩

theorem modify (hR : ∀ s, R s s) {db db' : Database} {jobId : String}
    {f : ProcessingJob → ProcessingJob} (hf : ∀ job, (f job).id = job.id)
    (h : db'.jobs = db.jobs.modify jobId f hf)
    (hr : ∀ job, db.jobs.get jobId = some job → R job.status (f job).status) :
    Related R db db' := by
  rw [modify_iff hR (fun k => by rw [h,Table.get_modify])]
  exact hr

end Related

section
variable (db : Database) (now : Time) {R : JobStatus → JobStatus → Prop} (hR : ∀ s, R s s)

theorem get_execute_markCancelled (jobId : String) (reason : Option String) (k : String) :
    (execute db ⟨.markCancelled jobId reason,now⟩).jobs.get k =
      if k = jobId then (db.jobs.get jobId).map (applyCancel reason now) else db.jobs.get k := by
  have hcmd : perform db ⟨.markCancelled jobId reason,now⟩ = withJob jobId db _ := rfl
  cases hjob : db.jobs.get jobId with
  | none =>
    rw [execute_withJob_none hcmd hjob]
    split
    · rename_i hk
      rw [hk,hjob,Option.map_none]
    · rfl
  | some job =>
    rw [execute_withJob_some hcmd hjob rfl,recalculateIf_jobs,← hjob]
    exact Table.get_modify db.jobs jobId (applyCancel reason now) (fun _ => rfl) k

theorem get_execute_updateJobStatus (jobId : String) (update : StatusUpdate) (k : String) :
    (execute db ⟨.updateJobStatus jobId update,now⟩).jobs.get k =
      if k = jobId then (db.jobs.get jobId).map (fun job =>
        if job.status = .cancelled ∧ update.status ≠ .cancelled then job
        else applyStatus update now job)
      else db.jobs.get k := by
  have hcmd : perform db ⟨.updateJobStatus jobId update,now⟩ = withJob jobId db _ := rfl
  cases hjob : db.jobs.get jobId with
  | none =>
    rw [execute_withJob_none hcmd hjob]
    split
    · rename_i hk
      rw [hk,hjob,Option.map_none]
    · rfl
  | some job =>
    rw [Option.map_some]
    by_cases hguard : job.status = .cancelled ∧ update.status ≠ .cancelled
    · rw [execute_withJob_some hcmd hjob (if_pos hguard),if_pos hguard]
      split
      · rename_i hk
        rw [hk,hjob]
      · rfl
    · rw [execute_withJob_some hcmd hjob (if_neg hguard),if_neg hguard,
        recalculateIf_jobs,← Option.map_some,← hjob]
      exact Table.get_modify db.jobs jobId (applyStatus update now) (fun _ => rfl) k

include hR

/-- A dequeue starts pending jobs only. -/
theorem related_dequeueJob (hstart : R .pending .running) (runId : Option String) :
    Related R db (execute db ⟨.dequeueJob runId,now⟩) := by
  unfold execute
  split
  · rename_i reply db' h
    rcases dequeueJobAction_eq_ok h with ⟨-,rfl⟩ | ⟨job,hjob,hpending,-,rfl⟩
    · exact .refl hR db'
    · refine .modify hR ?_ rfl ?_
      · exact fun _ => rfl
      intro job' hjob'
      obtain ⟨hmem,hid⟩ := Table.get_eq_some.mp hjob'
      rw [Table.eq_of_key_eq hmem hjob hid,hpending]
      exact hstart
  · exact .refl hR db

theorem related_updateJobAttribution (jobId : String) (runId : Option String)
    (requestedByUserId billingUserId : Option ℤ) :
    Related R db (execute db
      ⟨.updateJobAttribution jobId runId requestedByUserId billingUserId,now⟩) := by
  unfold execute
  split
  · rename_i reply db' h
    simp only [perform, updateJobAttributionAction] at h
    split at h
    · cases h
    · obtain ⟨job,-,hjob⟩ := withJob_eq_ok h
      cases hjob
      refine .modify hR ?_ rfl (fun job _ => hR job.status)
      exact fun _ => rfl
  · exact .refl hR db

/-- A new job leaves the others alone. -/
theorem related_createJob (data : JobData) : Related R db (execute db ⟨.createJob data,now⟩) := by
  unfold execute
  split
  · rename_i reply db' h
    obtain ⟨t,hins,ht⟩ := createJobAction_eq_ok h
    intro k job hjob
    have hk : k ≠ (newJob data now).id := by
      rintro rfl
      rw [Table.insert_get_ne_none hins] at hjob
      cases hjob
    exact ⟨job,by rw [ht,Table.get_insert hins,if_neg hk,hjob],hR job.status⟩
  · exact .refl hR db

/-- A cancellation overwrites every status. -/
theorem related_markCancelled_iff (jobId : String) (reason : Option String) :
    Related R db (execute db ⟨.markCancelled jobId reason,now⟩) ↔
      ∀ job, db.jobs.get jobId = some job → R job.status .cancelled :=
  Related.modify_iff hR (get_execute_markCancelled db now jobId reason)

/-- An update is ignored by a cancelled job and overwrites every other status. -/
theorem related_updateJobStatus_iff (jobId : String) (update : StatusUpdate) :
    Related R db (execute db ⟨.updateJobStatus jobId update,now⟩) ↔
      ∀ job, db.jobs.get jobId = some job →
        ¬(job.status = .cancelled ∧ update.status ≠ .cancelled) → R job.status update.status := by
  rw [Related.modify_iff hR (get_execute_updateJobStatus db now jobId update)]
  refine forall₂_congr (fun job _ => ?_)
  by_cases hguard : job.status = .cancelled ∧ update.status ≠ .cancelled
  · rw [if_pos hguard]
    exact iff_of_true (hR job.status) (fun h => absurd hguard h)
  · rw [if_neg hguard]
    exact ⟨fun h _ => h,fun h => h hguard⟩

end

theorem toJobStatus_running_or_finished (status : WorkerStatus) :
    status.toJobStatus = .running ∨ status.toJobStatus.IsFinished := by
  cases status <;> decide

/-- The commands of the clients and what their status updates bring. -/
def Sent (cmd : Command) : Prop :=
  match cmd.action with
  | .dequeueJob _ | .updateJobAttribution _ _ _ _ | .createJob _ | .markCancelled _ _ => True
  | .updateJobStatus _ update =>
    update.status = .pending ∨ update.status = .running ∨ update.status.IsFinished
  | _ => False

theorem Service.sent {srv : Service} {label : Label} {cmd : Command}
    (h : srv.command label = some cmd) : Sent cmd := by
  cases label with
  | dequeue runId now =>
    cases h
    trivial
  | workerUpdate jobId status step stepName progress totalSteps now =>
    cases h
    exact .inr (toJobStatus_running_or_finished status)
  | cancelRead jobId => cases h
  | cancelWrite i now =>
    obtain ⟨jobId,-,rfl⟩ := Option.map_eq_some_iff.mp h
    trivial
  | startRead request newJobId => cases h
  | startEnsure i now =>
    obtain ⟨start,-,hstart⟩ := Option.bind_eq_some_iff.mp h
    unfold ensureCommand at hstart
    split at hstart <;> cases hstart <;> trivial
  | startReload i => cases h
  | startWrite i now =>
    obtain ⟨start,-,hstart⟩ := Option.bind_eq_some_iff.mp h
    unfold queueCommand at hstart
    split at hstart
    · split at hstart
      · cases hstart
      · cases hstart
        exact .inl rfl
    · cases hstart

/-- A command that finds a current row lets every job advance. -/
theorem FindsCurrent.advances {db : Database} {cmd : Command} (hsent : Sent cmd)
    (h : FindsCurrent db cmd) : Related StatusAdvances db (execute db cmd) := by
  obtain ⟨action,now⟩ := cmd
  cases action <;> try exact False.elim hsent
  case dequeueJob runId =>
    exact related_dequeueJob db now StatusAdvances.refl ⟨by decide,by decide⟩ runId
  case createJob data => exact related_createJob db now StatusAdvances.refl data
  case updateJobAttribution jobId runId requestedByUserId billingUserId =>
    exact related_updateJobAttribution db now StatusAdvances.refl jobId runId requestedByUserId
      billingUserId
  case markCancelled jobId reason =>
    rw [related_markCancelled_iff db now StatusAdvances.refl]
    intro job hjob
    refine ⟨fun hfinished => ?_,fun _ => .inr (by decide)⟩
    exact ((isFinished_iff.mp hfinished).resolve_right (h job hjob)).symm
  case updateJobStatus jobId update =>
    rw [related_updateJobStatus_iff db now StatusAdvances.refl]
    intro job hjob hguard
    obtain ⟨hended,hrunning⟩ := h job hjob
    refine ⟨fun hfinished => ?_,fun hr => hsent.resolve_left (hrunning hr)⟩
    rcases isFinished_iff.mp hfinished with hcancelled | he
    · rw [hcancelled]
      by_contra hne
      exact hguard ⟨hcancelled,hne⟩
    · exact hended he

/-- A command that keeps the statuses has found a current row. -/
theorem FindsCurrent.of_kept {db : Database} {cmd : Command}
    (h : Related StatusKept db (execute db cmd)) : FindsCurrent db cmd := by
  obtain ⟨action,now⟩ := cmd
  cases action <;> try trivial
  case markCancelled jobId reason =>
    intro job hjob hended
    have hkept := (related_markCancelled_iff db now StatusKept.refl jobId reason).mp h job hjob
    have hcancelled := hkept.1 (isFinished_iff.mpr (.inr hended))
    rw [← hcancelled] at hended
    simp [IsEnded] at hended
  case updateJobStatus jobId update =>
    intro job hjob
    have hkept := (related_updateJobStatus_iff db now StatusKept.refl jobId update).mp h job hjob
    have hguard : job.status ≠ .cancelled →
        ¬(job.status = .cancelled ∧ update.status ≠ .cancelled) := fun hne hc => hne hc.1
    constructor
    · intro hended
      refine (hkept (hguard ?_)).1 (isFinished_iff.mpr (.inr hended))
      intro hcancelled
      simp [hcancelled, IsEnded] at hended
    · intro hrunning
      refine (hkept (hguard ?_)).2 hrunning
      rw [hrunning]
      decide

theorem related_step_iff {R : JobStatus → JobStatus → Prop} (hR : ∀ s, R s s) (srv : Service)
    (label : Label) : Related R srv.db (srv.step label).db ↔
      ∀ cmd, srv.command label = some cmd → Related R srv.db (execute srv.db cmd) := by
  rcases hcmd : srv.command label with _ | cmd
  · simp [Service.step, hcmd, Related.refl hR srv.db]
  · simp [Service.step, hcmd]

/-- Finished jobs stay finished between any two states of a run, and running ones do not go back
to pending, exactly if no step of the run overwrites a status that has moved on. -/
theorem statusKept_run_iff (srv : Service) (labels : List Label) :
    (∀ before between after, labels = before ++ between ++ after →
      Related StatusKept (run Service.step srv before).db
        (run Service.step srv (before ++ between)).db) ↔
    AllSteps Service.step Service.FindsCurrent srv labels := by
  constructor
  · intro hkept
    induction labels generalizing srv with
    | nil => trivial
    | cons label labels ih =>
      have hstep : Related StatusKept srv.db (srv.step label).db := hkept [] [label] labels rfl
      refine ⟨fun cmd hcmd => .of_kept ((related_step_iff StatusKept.refl srv label).mp hstep cmd
        hcmd),ih _ ?_⟩
      intro before between after hlabels
      exact hkept (label::before) between after (by rw [hlabels]; rfl)
  · rintro hsteps before between after rfl
    have hbetween := (allSteps_append.mp (allSteps_append.mp hsteps).1).2
    have hadvances : ∀ (srv : Service) label, srv.FindsCurrent label →
        Related StatusAdvances srv.db (srv.step label).db := by
      intro srv label hcurrent
      rw [related_step_iff StatusAdvances.refl]
      exact fun cmd hcmd => (hcurrent cmd hcmd).advances (Service.sent hcmd)
    rw [run_append]
    have hrun := run_related (R := fun s t : Service => Related StatusAdvances s.db t.db)
      (fun s => .refl StatusAdvances.refl s.db)
      (fun s t u => Related.trans (R := StatusAdvances) (fun _ _ _ => StatusAdvances.trans))
      hadvances hbetween
    exact hrun.mono (fun _ _ => StatusAdvances.kept)

/-- One pending job of a whitelisted episode, and no client under way. -/
def queuedService : Service :=
  ⟨execute ⟨Table.empty,none,[⟨1,"guid","Episode",1,true,none,none⟩],[⟨1,"Feed"⟩],[]⟩
    ⟨.createJob ⟨"job","guid",none,none,none,none,none,false⟩,0⟩,[],[]⟩

/-- The worker finishes the job after a cancellation has read that it runs. -/
def finishing : List Label :=
  [.dequeue none 1,.cancelRead "job",
    .workerUpdate "job" .completed (some 4) "Processing complete" (some 100) (some 4) 2]

/-- The worker takes the job after a start has read that it is pending. -/
def starting : List Label :=
  [.startRead ⟨"guid","interactive",none,none,none⟩ "job2",.dequeue none 1]

/-- The late cancellation overwrites the completed job, and the late start the running one. -/
theorem statusKept_fails_late :
    ((run Service.step queuedService finishing).db.jobs.get "job").map ProcessingJob.status =
      some .completed ∧
    ((run Service.step queuedService (finishing ++ [.cancelWrite 0 3])).db.jobs.get "job").map
      ProcessingJob.status = some .cancelled ∧
    ((run Service.step queuedService starting).db.jobs.get "job").map ProcessingJob.status =
      some .running ∧
    ((run Service.step queuedService (starting ++ [.startWrite 0 2])).db.jobs.get "job").map
      ProcessingJob.status = some .pending ∧
    ¬∀ (srv : Service) labels before between after, labels = before ++ between ++ after →
      Related StatusKept (run Service.step srv before).db
        (run Service.step srv (before ++ between)).db := by
  have hcompleted : ((run Service.step queuedService finishing).db.jobs.get "job").map
      ProcessingJob.status = some .completed := by
    decide
  have hcancelled : ((run Service.step queuedService
      (finishing ++ [.cancelWrite 0 3])).db.jobs.get "job").map ProcessingJob.status =
      some .cancelled := by
    decide
  refine ⟨hcompleted,hcancelled,by decide,by decide,fun hkept => ?_⟩
  obtain ⟨job,hjob,hstatus⟩ := Option.map_eq_some_iff.mp hcompleted
  obtain ⟨job',hjob',hr⟩ := hkept queuedService _ finishing [.cancelWrite 0 3] [] rfl "job" job hjob
  rw [hjob',Option.map_some,Option.some.injEq] at hcancelled
  have hsame := hr.1 (by rw [hstatus]; decide)
  rw [hcancelled,hstatus] at hsame
  cases hsame

end Podly.JobsManager
