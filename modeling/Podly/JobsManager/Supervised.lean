import Podly.JobsManager.Supervisor

/-! The supervisor over whole runs: which jobs run, which processes are left, and when the queue stops
for good. -/
namespace Podly.JobsManager.Supervisor
open Store Writer

/-- No job but the one in hand runs, and no process but its own is left. -/
structure Inv (s : Supervision) : Prop where
  running : ∀ jobId, IsRunning s.db jobId → s.phase.jobId = some jobId
  alone : ∀ i w, s.workers[i]? = some w → w.phase.IsExited ∨
    ∃ terminating, s.phase = .waiting w.jobId i terminating
  child : ∀ jobId i terminating, s.phase = .waiting jobId i terminating →
    ∃ w, s.workers[i]? = some w ∧ w.jobId = jobId ∧ Settles s.db jobId w.phase

/-- Before the first step the supervisor is idle, no process is left and no job runs. -/
structure Start (s : Supervision) : Prop where
  idle : s.phase = .idle
  exited : ∀ w ∈ s.workers, w.phase.IsExited
  quiet : ∀ jobId, ¬IsRunning s.db jobId

section Steps
variable {s : Supervision}

theorem Start.inv (h : Start s) : Inv s := by
  constructor
  · intro jobId hrunning
    exact absurd hrunning (h.quiet jobId)
  · intro i w hw
    exact .inl (h.exited w (List.mem_of_getElem? hw))
  · intro jobId i terminating hphase
    rw [h.idle] at hphase
    cases hphase

/-- A job that runs is the one in hand. -/
theorem Inv.eq_of_isRunning (h : Inv s) {jobId jobId' : String} (hphase : s.phase.jobId = some jobId)
    (hrunning : IsRunning s.db jobId') : jobId' = jobId :=
  Option.some.inj ((h.running jobId' hrunning).symm.trans hphase)

theorem Inv.quiet (h : Inv s) (hidle : s.phase = .idle) (jobId : String) : ¬IsRunning s.db jobId := by
  intro hrunning
  have hphase := h.running jobId hrunning
  rw [hidle] at hphase
  cases hphase

theorem Inv.exited (h : Inv s) (hphase : ∀ jobId i terminating, s.phase ≠ .waiting jobId i terminating)
    {i : ℕ} {w : Worker} (hw : s.workers[i]? = some w) : w.phase.IsExited :=
  (h.alone i w hw).resolve_right (fun ⟨terminating,heq⟩ => hphase w.jobId i terminating heq)

/-- While the supervisor waits for no process, its next phase is any that has the running jobs in
hand. -/
theorem Inv.of_exited (h : Inv s) {db : Database} {phase : Phase}
    (hphase : ∀ jobId i terminating, s.phase ≠ .waiting jobId i terminating)
    (hnext : ∀ jobId i terminating, phase ≠ .waiting jobId i terminating)
    (hrunning : ∀ jobId, IsRunning db jobId → phase.jobId = some jobId) :
    Inv { s with db, phase } := by
  refine ⟨hrunning,?_,?_⟩
  · intro i w hw
    exact .inl (h.exited hphase hw)
  · intro jobId i terminating heq
    exact absurd heq (hnext jobId i terminating)

theorem Inv.dequeue (h : Inv s) {runId : Option String} {reply : AutoRetry.Reply} {now : Time}
    (hanswered : reply.reached = true → reply.raises = false) (hidle : s.phase = .idle) :
    Inv { s with
      db := send reply s.db ⟨.dequeueJob runId,now⟩,
      phase := if reply.reached ∧ ¬reply.raises then taken runId now s.db else .idle } := by
  refine h.of_exited (by simp [hidle]) ?_ ?_
  · intro jobId i terminating
    split
    · exact taken_ne_waiting runId i terminating
    · nofun
  · intro jobId hrunning
    unfold send at hrunning
    by_cases hreached : reply.reached = true
    · rw [if_pos hreached] at hrunning
      rw [if_pos ⟨hreached,by simp [hanswered hreached]⟩,jobId_taken]
      rcases isRunning_execute hrunning with hbefore | hdequeued | ⟨_,_,haction,-⟩
      · exact absurd hbefore (h.quiet hidle jobId)
      · exact hdequeued
      · cases haction
    · rw [if_neg hreached] at hrunning
      exact absurd hrunning (h.quiet hidle jobId)

theorem Inv.launch (h : Inv s) {jobId postGuid : String} (way : Way)
    (hphase : s.phase = .launching jobId postGuid) :
    Inv { s with
      phase := .waiting jobId s.workers.length false,
      workers := s.workers ++ [⟨jobId,postGuid,way,.starting⟩] } := by
  constructor
  · intro jobId' hrunning
    have hjob := h.running jobId' hrunning
    rw [hphase] at hjob
    exact hjob
  · intro i w hw
    rcases Nat.lt_or_ge i s.workers.length with hi | hi
    · rw [List.getElem?_append_left hi] at hw
      exact .inl (h.exited (by simp [hphase]) hw)
    · rw [List.getElem?_append_right hi,List.getElem?_singleton] at hw
      split at hw
      · rename_i hzero
        cases hw
        refine .inr ⟨false,?_⟩
        rw [show i = s.workers.length by omega]
      · cases hw
  · intro jobId' i terminating heq
    cases heq
    exact ⟨_,List.getElem?_concat_length,rfl,trivial⟩

/-- A step of a worker that lets no other job run, and that leaves a finished process as it is. -/
theorem Inv.setWorker (h : Inv s) {i : ℕ} {w : Worker} {db : Database} {phase : WorkerPhase}
    (hw : s.workers[i]? = some w)
    (hrunning : ∀ jobId, IsRunning db jobId → IsRunning s.db jobId ∨
      jobId = w.jobId ∧ ¬w.phase.IsExited)
    (hexited : w.phase.IsExited → phase = w.phase)
    (hsettles : Settles s.db w.jobId w.phase → Settles db w.jobId phase) :
    Inv { s with db, workers := s.workers.set i { w with phase } } := by
  have hlt : i < s.workers.length := (List.getElem?_eq_some_iff.mp hw).1
  have hself : (s.workers.set i { w with phase })[i]? = some { w with phase } :=
    List.getElem?_set_self hlt
  constructor
  · intro jobId hjob
    rcases hrunning jobId hjob with hbefore | ⟨rfl,halive⟩
    · exact h.running jobId hbefore
    · obtain ⟨terminating,hphase⟩ := (h.alone i w hw).resolve_left halive
      simp only [hphase]
      rfl
  · intro i' w' hw'
    by_cases hi : i = i'
    · subst hi
      rw [hself] at hw'
      cases hw'
      rcases h.alone i w hw with hdone | hwaiting
      · refine .inl ?_
        change phase.IsExited
        rw [hexited hdone]
        exact hdone
      · exact .inr hwaiting
    · rw [List.getElem?_set_ne hi] at hw'
      exact h.alone i' w' hw'
  · intro jobId i' terminating hphase
    obtain ⟨w',hw',hid,hsettled⟩ := h.child jobId i' terminating hphase
    by_cases hi : i = i'
    · subst hi
      rw [hw] at hw'
      cases hw'
      subst hid
      exact ⟨_,hself,rfl,hsettles hsettled⟩
    · refine ⟨w',by rw [List.getElem?_set_ne hi,hw'],hid,hsettled.mono (fun hjob => ?_)⟩
      rcases hrunning jobId hjob with hbefore | ⟨rfl,halive⟩
      · exact hbefore
      · obtain ⟨_,hphase'⟩ := (h.alone i w hw).resolve_left halive
        rw [hphase] at hphase'
        cases hphase'
        exact absurd rfl hi

theorem Inv.work (h : Inv s) {i : ℕ} {w : Worker} {message : String} {reply : AutoRetry.Reply}
    {now : Time} (hw : s.workers[i]? = some w) (hdelivered : Delivered reply w.phase) :
    Inv { s with
      db := (workStep reply message now w s.db w.phase).1,
      workers := s.workers.set i
        { w with phase := (workStep reply message now w s.db w.phase).2 } } := by
  refine h.setWorker hw ?_ ?_ (settles_workStep hdelivered)
  · intro jobId hrunning
    by_cases hdone : w.phase.IsExited
    · rw [hdone.workStep] at hrunning
      exact .inl hrunning
    · exact (isRunning_workStep hrunning).imp_right (fun hid => ⟨hid,hdone⟩)
  · intro hdone
    rw [hdone.workStep]

theorem Inv.other (h : Inv s) (cmd : OtherCommand) : Inv { s with db := execute s.db cmd.cmd } := by
  constructor
  · intro jobId hrunning
    exact h.running jobId (cmd.isRunning hrunning)
  · exact h.alone
  · intro jobId i terminating hphase
    obtain ⟨w,hw,hid,hsettles⟩ := h.child jobId i terminating hphase
    exact ⟨w,hw,hid,hsettles.mono cmd.isRunning⟩

/-- Once the process has ended the supervisor drops its job, or fails it. -/
theorem Inv.afterExit (h : Inv s) {jobId : String} {i : ℕ} {terminating : Bool} {code : ℤ}
    (hphase : s.phase = .waiting jobId i terminating)
    (hcode : (s.workers[i]?).map Worker.phase = some (.exited code)) :
    Inv { s with phase := afterExit jobId code } := by
  obtain ⟨w,hw,hid,hsettles⟩ := h.child jobId i terminating hphase
  have hexited : w.phase = .exited code := by
    rw [hw,Option.map_some] at hcode
    exact Option.some.inj hcode
  constructor
  · intro jobId' hrunning
    obtain rfl := h.eq_of_isRunning (by rw [hphase,Phase.jobId]) hrunning
    unfold Supervisor.afterExit
    dsimp only
    split
    · rename_i hzero
      rw [hexited] at hsettles
      exact absurd hrunning (hsettles hzero)
    · rfl
  · intro i' w' hw'
    rcases h.alone i' w' hw' with hdone | ⟨_,hwaiting⟩
    · exact .inl hdone
    · rw [hphase] at hwaiting
      cases hwaiting
      have heq : w = w' := Option.some.inj (hw.symm.trans hw')
      exact .inl ⟨code,heq ▸ hexited⟩
  · intro jobId' i' terminating' heq
    unfold Supervisor.afterExit at heq
    dsimp only at heq
    split at heq <;> cases heq

/-- The signal changes nothing but what the supervisor waits for. -/
theorem Inv.terminate (h : Inv s) {jobId : String} {i : ℕ} {terminating : Bool}
    (hphase : s.phase = .waiting jobId i terminating) :
    Inv { s with phase := .waiting jobId i true } := by
  constructor
  · intro jobId' hrunning
    have hjob := h.running jobId' hrunning
    rw [hphase] at hjob
    exact hjob
  · intro i' w' hw'
    rcases h.alone i' w' hw' with hdone | ⟨_,hwaiting⟩
    · exact .inl hdone
    · rw [hphase] at hwaiting
      cases hwaiting
      exact .inr ⟨true,rfl⟩
  · intro jobId' i' terminating' heq
    cases heq
    exact h.child jobId i terminating hphase

theorem Inv.look (h : Inv s) {jobId : String} (hphase : s.phase = .failing jobId) {phase : Phase}
    (hnext : match s.db.jobs.get jobId with
      | none => phase = .idle
      | some job => phase = if job.status.IsFinished then .idle else .reporting job) :
    Inv { s with phase } := by
  refine h.of_exited (by simp [hphase]) ?_ ?_
  · intro jobId' i terminating heq
    subst heq
    split at hnext
    · cases hnext
    · split at hnext <;> cases hnext
  · intro jobId' hrunning
    obtain rfl := h.eq_of_isRunning (by rw [hphase,Phase.jobId]) hrunning
    obtain ⟨job,hjob,hstatus⟩ := hrunning
    rw [hjob] at hnext
    dsimp only at hnext
    rw [if_neg (by simp [hstatus,JobStatus.IsFinished])] at hnext
    rw [hnext,Phase.jobId,(Table.get_eq_some.mp hjob).2]

theorem Inv.fail (h : Inv s) {job : ProcessingJob} {message : String} {reply : AutoRetry.Reply}
    {now : Time} (hphase : s.phase = .reporting job) (hreached : reply.reached = true) :
    Inv { s with
      db := send reply s.db ⟨.updateJobStatus job.id (markFailed job message),now⟩,
      phase := .idle } := by
  refine h.of_exited (by simp [hphase]) (by simp) ?_
  intro jobId hrunning
  rw [send,if_pos hreached] at hrunning
  have hid : jobId = job.id := by
    rcases isRunning_updateJobStatus hrunning with hbefore | hid
    · exact h.eq_of_isRunning (by rw [hphase,Phase.jobId]) hbefore
    · exact hid
  subst hid
  exact absurd hrunning (not_isRunning_updateJobStatus (by simp [markFailed]))

/-- One step. -/
theorem inv_step (h : Inv s) (label : Label) (hreliable : Reliable s label) : Inv (step s label) := by
  cases label with
  | dequeue runId reply now =>
    rw [step]
    split
    · rename_i hphase
      exact h.dequeue hreliable hphase
    · exact h
  | launch started way =>
    rw [step]
    split
    · rename_i jobId postGuid hphase
      split
      · exact h.launch way hphase
      · refine h.of_exited (by simp [hphase]) (by simp) ?_
        intro jobId' hrunning
        have hjob := h.running jobId' hrunning
        rw [hphase] at hjob
        exact hjob
    · exact h
  | poll answered =>
    rw [step]
    split
    · rename_i jobId i terminating hphase
      split
      · rename_i code hcode
        exact h.afterExit hphase hcode
      · split
        · exact h
        · have hanswered : answered = true := hreliable
          rw [if_neg (not_not.mpr hanswered)]
          split
          · exact h.terminate hphase
          · exact h
    · exact h
  | look answered =>
    rw [step]
    split
    · rename_i jobId hphase
      have hanswered : answered = true := hreliable
      subst hanswered
      split
      · rename_i hnone
        exact h.look hphase (by rw [hnone])
      · rename_i job hjob
        refine h.look hphase ?_
        rw [hjob]
        by_cases hfinished : job.status.IsFinished
        · simp [hfinished]
        · simp [hfinished]
    · exact h
  | fail message reply now =>
    rw [step]
    split
    · rename_i job hphase
      exact h.fail hphase hreliable
    · exact h
  | work i message reply now =>
    rw [step]
    split
    · exact h
    · rename_i w hw
      exact h.work hw (hreliable w hw)
  | raise i =>
    rw [step]
    split
    · exact h
    · rename_i w hw
      exact h.setWorker hw (fun _ => .inl) (fun hdone => hdone.raise) settles_raise
  | die i code =>
    rw [step]
    split
    · exact h
    · rename_i w hw
      exact h.setWorker hw (fun _ => .inl) (fun hdone => hdone.die code) (fun hs => settles_die hs code)
  | other cmd => exact h.other cmd

/-- A reliable run. -/
theorem inv_run (h : Inv s) {labels : List Label} (hreliable : AllSteps step Reliable s labels) :
    Inv (Store.run step s labels) :=
  AllSteps.invariant (P := Reliable) (I := Inv)
    (fun _ label hlabel hinv => inv_step hinv label hlabel) h hreliable

/-- A job waits while no job is in hand, so the next request takes one. -/
theorem Inv.exists_dequeuedJob (h : Inv s) (hidle : s.phase = .idle)
    (hpending : ∃ jobId, IsPending s.db jobId) (runId : Option String) (now : Time) :
    ∃ jobId, dequeuedJob s.db ⟨.dequeueJob runId,now⟩ = some jobId := by
  obtain ⟨jobId,job,hjob,hstatus⟩ := hpending
  exact JobsManager.exists_dequeuedJob (Table.get_eq_some.mp hjob).1 hstatus (h.quiet hidle) runId now

/-- A job runs that nobody has in hand. -/
structure Stranded (s : Supervision) : Prop where
  idle : s.phase = .idle
  exited : ∀ w ∈ s.workers, w.phase.IsExited
  running : ∃ jobId, IsRunning s.db jobId

theorem dequeueJobAction_of_running {db : Database} {jobId : String} (h : IsRunning db jobId)
    (runId : Option String) (now : Time) : dequeueJobAction runId now db = .ok (.null,db) := by
  obtain ⟨job,hjob,hstatus⟩ := h
  have hbusy : db.jobs.rows.any (fun job => job.status = .running) = true :=
    List.any_eq_true.mpr ⟨job,(Table.get_eq_some.mp hjob).1,by simpa using hstatus⟩
  rw [dequeueJobAction,if_pos hbusy]

/-- Then no step of the supervisor or of a worker changes anything. -/
theorem Stranded.step (h : Stranded s) {label : Label} (hother : ∀ cmd, label ≠ .other cmd) :
    Supervisor.step s label = s := by
  obtain ⟨db,phase,workers⟩ := s
  obtain ⟨rfl,hexited,jobId,hrunning⟩ := h
  have hset : ∀ {i : ℕ} {w : Worker}, workers[i]? = some w → workers.set i w = workers := by
    intro i w hw
    obtain ⟨hlt,rfl⟩ := List.getElem?_eq_some_iff.mp hw
    exact List.set_getElem_self hlt
  cases label with
  | dequeue runId reply now =>
    have hbusy := dequeueJobAction_of_running hrunning runId now
    have hsend : send reply db ⟨.dequeueJob runId,now⟩ = db := by
      unfold send execute perform
      dsimp only
      rw [hbusy]
      exact ite_self db
    have htaken : taken runId now db = .idle := by
      rw [taken,hbusy]
    rw [Supervisor.step]
    simp only [hsend,htaken,ite_self]
  | work i message reply now =>
    rw [Supervisor.step]
    split
    · rfl
    · rename_i w hw
      rw [(hexited w (List.mem_of_getElem? hw)).workStep]
      simp only [hset hw]
  | raise i =>
    rw [Supervisor.step]
    split
    · rfl
    · rename_i w hw
      rw [(hexited w (List.mem_of_getElem? hw)).raise]
      simp only [hset hw]
  | die i code =>
    rw [Supervisor.step]
    split
    · rfl
    · rename_i w hw
      rw [(hexited w (List.mem_of_getElem? hw)).die code]
      simp only [hset hw]
  | other cmd => exact absurd rfl (hother cmd)
  | _ => rfl

theorem Stranded.run (h : Stranded s) {labels : List Label}
    (hother : ∀ label ∈ labels, ∀ cmd, label ≠ .other cmd) : Store.run Supervisor.step s labels = s := by
  induction labels with
  | nil => rfl
  | cons label labels ih =>
    rw [run_cons,h.step (hother label (by simp))]
    exact ih (fun label hlabel => hother label (by simp [hlabel]))

/-- The clearing of the active jobs, which is done when the server starts. -/
def clearActiveJobs (now : Time) : OtherCommand where
  cmd := ⟨.clearActiveJobs,now⟩
  not_dequeue := fun _ h => by cases h
  not_running := fun _ _ h => by cases h

theorem not_isRunning_clearActiveJobs (db : Database) (now : Time) (jobId : String) :
    ¬IsRunning (execute db (clearActiveJobs now).cmd) jobId := by
  rintro ⟨job,hjob,hrunning⟩
  have hmem := (Table.get_eq_some.mp hjob).1
  unfold clearActiveJobs execute perform clearActiveJobsAction at hmem
  dsimp only at hmem
  rw [recalculateIf_jobs] at hmem
  have hinactive := (Table.mem_deleteWhere.mp hmem).2
  simp [hrunning,JobStatus.IsActive] at hinactive

/-- However the database was left, a new supervisor can start or its queue is stopped. -/
theorem start_or_stranded (hidle : s.phase = .idle) (hexited : ∀ w ∈ s.workers, w.phase.IsExited) :
    Start s ∨ Stranded s := by
  by_cases hrunning : ∃ jobId, IsRunning s.db jobId
  · exact .inr ⟨hidle,hexited,hrunning⟩
  · exact .inl ⟨hidle,hexited,not_exists.mp hrunning⟩

theorem Stranded.clear (h : Stranded s) (now : Time) :
    Start (Supervisor.step s (.other (clearActiveJobs now))) :=
  ⟨h.idle,h.exited,not_isRunning_clearActiveJobs s.db now⟩

/-- A worker after one of them has changed its phase. -/
theorem getElem?_set_phase {workers : List Worker} {i j : ℕ} {w w' : Worker} {phase : WorkerPhase}
    (hw : workers[i]? = some w) (hw' : workers[j]? = some w') :
    (workers.set j { w' with phase })[i]? = some (if j = i then { w with phase } else w) := by
  by_cases hij : j = i
  · subst hij
    obtain rfl : w = w' := Option.some.inj (hw.symm.trans hw')
    rw [if_pos rfl,List.getElem?_set_self (List.getElem?_eq_some_iff.mp hw).1]
  · rw [if_neg hij,List.getElem?_set_ne hij,hw]

/-- A step brings the worker that takes it nearer to its exit, and no other worker away from it. -/
theorem rank_step {i : ℕ} {w : Worker} (hw : s.workers[i]? = some w) (label : Label) :
    ∃ w', (Supervisor.step s label).workers[i]? = some w' ∧ w'.way = w.way ∧
      w'.phase.rank w.way ≤ w.phase.rank w.way - (if label.isStepOf i then 1 else 0) := by
  have hmissing : ∀ {j : ℕ}, s.workers[j]? = none → j ≠ i := by
    rintro j hnone rfl
    rw [hw] at hnone
    cases hnone
  have hset : ∀ {j : ℕ} {w' : Worker} {phase : WorkerPhase}, s.workers[j]? = some w' →
      (j = i → phase.rank w.way ≤ w.phase.rank w.way - (if label.isStepOf i then 1 else 0)) →
      (j ≠ i → label.isStepOf i = false) →
      ∃ w'', (s.workers.set j { w' with phase })[i]? = some w'' ∧ w''.way = w.way ∧
        w''.phase.rank w.way ≤ w.phase.rank w.way - (if label.isStepOf i then 1 else 0) := by
    intro j w' phase hw' hphase hother
    refine ⟨_,getElem?_set_phase hw hw',?_⟩
    by_cases hij : j = i
    · rw [if_pos hij]
      exact ⟨rfl,hphase hij⟩
    · rw [if_neg hij,hother hij]
      exact ⟨rfl,le_rfl⟩
  cases label with
  | dequeue runId reply now =>
    rw [Supervisor.step]
    split <;> exact ⟨w,hw,rfl,le_rfl⟩
  | launch started way =>
    rw [Supervisor.step]
    split
    · split
      · refine ⟨w,?_,rfl,le_rfl⟩
        rw [List.getElem?_append_left (List.getElem?_eq_some_iff.mp hw).1,hw]
      · exact ⟨w,hw,rfl,le_rfl⟩
    · exact ⟨w,hw,rfl,le_rfl⟩
  | poll answered =>
    rw [Supervisor.step]
    split
    · split
      · exact ⟨w,hw,rfl,le_rfl⟩
      · split
        · exact ⟨w,hw,rfl,le_rfl⟩
        · split
          · exact ⟨w,hw,rfl,le_rfl⟩
          · split <;> exact ⟨w,hw,rfl,le_rfl⟩
    · exact ⟨w,hw,rfl,le_rfl⟩
  | look answered =>
    rw [Supervisor.step]
    split
    · split <;> exact ⟨w,hw,rfl,le_rfl⟩
    · exact ⟨w,hw,rfl,le_rfl⟩
  | fail message reply now =>
    rw [Supervisor.step]
    split <;> exact ⟨w,hw,rfl,le_rfl⟩
  | work j message reply now =>
    rw [Supervisor.step]
    split
    · rename_i hnone
      refine ⟨w,hw,rfl,?_⟩
      simp [Label.isStepOf,hmissing hnone]
    · rename_i w' hw'
      refine hset hw' ?_ (by simp [Label.isStepOf])
      rintro rfl
      obtain rfl : w = w' := Option.some.inj (hw.symm.trans hw')
      simpa [Label.isStepOf] using rank_workStep
  | raise j =>
    rw [Supervisor.step]
    split
    · rename_i hnone
      refine ⟨w,hw,rfl,?_⟩
      simp [Label.isStepOf,hmissing hnone]
    · rename_i w' hw'
      refine hset hw' ?_ (by simp [Label.isStepOf])
      rintro rfl
      obtain rfl : w = w' := Option.some.inj (hw.symm.trans hw')
      simpa [Label.isStepOf] using rank_raise w.way
  | die j code =>
    rw [Supervisor.step]
    split
    · exact ⟨w,hw,rfl,le_rfl⟩
    · rename_i w' hw'
      refine hset hw' ?_ (fun _ => rfl)
      rintro rfl
      obtain rfl : w = w' := Option.some.inj (hw.symm.trans hw')
      exact rank_die w.way code
  | other cmd => exact ⟨w,hw,rfl,le_rfl⟩

/-- Over a run, whatever the others do. -/
theorem rank_run {i : ℕ} {w : Worker} (hw : s.workers[i]? = some w) (labels : List Label) :
    ∃ w', (Store.run Supervisor.step s labels).workers[i]? = some w' ∧ w'.way = w.way ∧
      w'.phase.rank w.way ≤ w.phase.rank w.way - labels.countP (Label.isStepOf i) := by
  induction labels generalizing s w with
  | nil => exact ⟨w,hw,rfl,le_rfl⟩
  | cons label labels ih =>
    obtain ⟨w',hw',hway,hrank⟩ := rank_step hw label
    obtain ⟨w'',hw'',hway',hrank'⟩ := ih hw'
    rw [hway] at hway' hrank'
    refine ⟨w'',hw'',hway',?_⟩
    rw [List.countP_cons]
    omega

/-- A worker that has taken as many steps as it can take has exited. -/
theorem exited_run {i : ℕ} {w : Worker} (hw : s.workers[i]? = some w) {labels : List Label}
    (hcount : w.phase.rank w.way ≤ labels.countP (Label.isStepOf i)) :
    ∃ w', (Store.run Supervisor.step s labels).workers[i]? = some w' ∧ w'.phase.IsExited := by
  obtain ⟨w',hw',-,hrank⟩ := rank_run hw labels
  rw [Nat.sub_eq_zero_of_le hcount] at hrank
  exact ⟨w',hw',isExited_of_rank_eq_zero (Nat.le_zero.mp hrank)⟩

theorem phase_look {jobId : String} (hphase : s.phase = .failing jobId) (answered : Bool) :
    (Supervisor.step s (.look answered)).phase = .idle ∨
      ∃ job, (Supervisor.step s (.look answered)).phase = .reporting job := by
  rw [Supervisor.step]
  simp only [hphase]
  split
  · exact .inl rfl
  · dsimp only
    split
    · exact .inr ⟨_,rfl⟩
    · exact .inl rfl

theorem phase_fail (hphase : s.phase = .idle ∨ ∃ job, s.phase = .reporting job) {message : String}
    {reply : AutoRetry.Reply} {now : Time} :
    (Supervisor.step s (.fail message reply now)).phase = .idle := by
  rw [Supervisor.step]
  rcases hphase with hidle | ⟨job,hreporting⟩
  · simp only [hidle]
  · simp only [hreporting]

/-- The supervisor lets go of the job of a worker that has exited, whatever becomes of its calls. -/
theorem idle_of_isExited {jobId : String} {i : ℕ} {terminating : Bool} {w : Worker}
    (hphase : s.phase = .waiting jobId i terminating) (hw : s.workers[i]? = some w)
    (hexited : w.phase.IsExited) (answered answered' : Bool) (message : String)
    (reply : AutoRetry.Reply) (now : Time) :
    (Store.run Supervisor.step s
      [.poll answered,.look answered',.fail message reply now]).phase = .idle := by
  obtain ⟨code,hcode⟩ := hexited
  have hpoll : Supervisor.step s (.poll answered) = { s with phase := Supervisor.afterExit jobId code } := by
    rw [Supervisor.step]
    simp only [hphase,hw,Option.map_some,hcode]
  rw [run_cons,run_cons,run_cons,run_nil,hpoll,Supervisor.afterExit]
  split_ifs
  · rfl
  · exact phase_fail (phase_look rfl answered')

/-- The supervisor over a run. As long as the calls go through that nothing makes up for, no job runs
but the one in hand, no process is left but the one waited for, and while no job is in hand a waiting
one is taken; if then the answer is lost the job is stranded. A worker exits after a bounded number
of steps of its own, and the supervisor then lets go of its job. And a stranded job stops the queue,
until a command of another client changes it; after the clearing of the active jobs the queue is as at
the start. -/
structure Supervised (s : Supervision) (labels : List Label) : Prop where
  running : AllSteps step Reliable s labels → ∀ jobId, IsRunning (Store.run step s labels).db jobId →
    (Store.run step s labels).phase.jobId = some jobId
  alone : AllSteps step Reliable s labels → ∀ i w, (Store.run step s labels).workers[i]? = some w →
    w.phase.IsExited ∨
      ∃ terminating, (Store.run step s labels).phase = .waiting w.jobId i terminating
  served : AllSteps step Reliable s labels → (Store.run step s labels).phase = .idle →
    (∃ jobId, IsPending (Store.run step s labels).db jobId) → ∀ runId now,
    (∃ jobId, (Store.run step s (labels ++ [.dequeue runId ⟨true,false⟩ now])).phase.jobId =
      some jobId) ∧
    Stranded (Store.run step s (labels ++ [.dequeue runId ⟨true,true⟩ now]))
  ends : ∀ i w, (Store.run step s labels).workers[i]? = some w → ∀ after : List Label,
    w.phase.rank w.way ≤ after.countP (Label.isStepOf i) →
    ∃ w', (Store.run step s (labels ++ after)).workers[i]? = some w' ∧ w'.phase.IsExited
  released : ∀ jobId i terminating w, (Store.run step s labels).phase = .waiting jobId i terminating →
    (Store.run step s labels).workers[i]? = some w → w.phase.IsExited →
    ∀ answered answered' message reply now, (Store.run step s (labels ++
      [.poll answered,.look answered',.fail message reply now])).phase = .idle
  stopped : Stranded (Store.run step s labels) → ∀ after,
    (∀ label ∈ after, ∀ cmd, label ≠ .other cmd) →
    Store.run step s (labels ++ after) = Store.run step s labels
  cleared : Stranded (Store.run step s labels) → ∀ now,
    Start (Store.run step s (labels ++ [.other (clearActiveJobs now)]))

theorem supervised_run (h : Start s) (labels : List Label) : Supervised s labels := by
  constructor
  · intro hreliable
    exact (inv_run h.inv hreliable).running
  · intro hreliable
    exact (inv_run h.inv hreliable).alone
  · intro hreliable hidle hpending runId now
    have hinv := inv_run h.inv hreliable
    obtain ⟨jobId,hdequeued⟩ := hinv.exists_dequeuedJob hidle hpending runId now
    have hstep : ∀ raises, step (Store.run step s labels) (.dequeue runId ⟨true,raises⟩ now) =
        { Store.run step s labels with
          db := execute (Store.run step s labels).db ⟨.dequeueJob runId,now⟩,
          phase := if raises then .idle else taken runId now (Store.run step s labels).db } := by
      intro raises
      rw [step,hidle]
      cases raises <;> rfl
    constructor
    · rw [run_append,run_cons,run_nil,hstep]
      refine ⟨jobId,?_⟩
      rw [← hdequeued]
      exact jobId_taken runId
    · rw [run_append,run_cons,run_nil,hstep]
      obtain ⟨job,hhandout⟩ := handout_of_dequeuedJob hdequeued
      refine ⟨rfl,?_,jobId,(hhandout.running_iff jobId).mpr rfl⟩
      intro w hw
      obtain ⟨i,hi⟩ := List.mem_iff_getElem?.mp hw
      exact hinv.exited (by simp [hidle]) hi
  · intro i w hw after hcount
    rw [run_append]
    exact exited_run hw hcount
  · intro jobId i terminating w hphase hw hexited answered answered' message reply now
    rw [run_append]
    exact idle_of_isExited hphase hw hexited answered answered' message reply now
  · intro hstranded after hother
    rw [run_append]
    exact hstranded.run hother
  · intro hstranded now
    rw [run_append,run_cons,run_nil]
    exact hstranded.clear now

/-- An idle supervisor and one waiting job. -/
def queuedSupervision : Supervision := ⟨queuedService.db,.idle,[]⟩

theorem start_queuedSupervision : Start queuedSupervision := by
  refine ⟨rfl,by simp [queuedSupervision],?_⟩
  intro jobId hrunning
  have hempty := OtherCommand.isRunning ⟨⟨.createJob ⟨"job","guid",none,none,none,none,none,false⟩,0⟩,
    fun _ h => (by cases h),fun _ _ h => (by cases h)⟩ hrunning
  obtain ⟨job,hjob,-⟩ := hempty
  cases (Table.get_eq_some.mp hjob).1

theorem supervised_run_queued : Supervised queuedSupervision
    [.dequeue none ⟨true,false⟩ 1,.launch true (.existing none),.work 0 "" ⟨true,false⟩ 2] :=
  supervised_run start_queuedSupervision _

end Steps

end Podly.JobsManager.Supervisor
