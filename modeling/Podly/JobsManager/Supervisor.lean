import Podly.AutoRetry.Process
import Podly.JobsManager.Dispatch

/-! The supervisor of the worker processes: it takes a job off the queue, starts a process for it, waits
for its end, and fails the job if that has left it unfinished. -/
namespace Podly.JobsManager.Supervisor
open Store Writer

/-- What `run_processing_job` does next. `process` remembers the step that its job was at. -/
inductive WorkerPhase
  | starting
  | processing (currentStep : Option ℤ) (steps : List WorkStep)
  /-- The handlers of `process`, which report the failure. -/
  | handling (currentStep : Option ℤ)
  /-- The handler of `run_processing_job`, which looks at the row. -/
  | checking
  /-- `_mark_failed`, for a copy of the row. -/
  | marking (job : ProcessingJob)
  | exited (code : ℤ)

/-- A worker process, and the way it will go through `process`. -/
structure Worker where
  jobId : String
  postGuid : String
  way : Way
  phase : WorkerPhase

/-- Where `_worker_loop` stands. -/
inductive Phase
  | idle
  | launching (jobId postGuid : String)
  /-- `_wait_for_processing_worker`, for one of the processes. -/
  | waiting (jobId : String) (i : ℕ) (terminating : Bool)
  /-- `_fail_job_if_nonterminal`: its look at the row, and its report for a copy of it. -/
  | failing (jobId : String)
  | reporting (job : ProcessingJob)

/-- The database, the supervisor, and the processes it has started, the last one at the end. -/
structure Supervision where
  db : Database
  phase : Phase
  workers : List Worker

/-- A command of another client: only the supervisor takes jobs off the queue, and only a worker reports
that its job runs. -/
structure OtherCommand where
  cmd : Command
  not_dequeue : ∀ runId, cmd.action ≠ .dequeueJob runId
  not_running : ∀ jobId update, cmd.action = .updateJobStatus jobId update → update.status ≠ .running

/-- A step of the supervisor, with what becomes of its call, whether it starts the process, or whether
its query is answered; a step of a worker, which may raise an error or end the process by a signal; or
a command of another client. -/
inductive Label
  | dequeue (runId : Option String) (reply : AutoRetry.Reply) (now : Time)
  | launch (started : Bool) (way : Way)
  | poll (answered : Bool)
  | look (answered : Bool)
  | fail (message : String) (reply : AutoRetry.Reply) (now : Time)
  | work (i : ℕ) (message : String) (reply : AutoRetry.Reply) (now : Time)
  | raise (i : ℕ)
  | die (i : ℕ) (code : ℤ)
  | other (cmd : OtherCommand)

/-- A call of the writer, as far as it is carried out. -/
def send (reply : AutoRetry.Reply) (db : Database) (cmd : Command) : Database :=
  if reply.reached then execute db cmd else db

/-- The update of `_mark_failed` and of `_fail_job_if_nonterminal`. -/
def markFailed (job : ProcessingJob) (message : String) : StatusUpdate :=
  ⟨.failed,some (job.currentStep.getD 0),some message,some (job.progressPercentage.getD 0),
    job.totalSteps,none⟩

/-- The update of `_raise_if_cancelled`. -/
def markCancelled (job : ProcessingJob) (step : ℤ) : StatusUpdate :=
  ⟨.cancelled,some step,some "Cancellation requested",
    job.totalSteps.map (fun total : ℤ => (step : ℚ) / total * 100),job.totalSteps,none⟩

section
variable (reply : AutoRetry.Reply) (message : String) (now : Time)

/-- A call of a worker, after which it goes on or handles an error. -/
def report (db : Database) (action : Action) (next error : WorkerPhase) :
    Database × WorkerPhase :=
  (send reply db ⟨action,now⟩,if reply.raises then error else next)

/-- The next step of a worker. What its writes do to the rows of jobs is done by commands like those of
the other clients. -/
def workStep (w : Worker) (db : Database) : WorkerPhase → Database × WorkerPhase
  | .starting =>
    match db.jobs.get w.jobId, db.posts.find? (fun post => post.guid = w.postGuid) with
    | none, _ => (db,.exited 1)
    | some job, none =>
      report reply now db (.updateJobStatus w.jobId (markFailed job "Post not found")) (.exited 1)
        .checking
    | some job, some _ =>
      (db,.processing job.currentStep (process job.autoRetryAttempted w.way))
  | .processing _ [] => (db,.exited 0)
  | .processing currentStep (.report update::steps) =>
    report reply now db (.updateJobStatus w.jobId update) (.processing currentStep steps)
      (.handling currentStep)
  | .processing currentStep (.check step::steps) =>
    match db.jobs.get w.jobId with
    | none => (db,.handling currentStep)
    | some job =>
      if job.status = .cancelled then
        report reply now db (.updateJobStatus w.jobId (markCancelled job step))
          (.handling currentStep) (.handling currentStep)
      else (db,.processing currentStep steps)
  | .processing currentStep (.cancelOthers::steps) =>
    report reply now db (.cancelExistingJobs w.postGuid w.jobId) (.processing currentStep steps)
      (.handling currentStep)
  | .processing currentStep (.useJob::steps) => (db,.processing currentStep steps)
  | .processing currentStep (.write _::steps) => (db,.processing currentStep steps)
  | .handling currentStep =>
    match (db.jobs.get w.jobId).bind
        (fun job => AutoRetry.statusUpdate job .failed currentStep message none none) with
    | none => (db,.checking)
    | some update => report reply now db (.updateJobStatus w.jobId update) .checking .checking
  | .checking =>
    match db.jobs.get w.jobId with
    | none => (db,.exited 0)
    | some job => (db,if job.status.IsFinished then .exited 0 else .marking job)
  | .marking job =>
    report reply now db (.updateJobStatus w.jobId (markFailed job message)) (.exited 1) (.exited 1)
  | .exited code => (db,.exited code)

end

/-- An error in a step of a worker. -/
def WorkerPhase.raise : WorkerPhase → WorkerPhase
  | .starting => .checking
  | .processing currentStep _ => .handling currentStep
  | .handling _ => .checking
  | .checking => .exited 1
  | .marking _ => .exited 1
  | .exited code => .exited code

/-- The end of a process by a signal, which its exit code tells. -/
def WorkerPhase.die (code : ℤ) : WorkerPhase → WorkerPhase
  | .exited code' => .exited code'
  | phase => if code = 0 then phase else .exited code

def WorkerPhase.IsExited (phase : WorkerPhase) : Prop := ∃ code, phase = .exited code

/-- The job that the supervisor has in hand. -/
def Phase.jobId : Phase → Option String
  | .idle => none
  | .launching jobId _ => some jobId
  | .waiting jobId _ _ => some jobId
  | .failing jobId => some jobId
  | .reporting job => some job.id

/-- `_dequeue_next_job`, once it is answered. -/
def taken (runId : Option String) (now : Time) (db : Database) : Phase :=
  match dequeueJobAction runId now db with
  | .ok (.dequeued jobId postGuid,_) => .launching jobId postGuid
  | _ => .idle

def afterExit (jobId : String) (code : ℤ) : Phase := if code = 0 then .idle else .failing jobId

/-- The next step of the supervisor or of a worker. -/
def step (s : Supervision) : Label → Supervision
  | .dequeue runId reply now =>
    match s.phase with
    | .idle =>
      { s with
        db := send reply s.db ⟨.dequeueJob runId,now⟩,
        phase := if reply.reached ∧ ¬reply.raises then taken runId now s.db else .idle }
    | _ => s
  | .launch started way =>
    match s.phase with
    | .launching jobId postGuid =>
      if started then
        { s with
          phase := .waiting jobId s.workers.length false,
          workers := s.workers ++ [⟨jobId,postGuid,way,.starting⟩] }
      else { s with phase := .failing jobId }
    | _ => s
  | .poll answered =>
    match s.phase with
    | .waiting jobId i terminating =>
      match (s.workers[i]?).map Worker.phase with
      | some (.exited code) => { s with phase := afterExit jobId code }
      | _ =>
        -- a signal has been sent, or the status of the job is looked at
        if terminating then s
        else if ¬answered then { s with phase := .failing jobId }
        else if HasStatus s.db jobId .cancelled then { s with phase := .waiting jobId i true }
        else s
    | _ => s
  | .look answered =>
    match s.phase with
    | .failing jobId =>
      match s.db.jobs.get jobId with
      | none => { s with phase := .idle }
      | some job =>
        { s with phase := if answered ∧ ¬job.status.IsFinished then .reporting job else .idle }
    | _ => s
  | .fail message reply now =>
    match s.phase with
    | .reporting job =>
      { s with
        db := send reply s.db ⟨.updateJobStatus job.id (markFailed job message),now⟩,
        phase := .idle }
    | _ => s
  | .work i message reply now =>
    match s.workers[i]? with
    | none => s
    | some w =>
      { s with
        db := (workStep reply message now w s.db w.phase).1,
        workers := s.workers.set i { w with phase := (workStep reply message now w s.db w.phase).2 } }
  | .raise i =>
    match s.workers[i]? with
    | none => s
    | some w => { s with workers := s.workers.set i { w with phase := w.phase.raise } }
  | .die i code =>
    match s.workers[i]? with
    | none => s
    | some w => { s with workers := s.workers.set i { w with phase := w.phase.die code } }
  | .other cmd => { s with db := execute s.db cmd.cmd }

/-- The report that a job is complete reaches the writer unless it raises an error. -/
def Delivered (reply : AutoRetry.Reply) : WorkerPhase → Prop
  | .processing _ (.report update::_) =>
    update.status = .completed → reply.reached = true ∨ reply.raises = true
  | _ => True

/-- The calls that nothing makes up for go through: the answer with a job taken off the queue, the
report that it is complete, and the looks and the report of the supervisor. -/
def Reliable (s : Supervision) : Label → Prop
  | .dequeue _ reply _ => reply.reached = true → reply.raises = false
  | .poll answered => answered = true
  | .look answered => answered = true
  | .fail _ reply _ => reply.reached = true
  | .work i _ reply _ => ∀ w, s.workers[i]? = some w → Delivered reply w.phase
  | _ => True

/-- The steps end with the report that the job is complete. -/
def EndsCompleted (steps : List WorkStep) : Prop :=
  ∃ before totalSteps stepName, steps = before ++ [completed totalSteps stepName]

/-- How many steps of its own a worker takes at most until it exits. -/
def WorkerPhase.rank (way : Way) : WorkerPhase → ℕ
  | .starting => (process true way).length + 5
  | .processing _ steps => steps.length + 4
  | .handling _ => 3
  | .checking => 2
  | .marking _ => 1
  | .exited _ => 0

/-- A step of one of the processes, be it an error. -/
def Label.isStepOf (i : ℕ) : Label → Bool
  | .work j _ _ _ => j = i
  | .raise j => j = i
  | _ => false

/-- A worker that returns leaves a job that does not run. -/
def Settles (db : Database) (jobId : String) : WorkerPhase → Prop
  | .processing _ [] => ¬IsRunning db jobId
  | .processing _ steps => EndsCompleted steps
  | .exited code => code = 0 → ¬IsRunning db jobId
  | _ => True

section Process
variable {steps : List WorkStep} {next : WorkStep}

theorem EndsCompleted.append_left (h : EndsCompleted steps) (before : List WorkStep) :
    EndsCompleted (before ++ steps) := by
  obtain ⟨before',totalSteps,stepName,rfl⟩ := h
  exact ⟨before ++ before',totalSteps,stepName,(List.append_assoc _ _ _).symm⟩

theorem endsCompleted_completed (totalSteps : ℤ) (stepName : String) :
    EndsCompleted [completed totalSteps stepName] := ⟨[],totalSteps,stepName,rfl⟩

/-- The last step is the report, and what follows another step ends as well. -/
theorem EndsCompleted.cons_cases (h : EndsCompleted (next::steps)) :
    (steps = [] ∧ ∃ totalSteps stepName, next = completed totalSteps stepName) ∨
      (steps ≠ [] ∧ EndsCompleted steps) := by
  obtain ⟨before,totalSteps,stepName,heq⟩ := h
  cases before with
  | nil =>
    obtain ⟨rfl,rfl⟩ := List.cons_eq_cons.mp heq
    exact .inl ⟨rfl,totalSteps,stepName,rfl⟩
  | cons first before =>
    obtain ⟨-,rfl⟩ := List.cons_eq_cons.mp heq
    exact .inr ⟨by simp,before,totalSteps,stepName,rfl⟩

theorem endsCompleted_finalizeProcessing (totalSteps : ℤ) (path : String)
    (chapterData : Option String) :
    EndsCompleted (finalizeProcessing totalSteps path chapterData) :=
  (endsCompleted_completed _ _).append_left [_]

theorem endsCompleted_performProcessingSteps (path : String) (strategy : Strategy) :
    EndsCompleted (performProcessingSteps path strategy) := by
  cases strategy <;> exact (endsCompleted_finalizeProcessing _ _ _).append_left _

/-- Each way through `process` that raises no error ends with the report. -/
theorem endsCompleted_process (autoRetry : Bool) (way : Way) :
    EndsCompleted (process autoRetry way) := by
  refine EndsCompleted.append_left ?_ _
  cases way with
  | existing path => exact (endsCompleted_completed _ _).append_left _
  | simulated reset path =>
    exact EndsCompleted.append_left ((endsCompleted_completed _ _).append_left [_,_]) _
  | made reset download path strategy =>
    refine EndsCompleted.append_left ?_ _
    cases strategy with
    | none => exact (endsCompleted_completed _ _).append_left [_]
    | some strategy => exact endsCompleted_performProcessingSteps path strategy

end Process

section Database
variable {db : Database} {jobId jobId' : String} {update : StatusUpdate} {now : Time}

/-- A report changes the status of its job only. -/
theorem isRunning_updateJobStatus
    (h : IsRunning (execute db ⟨.updateJobStatus jobId update,now⟩) jobId') :
    IsRunning db jobId' ∨ jobId' = jobId := by
  rcases isRunning_execute h with hbefore | hdequeued | ⟨update',job,haction,-⟩
  · exact .inl hbefore
  · cases hdequeued
  · exact .inr (Action.updateJobStatus.inj haction).1.symm

/-- After another report the job does not run. -/
theorem not_isRunning_updateJobStatus (hstatus : update.status ≠ .running) :
    ¬IsRunning (execute db ⟨.updateJobStatus jobId update,now⟩) jobId := by
  rintro ⟨job',hjob',hrunning⟩
  rw [get_execute_updateJobStatus,if_pos rfl] at hjob'
  obtain ⟨job,-,rfl⟩ := Option.map_eq_some_iff.mp hjob'
  split at hrunning
  · rename_i hguard
    rw [hguard.1] at hrunning
    cases hrunning
  · exact hstatus hrunning

theorem OtherCommand.isRunning (cmd : OtherCommand) (h : IsRunning (execute db cmd.cmd) jobId) :
    IsRunning db jobId := by
  obtain ⟨⟨action,now⟩,hdequeue,hrunning⟩ := cmd
  rcases isRunning_execute h with hbefore | hdequeued | ⟨update,job,haction,hstatus,-⟩
  · exact hbefore
  · cases action with
    | dequeueJob runId => exact absurd rfl (hdequeue runId)
    | _ => cases hdequeued
  · exact absurd hstatus (hrunning jobId update haction)

theorem isRunning_cancelExistingJobs {postGuid : String}
    (h : IsRunning (execute db ⟨.cancelExistingJobs postGuid jobId,now⟩) jobId') :
    IsRunning db jobId' :=
  OtherCommand.isRunning ⟨⟨.cancelExistingJobs postGuid jobId,now⟩,
    fun _ h => (by cases h),fun _ _ h => (by cases h)⟩ h

/-- What is taken is the job that the writer takes off the queue. -/
theorem jobId_taken (runId : Option String) :
    (taken runId now db).jobId = dequeuedJob db ⟨.dequeueJob runId,now⟩ := by
  unfold taken dequeuedJob
  dsimp only
  cases dequeueJobAction runId now db with
  | error e => rfl
  | ok result =>
    obtain ⟨answer,db'⟩ := result
    cases answer <;> rfl

theorem taken_ne_waiting (runId : Option String) (i : ℕ) (terminating : Bool) :
    taken runId now db ≠ .waiting jobId i terminating := by
  unfold taken
  split <;> nofun

end Database

section Worker
variable {db : Database} {w : Worker} {phase next error : WorkerPhase} {jobId jobId' : String}
variable {steps : List WorkStep} {first : WorkStep} {update : StatusUpdate} {action : Action}
variable {reply : AutoRetry.Reply} {message : String} {now : Time}

theorem isRunning_send {cmd : Command} (h : IsRunning (send reply db cmd) jobId) :
    IsRunning db jobId ∨ IsRunning (execute db cmd) jobId := by
  unfold send at h
  split at h
  · exact .inr h
  · exact .inl h

theorem isRunning_report_updateJobStatus
    (h : IsRunning (report reply now db (.updateJobStatus jobId update) next error).1 jobId') :
    IsRunning db jobId' ∨ jobId' = jobId := by
  rcases isRunning_send h with h | h
  · exact .inl h
  · exact isRunning_updateJobStatus h

/-- A worker lets no job run but its own. -/
theorem isRunning_workStep (h : IsRunning (workStep reply message now w db phase).1 jobId) :
    IsRunning db jobId ∨ jobId = w.jobId := by
  cases phase with
  | starting =>
    rw [workStep] at h
    split at h
    · exact .inl h
    · exact isRunning_report_updateJobStatus h
    · exact .inl h
  | processing currentStep steps =>
    cases steps with
    | nil => exact .inl h
    | cons first steps =>
      cases first with
      | report update => exact isRunning_report_updateJobStatus h
      | check step =>
        rw [workStep] at h
        split at h
        · exact .inl h
        · split at h
          · exact isRunning_report_updateJobStatus h
          · exact .inl h
      | useJob => exact .inl h
      | cancelOthers =>
        rcases isRunning_send h with h | h
        · exact .inl h
        · exact .inl (isRunning_cancelExistingJobs h)
      | write _ => exact .inl h
  | handling currentStep =>
    rw [workStep] at h
    split at h
    · exact .inl h
    · exact isRunning_report_updateJobStatus h
  | checking =>
    rw [workStep] at h
    split at h <;> exact .inl h
  | marking job => exact isRunning_report_updateJobStatus h
  | exited code => exact .inl h

theorem Settles.mono {db' : Database} (h : Settles db jobId phase)
    (hrunning : IsRunning db' jobId → IsRunning db jobId) : Settles db' jobId phase := by
  cases phase with
  | processing currentStep steps =>
    cases steps with
    | nil => exact mt hrunning h
    | cons first steps => exact h
  | exited code => exact fun hcode => mt hrunning (h hcode)
  | _ => trivial

theorem settles_of_endsCompleted (h : EndsCompleted steps) (currentStep : Option ℤ) :
    Settles db jobId (.processing currentStep steps) := by
  cases steps with
  | nil =>
    obtain ⟨before,_,_,heq⟩ := h
    exact absurd heq.symm (by simp)
  | cons first steps => exact h

theorem settles_exited {code : ℤ} (hcode : code ≠ 0) : Settles db jobId (.exited code) :=
  fun h => absurd h hcode

theorem settles_exited_one : Settles db jobId (.exited 1) := settles_exited (by decide)

/-- Another step than the report that the job is complete is not the last one. -/
theorem settles_rest (h : EndsCompleted (first::steps))
    (hfirst : ∀ totalSteps stepName, first ≠ completed totalSteps stepName)
    (currentStep : Option ℤ) : Settles db jobId (.processing currentStep steps) := by
  rcases h.cons_cases with ⟨-,totalSteps,stepName,heq⟩ | ⟨-,hsteps⟩
  · exact absurd heq (hfirst totalSteps stepName)
  · exact settles_of_endsCompleted hsteps currentStep

/-- After a report a worker goes on, or it has been the last one and the job does not run. -/
theorem settles_report (h : EndsCompleted (.report update::steps))
    (hdelivered : update.status = .completed → reply.reached = true ∨ reply.raises = true)
    (currentStep : Option ℤ) :
    Settles (report reply now db (.updateJobStatus jobId update) (.processing currentStep steps)
      (.handling currentStep)).1 jobId (report reply now db (.updateJobStatus jobId update)
      (.processing currentStep steps) (.handling currentStep)).2 := by
  unfold report
  by_cases hraises : reply.raises = true
  · rw [if_pos hraises]
    trivial
  · rw [if_neg hraises]
    rcases h.cons_cases with ⟨rfl,totalSteps,stepName,heq⟩ | ⟨-,hsteps⟩
    · have hstatus : update.status = .completed := by
        rw [WorkStep.report.inj heq]
      have hreached : reply.reached = true := (hdelivered hstatus).resolve_right hraises
      rw [send,if_pos hreached]
      exact not_isRunning_updateJobStatus (by simp [hstatus])
    · exact settles_of_endsCompleted hsteps currentStep

/-- A step of a worker keeps it on the way to an end that leaves no job running. -/
theorem settles_workStep (hdelivered : Delivered reply phase) (h : Settles db w.jobId phase) :
    Settles (workStep reply message now w db phase).1 w.jobId
      (workStep reply message now w db phase).2 := by
  cases phase with
  | starting =>
    rw [workStep]
    split
    · exact settles_exited_one
    · unfold report
      dsimp only
      split
      · trivial
      · exact settles_exited_one
    · exact settles_of_endsCompleted (endsCompleted_process _ _) _
  | processing currentStep steps =>
    cases steps with
    | nil => exact fun _ => h
    | cons first steps =>
      cases first with
      | report update => exact settles_report h hdelivered currentStep
      | check step =>
        rw [workStep]
        split
        · trivial
        · split
          · unfold report
            dsimp only
            rw [ite_self]
            trivial
          · exact settles_rest h (by simp [completed]) currentStep
      | useJob => exact settles_rest h (by simp [completed]) currentStep
      | cancelOthers =>
        rw [workStep,report]
        dsimp only
        split
        · trivial
        · exact settles_rest h (by simp [completed]) currentStep
      | write _ => exact settles_rest h (by simp [completed]) currentStep
  | handling currentStep =>
    rw [workStep]
    split
    · trivial
    · unfold report
      dsimp only
      rw [ite_self]
      trivial
  | checking =>
    rw [workStep]
    split
    · rename_i hnone
      rintro - ⟨job,hjob,-⟩
      rw [hnone] at hjob
      cases hjob
    · rename_i job hget
      dsimp only
      split
      · rename_i hfinished
        rintro - ⟨job',hjob',hrunning⟩
        rw [hget] at hjob'
        cases hjob'
        simp [hrunning,JobStatus.IsFinished] at hfinished
      · trivial
  | marking job =>
    rw [workStep,report]
    dsimp only
    rw [ite_self]
    exact settles_exited_one
  | exited code => exact h

theorem WorkerPhase.IsExited.workStep (h : phase.IsExited) :
    workStep reply message now w db phase = (db,phase) := by
  obtain ⟨code,rfl⟩ := h
  rfl

theorem WorkerPhase.IsExited.raise (h : phase.IsExited) : phase.raise = phase := by
  obtain ⟨code,rfl⟩ := h
  rfl

theorem WorkerPhase.IsExited.die (h : phase.IsExited) (code : ℤ) : phase.die code = phase := by
  obtain ⟨code',rfl⟩ := h
  rfl

theorem settles_raise (h : Settles db jobId phase) : Settles db jobId phase.raise := by
  cases phase with
  | checking => exact settles_exited_one
  | marking job => exact settles_exited_one
  | exited code => exact h
  | _ => trivial

theorem settles_die (h : Settles db jobId phase) (code : ℤ) : Settles db jobId (phase.die code) := by
  cases phase with
  | exited code' => exact h
  | _ =>
    change Settles db jobId (if code = 0 then _ else .exited code)
    split_ifs with hcode
    · exact h
    · exact settles_exited hcode

theorem isExited_of_rank_eq_zero {way : Way} (h : phase.rank way = 0) : phase.IsExited := by
  cases phase with
  | exited code => exact ⟨code,rfl⟩
  | _ => simp [WorkerPhase.rank] at h

theorem rank_report {way : Way} {n : ℕ} (hnext : next.rank way < n) (herror : error.rank way < n) :
    (report reply now db action next error).2.rank way < n := by
  unfold report
  dsimp only
  split
  · exact herror
  · exact hnext

/-- A retry has one write more. -/
theorem length_process_le (autoRetry : Bool) (way : Way) :
    (process autoRetry way).length ≤ (process true way).length := by
  cases autoRetry with
  | false => simp [process]
  | true => exact le_rfl

/-- Every step brings a worker nearer to its exit. -/
theorem rank_workStep : (workStep reply message now w db phase).2.rank w.way ≤
    phase.rank w.way - 1 := by
  cases phase with
  | exited code => exact le_rfl
  | starting =>
    refine Nat.le_sub_one_of_lt ?_
    rw [workStep]
    split
    · exact Nat.succ_pos _
    · refine rank_report (Nat.succ_pos _) ?_
      simp only [WorkerPhase.rank]
      omega
    · rename_i job _ _ _
      have hlength := length_process_le job.autoRetryAttempted w.way
      simp only [WorkerPhase.rank]
      omega
  | processing currentStep steps =>
    refine Nat.le_sub_one_of_lt ?_
    cases steps with
    | nil => exact Nat.succ_pos _
    | cons first steps =>
      have hrest : (WorkerPhase.processing currentStep steps).rank w.way <
          (WorkerPhase.processing currentStep (first::steps)).rank w.way := by
        simp [WorkerPhase.rank]
      have hhandling : (WorkerPhase.handling currentStep).rank w.way <
          (WorkerPhase.processing currentStep (first::steps)).rank w.way := by
        simp only [WorkerPhase.rank]
        omega
      cases first with
      | report update => exact rank_report hrest hhandling
      | check step =>
        rw [workStep]
        split
        · exact hhandling
        · split
          · exact rank_report hhandling hhandling
          · exact hrest
      | useJob => exact hrest
      | cancelOthers => exact rank_report hrest hhandling
      | write _ => exact hrest
  | handling currentStep =>
    refine Nat.le_sub_one_of_lt ?_
    have hchecking : WorkerPhase.checking.rank w.way < (WorkerPhase.handling currentStep).rank w.way :=
      Nat.lt_succ_self 2
    rw [workStep]
    split
    · exact hchecking
    · exact rank_report hchecking hchecking
  | checking =>
    rw [workStep]
    split
    · exact Nat.zero_le _
    · dsimp only
      split
      · exact Nat.zero_le _
      · exact le_rfl
  | marking job => exact Nat.le_sub_one_of_lt (rank_report (Nat.succ_pos 0) (Nat.succ_pos 0))

theorem rank_raise (way : Way) : phase.raise.rank way ≤ phase.rank way - 1 := by
  cases phase <;> simp [WorkerPhase.raise,WorkerPhase.rank]

theorem rank_die (way : Way) (code : ℤ) : (phase.die code).rank way ≤ phase.rank way := by
  cases phase with
  | exited code' => exact le_rfl
  | _ =>
    change WorkerPhase.rank way (if code = 0 then _ else .exited code) ≤ _
    split_ifs
    · exact le_rfl
    · exact Nat.zero_le _

end Worker

end Podly.JobsManager.Supervisor
