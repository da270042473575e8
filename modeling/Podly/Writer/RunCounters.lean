import Podly.Writer.Executor

/-! The counters of the singleton run as a cache of a count over its jobs. Some actions recount,
others only change rows; a recount that finds no work moves the cutoff of every later count. -/
namespace Podly.Writer
open Store

/-- The classes of statuses that the run keeps a counter for. -/
inductive StatusClass
  | queued
  | running
  | completed
  | failed
  | skipped
  | uncounted
deriving DecidableEq

def JobStatus.statusClass : JobStatus → StatusClass
  | .pending | .queued => .queued
  | .running => .running
  | .completed => .completed
  | .failed | .cancelled => .failed
  | .skipped => .skipped
  | .other _ => .uncounted

/-- The counters a run stores. -/
structure Counters where
  total : ℕ
  queued : ℕ
  running : ℕ
  completed : ℕ
  failed : ℕ
  skipped : ℕ
deriving DecidableEq

def JobsManagerRun.counters (run : JobsManagerRun) : Counters :=
  ⟨run.totalJobs,run.queuedJobs,run.runningJobs,run.completedJobs,run.failedJobs,run.skippedJobs⟩

/-- The counts over the jobs assigned to the run and created at or after the cutoff. -/
def recount (jobs : List ProcessingJob) (countersResetAt : Option Time) : Counters :=
  let count := countJobs jobs countersResetAt
  ⟨count (fun _ => true),count (· = .pending) + count (· = .queued),count (· = .running),
    count (· = .completed),count (· = .failed) + count (· = .cancelled),count (· = .skipped)⟩

/-- The job is assigned to the run. -/
def ProcessingJob.Assigned (job : ProcessingJob) : Prop :=
  job.jobsManagerRunId = some singletonRunId

instance (job : ProcessingJob) : Decidable job.Assigned := inferInstanceAs (Decidable (_ = _))

/-- The class under which a recount sees a job, if it sees it. -/
def mark (countersResetAt : Option Time) (job : ProcessingJob) : Option StatusClass :=
  if job.Assigned ∧ createdSince countersResetAt job.createdAt then some job.status.statusClass
  else none

/-- The stored counters are what a recount would give, and where work is assigned to the run they
show some. -/
def CountersExact (db : Database) : Prop :=
  ∃ run, db.run = some run ∧ run.counters = recount db.jobs.rows run.countersResetAt ∧
    ∀ job ∈ db.jobs.rows, job.Assigned → job.status.IsActive →
      0 < run.queuedJobs + run.runningJobs

instance (db : Database) : Decidable (CountersExact db) :=
  match hrun : db.run with
  | none => isFalse (fun ⟨_,hsome,_⟩ => by rw [hrun] at hsome; cases hsome)
  | some run => decidable_of_iff (run.counters = recount db.jobs.rows run.countersResetAt ∧
      ∀ job ∈ db.jobs.rows, job.Assigned → job.status.IsActive →
        0 < run.queuedJobs + run.runningJobs)
    ⟨fun h => ⟨run,hrun,h⟩,fun ⟨_,hsome,h⟩ => Option.some.inj (hrun.symm.trans hsome) ▸ h⟩

section
variable {countersResetAt : Option Time} {job : ProcessingJob} {jobs jobs' : List ProcessingJob}

theorem mark_eq_some {c : StatusClass} : mark countersResetAt job = some c ↔
    job.Assigned ∧ createdSince countersResetAt job.createdAt = true ∧
      job.status.statusClass = c := by
  unfold mark
  split
  · rename_i h
    simp [h.1,h.2]
  · rename_i h
    constructor
    · intro hnone
      cases hnone
    · rintro ⟨hassigned,hsince,-⟩
      exact absurd ⟨hassigned,hsince⟩ h

theorem mark_eq_none : mark countersResetAt job = none ↔
    ¬(job.Assigned ∧ createdSince countersResetAt job.createdAt = true) := by
  unfold mark
  split
  · rename_i h
    simp [h]
  · rename_i h
    simp [h]

/-- A count by status class is a count of marks. -/
theorem countJobs_eq {p : JobStatus → Bool} {q : Option StatusClass → Bool}
    (hnone : q none = false) (hp : ∀ s, p s = q (some s.statusClass)) :
    countJobs jobs countersResetAt p = jobs.countP (fun job => q (mark countersResetAt job)) := by
  unfold countJobs
  congr 1
  funext job
  by_cases hassigned : job.jobsManagerRunId = some singletonRunId
  · cases hsince : createdSince countersResetAt job.createdAt with
    | true => simp [mark,ProcessingJob.Assigned,hassigned,hsince,hp]
    | false => simp [mark,hsince,hnone]
  · simp [mark,ProcessingJob.Assigned,hassigned,hnone]

theorem countJobs_add (jobs : List ProcessingJob) (countersResetAt : Option Time)
    {p p' : JobStatus → Bool} (hdisjoint : ∀ s, ¬(p s = true ∧ p' s = true)) :
    countJobs jobs countersResetAt p + countJobs jobs countersResetAt p' =
      countJobs jobs countersResetAt (fun s => p s || p' s) := by
  unfold countJobs
  induction jobs with
  | nil => rfl
  | cons job jobs ih =>
    have hjob := hdisjoint job.status
    simp only [List.countP_cons] at ih ⊢
    cases hp : p job.status <;> cases hp' : p' job.status <;> simp [hp,hp'] at hjob ⊢ <;> omega

/-- A recount in marks. -/
theorem recount_eq (jobs : List ProcessingJob) (countersResetAt : Option Time) :
    recount jobs countersResetAt =
      let count := fun c : StatusClass =>
        jobs.countP (fun job => decide (mark countersResetAt job = some c))
      ⟨jobs.countP (fun job => (mark countersResetAt job).isSome),count .queued,count .running,
        count .completed,count .failed,count .skipped⟩ := by
  have hclass : ∀ (c : StatusClass) (p : JobStatus → Bool),
      (∀ s, p s = decide (some s.statusClass = some c)) →
      countJobs jobs countersResetAt p =
        jobs.countP (fun job => decide (mark countersResetAt job = some c)) :=
    fun c p hp => countJobs_eq (q := fun m => decide (m = some c)) (by simp) hp
  have htotal : countJobs jobs countersResetAt (fun _ => true) =
      jobs.countP (fun job => (mark countersResetAt job).isSome) := countJobs_eq rfl (fun _ => rfl)
  simp only [recount]
  rw [countJobs_add _ _ (by simp),countJobs_add _ _ (by simp),htotal,
    hclass .queued _ (by intro s; cases s <;> rfl),hclass .running _ (by intro s; cases s <;> rfl),
    hclass .completed _ (by intro s; cases s <;> rfl),
    hclass .failed _ (by intro s; cases s <;> rfl),
    hclass .skipped _ (by intro s; cases s <;> rfl)]

/-- Recounts agree when all counts of marks do. -/
theorem recount_congr {reset reset' : Option Time}
    (h : ∀ q : Option StatusClass → Bool, q none = false →
      jobs.countP (fun job => q (mark reset job)) =
        jobs'.countP (fun job => q (mark reset' job))) :
    recount jobs reset = recount jobs' reset' := by
  have hclass : ∀ c : StatusClass, jobs.countP (fun job => decide (mark reset job = some c)) =
      jobs'.countP (fun job => decide (mark reset' job = some c)) :=
    fun c => h (fun m => decide (m = some c)) (by simp)
  rw [recount_eq,recount_eq]
  simp only [hclass,h Option.isSome rfl]

theorem recount_total (jobs : List ProcessingJob) (reset : Option Time) :
    (recount jobs reset).total = jobs.countP (fun job => (mark reset job).isSome) := by
  rw [recount_eq]

/-- A recount is all zero when it sees no job. -/
theorem recount_eq_zero_iff : recount jobs countersResetAt = ⟨0,0,0,0,0,0⟩ ↔
    ∀ job ∈ jobs, mark countersResetAt job = none := by
  constructor
  · intro h job hjob
    have htotal := recount_total jobs countersResetAt
    rw [h] at htotal
    have hnone := List.countP_eq_zero.mp htotal.symm job hjob
    simpa using hnone
  · intro h
    have hempty : recount jobs countersResetAt = recount [] countersResetAt := by
      apply recount_congr
      intro q hq
      rw [List.countP_nil,List.countP_eq_zero]
      intro job hjob
      simp [h job hjob,hq]
    rw [hempty]
    rfl

/-- A cutoff where there was none keeps the recount when every job of the run is young enough. -/
theorem recount_cutoff_iff (cutoff : Time) : recount jobs none = recount jobs (some cutoff) ↔
    ∀ job ∈ jobs, job.Assigned → createdSince (some cutoff) job.createdAt = true := by
  have hmark : ∀ job : ProcessingJob, (mark none job).isSome = decide job.Assigned := by
    intro job
    by_cases hassigned : job.Assigned <;> simp [mark,hassigned,createdSince]
  constructor
  · intro h job hjob hassigned
    have htotal := recount_total jobs none
    rw [h,recount_total,List.countP_eq_length_filter,List.countP_eq_length_filter] at htotal
    have hsub : (jobs.filter (fun job => (mark (some cutoff) job).isSome)).Sublist
        (jobs.filter (fun job => (mark none job).isSome)) := by
      apply List.monotone_filter_right
      intro other hsome
      obtain ⟨c,hc⟩ := Option.isSome_iff_exists.mp hsome
      rw [hmark,decide_eq_true (mark_eq_some.mp hc).1]
    have hmem : job ∈ jobs.filter (fun job => (mark none job).isSome) := by
      rw [List.mem_filter,hmark]
      exact ⟨hjob,decide_eq_true hassigned⟩
    rw [← hsub.eq_of_length htotal] at hmem
    obtain ⟨c,hc⟩ := Option.isSome_iff_exists.mp (List.mem_filter.mp hmem).2
    exact (mark_eq_some.mp hc).2.1
  · intro h
    apply recount_congr
    intro q _
    apply List.countP_congr
    intro job hjob
    by_cases hassigned : job.Assigned
    · have hyoung := h job hjob hassigned
      simp only [mark,hassigned,hyoung,true_and,if_true]
      simp [createdSince]
    · simp [mark,hassigned]

variable {t t' : JobTable} {jobId : String}

/-- A change of one row keeps the recount when it keeps the mark of the row. -/
theorem recount_modify_iff {f : ProcessingJob → ProcessingJob} {hf : ∀ job, (f job).id = job.id}
    (hjob : t.get jobId = some job) :
    recount (t.modify jobId f hf).rows countersResetAt = recount t.rows countersResetAt ↔
      mark countersResetAt (f job) = mark countersResetAt job := by
  have hcount : ∀ q : Option StatusClass → Bool,
      (t.modify jobId f hf).rows.countP (fun job => q (mark countersResetAt job)) +
          (q (mark countersResetAt job)).toNat =
        t.rows.countP (fun job => q (mark countersResetAt job)) +
          (q (mark countersResetAt (f job))).toNat :=
    fun q => Table.countP_modify hjob _
  constructor
  · intro h
    have hkept : ∀ q : Option StatusClass → Bool,
        (t.modify jobId f hf).rows.countP (fun job => q (mark countersResetAt job)) =
          t.rows.countP (fun job => q (mark countersResetAt job)) →
        q (mark countersResetAt (f job)) = q (mark countersResetAt job) := by
      intro q hq
      have hsum := hcount q
      rw [hq] at hsum
      cases hb : q (mark countersResetAt job) <;> cases hb' : q (mark countersResetAt (f job)) <;>
        simp [hb,hb'] at hsum ⊢
    rw [recount_eq,recount_eq] at h
    simp only [Counters.mk.injEq] at h
    obtain ⟨htotal,hqueued,hrunning,hcompleted,hfailed,hskipped⟩ := h
    have htotal := hkept Option.isSome htotal
    have hqueued := hkept (fun m => decide (m = some .queued)) hqueued
    have hrunning := hkept (fun m => decide (m = some .running)) hrunning
    have hcompleted := hkept (fun m => decide (m = some .completed)) hcompleted
    have hfailed := hkept (fun m => decide (m = some .failed)) hfailed
    have hskipped := hkept (fun m => decide (m = some .skipped)) hskipped
    cases hm : mark countersResetAt job with
    | none =>
      rw [hm] at htotal
      exact Option.not_isSome_iff_eq_none.mp (by simp [htotal])
    | some c =>
      rw [hm] at htotal hqueued hrunning hcompleted hfailed hskipped
      obtain ⟨c',hc'⟩ := Option.isSome_iff_exists.mp htotal
      rw [hc'] at hqueued hrunning hcompleted hfailed hskipped ⊢
      cases c <;> cases c' <;> simp at hqueued hrunning hcompleted hfailed hskipped ⊢
  · intro h
    apply recount_congr
    intro q _
    have hsum := hcount q
    rw [h] at hsum
    omega

/-- A deletion keeps the recount when it deletes no row that is seen. -/
theorem recount_deleteWhere_iff (p : ProcessingJob → Bool) :
    recount (t.deleteWhere p).rows countersResetAt = recount t.rows countersResetAt ↔
      ∀ job ∈ t.rows, p job = true → mark countersResetAt job = none := by
  have hcount : ∀ q : Option StatusClass → Bool, (t.deleteWhere p).rows.countP
      (fun job => q (mark countersResetAt job)) + t.rows.countP
        (fun job => q (mark countersResetAt job) && p job) =
      t.rows.countP (fun job => q (mark countersResetAt job)) :=
    fun q => Table.countP_deleteWhere t p _
  constructor
  · intro h job hjob hp
    have hsum := hcount Option.isSome
    rw [← recount_total,← recount_total,h] at hsum
    have hnone : t.rows.countP (fun job => (mark countersResetAt job).isSome && p job) = 0 := by
      omega
    have hunseen := List.countP_eq_zero.mp hnone job hjob
    simpa [hp] using hunseen
  · intro h
    apply recount_congr
    intro q hq
    have hsum := hcount q
    have hnone : t.rows.countP (fun job => q (mark countersResetAt job) && p job) = 0 := by
      rw [List.countP_eq_zero]
      intro job hjob
      by_cases hp : p job = true
      · simp [h job hjob hp,hq]
      · simp [hp]
    omega

/-- A new row that is not assigned to the run is not seen. -/
theorem recount_insert (h : t.insert job = some t') (hunassigned : ¬job.Assigned) :
    recount t'.rows countersResetAt = recount t.rows countersResetAt := by
  rw [Table.rows_insert h]
  apply recount_congr
  intro q hq
  have hmark : mark countersResetAt job = none :=
    mark_eq_none.mpr (fun hseen => hunassigned hseen.1)
  simp [List.countP_append,hmark,hq]

end

/-- What a recount needs of the rows it counts to be right afterwards. With work in sight, a cutoff
it sets must not leave jobs of the run behind it. Without, the counters go to zero and the cutoff to
the clock: no job of the run may be active, or created at the clock or later. -/
def RecountSound (now : Time) (db : Database) : Prop :=
  ∀ run ∈ db.run,
    let counts := recount db.jobs.rows run.countersResetAt
    if 0 < counts.queued + counts.running then
      run.countersResetAt = none → ∀ job ∈ db.jobs.rows, job.Assigned →
        createdSince (some (run.startedAt.getD now)) job.createdAt = true
    else ∀ job ∈ db.jobs.rows, job.Assigned →
      ¬job.status.IsActive ∧ createdSince (some now) job.createdAt = false

/-- What a change of one row without a recount must keep: how the run sees the job, and that the
counters show some work when the job is work of the run. -/
def KeepsCount (db : Database) (job job' : ProcessingJob) : Prop :=
  ∀ run ∈ db.run, mark run.countersResetAt job' = mark run.countersResetAt job ∧
    (job'.Assigned → job'.status.IsActive → 0 < run.queuedJobs + run.runningJobs)

/-- The run does not see the job. -/
def Unseen (db : Database) (job : ProcessingJob) : Prop :=
  ∀ run ∈ db.run, mark run.countersResetAt job = none

section
variable {db : Database} {now : Time} {run : JobsManagerRun}

variable (now) in
/-- A recount with work in sight stores what it counts. -/
theorem recalculateRunCounts_of_work (hrun : db.run = some run)
    (hwork : 0 < (recount db.jobs.rows run.countersResetAt).queued +
      (recount db.jobs.rows run.countersResetAt).running) :
    ∃ run', (recalculateRunCounts now db).run = some run' ∧
      run'.counters = recount db.jobs.rows run.countersResetAt ∧
      run'.countersResetAt = some (run.countersResetAt.getD (run.startedAt.getD now)) := by
  simp only [recalculateRunCounts,hrun]
  split
  · exact ⟨_,rfl,rfl,rfl⟩
  · rename_i hidle
    exact absurd hwork hidle

variable (now) in
/-- A recount that sees no work stores zeros and a new cutoff. -/
theorem recalculateRunCounts_of_idle (hrun : db.run = some run)
    (hidle : ¬0 < (recount db.jobs.rows run.countersResetAt).queued +
      (recount db.jobs.rows run.countersResetAt).running) :
    ∃ run', (recalculateRunCounts now db).run = some run' ∧ run'.counters = ⟨0,0,0,0,0,0⟩ ∧
      run'.countersResetAt = some now := by
  simp only [recalculateRunCounts,hrun]
  split
  · rename_i hwork
    exact absurd hwork hidle
  · exact ⟨_,rfl,rfl,rfl⟩

theorem countersExact_recalculate (hrun : db.run = some run) (now : Time) :
    CountersExact (recalculateRunCounts now db) ↔ RecountSound now db := by
  have hmem : ∀ other, other ∈ db.run ↔ run = other := by
    intro other
    rw [hrun]
    exact Option.some_inj
  simp only [CountersExact,RecountSound,hmem,forall_eq',recalculateRunCounts_jobs]
  by_cases hwork : 0 < (recount db.jobs.rows run.countersResetAt).queued +
      (recount db.jobs.rows run.countersResetAt).running
  · rw [if_pos hwork]
    obtain ⟨run',hrun',hcounters,hreset⟩ := recalculateRunCounts_of_work now hrun hwork
    have hshown : 0 < run'.queuedJobs + run'.runningJobs := by
      rw [← hcounters] at hwork
      exact hwork
    simp only [hrun',Option.some.injEq,exists_eq_left',hcounters,hreset,hshown,implies_true,
      and_true]
    cases hcutoff : run.countersResetAt with
    | none =>
      simp only [Option.getD_none,true_imp_iff]
      exact recount_cutoff_iff _
    | some cutoff => simp
  · rw [if_neg hwork]
    obtain ⟨run',hrun',hcounters,hreset⟩ := recalculateRunCounts_of_idle now hrun hwork
    have hidle : run'.queuedJobs + run'.runningJobs = 0 := by
      simp only [JobsManagerRun.counters,Counters.mk.injEq] at hcounters
      omega
    simp only [hrun',Option.some.injEq,exists_eq_left',hcounters,hreset,hidle]
    rw [eq_comm,recount_eq_zero_iff]
    constructor
    · rintro ⟨hunseen,hinactive⟩ job hjob hassigned
      have hnone := mark_eq_none.mp (hunseen job hjob)
      refine ⟨fun hactive => absurd (hinactive job hjob hassigned hactive) (lt_irrefl 0),?_⟩
      by_contra hsince
      exact hnone ⟨hassigned,by simpa using hsince⟩
    · intro h
      refine ⟨fun job hjob => mark_eq_none.mpr ?_,fun job hjob hassigned hactive => ?_⟩
      · rintro ⟨hassigned,hsince⟩
        rw [(h job hjob hassigned).2] at hsince
        cases hsince
      · exact absurd hactive (h job hjob hassigned).1

/-- Without a recount the counters stay exact when a recount would give the same, and work shows. -/
theorem CountersExact.iff_of_run (h : CountersExact db) (db' : Database)
    (hrun : db'.run = db.run) :
    CountersExact db' ↔ ∀ run ∈ db.run,
      recount db'.jobs.rows run.countersResetAt = recount db.jobs.rows run.countersResetAt ∧
        ∀ job ∈ db'.jobs.rows, job.Assigned → job.status.IsActive →
          0 < run.queuedJobs + run.runningJobs := by
  obtain ⟨run,hsome,hcounters,-⟩ := h
  rw [hsome] at hrun ⊢
  constructor
  · rintro ⟨run',hrun',hcounters',hwork⟩ other hother
    obtain rfl := Option.some.inj hother
    obtain rfl := Option.some.inj (hrun.symm.trans hrun')
    exact ⟨hcounters'.symm.trans hcounters,hwork⟩
  · intro hkept
    obtain ⟨hsame,hwork⟩ := hkept run rfl
    exact ⟨run,hrun,hcounters.trans hsame.symm,hwork⟩

theorem CountersExact.modify_iff (h : CountersExact db) {jobId : String} {job : ProcessingJob}
    {f : ProcessingJob → ProcessingJob} {hf : ∀ job, (f job).id = job.id}
    (hjob : db.jobs.get jobId = some job) :
    CountersExact { db with jobs := db.jobs.modify jobId f hf } ↔ KeepsCount db job (f job) := by
  rw [h.iff_of_run { db with jobs := db.jobs.modify jobId f hf } rfl]
  obtain ⟨run,hsome,-,hold⟩ := h
  simp only [hsome,KeepsCount,recount_modify_iff hjob]
  have hrow : f job ∈ (db.jobs.modify jobId f hf).rows := by
    have hget := Table.get_modify db.jobs jobId f hf jobId
    rw [if_pos rfl,hjob] at hget
    exact (Table.get_eq_some.mp hget).1
  constructor
  · intro hkept other hother
    obtain ⟨hmark,hwork⟩ := hkept other hother
    exact ⟨hmark,hwork (f job) hrow⟩
  · intro hkept other hother
    obtain rfl := Option.some.inj hother
    obtain ⟨hmark,hwork⟩ := hkept run rfl
    refine ⟨hmark,?_⟩
    intro row hrow hassigned hactive
    obtain ⟨r,hr,rfl⟩ := List.mem_map.mp hrow
    by_cases hid : r.id = jobId
    · simp only [if_pos hid] at hassigned hactive
      obtain rfl := Option.some.inj (hjob.symm.trans (Table.get_eq_some.mpr ⟨hr,hid⟩))
      exact hwork hassigned hactive
    · simp only [if_neg hid] at hassigned hactive
      exact hold r hr hassigned hactive

theorem CountersExact.deleteWhere_iff (h : CountersExact db) (p : ProcessingJob → Bool) :
    CountersExact { db with jobs := db.jobs.deleteWhere p } ↔
      ∀ job ∈ db.jobs.rows, p job = true → Unseen db job := by
  rw [h.iff_of_run { db with jobs := db.jobs.deleteWhere p } rfl]
  obtain ⟨run,hsome,-,hold⟩ := h
  simp only [hsome,Unseen,recount_deleteWhere_iff]
  constructor
  · intro hkept job hjob hp other hother
    exact (hkept other hother).1 job hjob hp
  · intro hunseen other hother
    obtain rfl := Option.some.inj hother
    refine ⟨fun job hjob hp => hunseen job hjob hp run rfl,?_⟩
    intro job hjob
    exact hold job (List.mem_of_mem_filter hjob)

theorem CountersExact.insert (h : CountersExact db) {job : ProcessingJob} {jobs : JobTable}
    (hinsert : db.jobs.insert job = some jobs) (hunassigned : ¬job.Assigned) :
    CountersExact { db with jobs } := by
  refine (h.iff_of_run { db with jobs } rfl).mpr ?_
  obtain ⟨run,hsome,-,hold⟩ := h
  rw [hsome]
  intro other hother
  obtain rfl := Option.some.inj hother
  refine ⟨recount_insert hinsert hunassigned,?_⟩
  intro row hrow hassigned hactive
  rw [Table.rows_insert hinsert,List.mem_append,List.mem_singleton] at hrow
  cases hrow with
  | inl hmem => exact hold row hmem hassigned hactive
  | inr hnew => exact absurd (hnew ▸ hassigned) hunassigned

end

end Podly.Writer
