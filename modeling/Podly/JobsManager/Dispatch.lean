import Podly.JobsManager.Interleaving

/-! The queue of jobs over whole runs of the writer: when a job is handed out, how often, and when more
than one job runs at a time. -/
namespace Podly.JobsManager
open Intervals Store Writer

/-- The row of a job has a status. -/
def HasStatus (db : Database) (jobId : String) (status : JobStatus) : Prop :=
  ∃ job, db.jobs.get jobId = some job ∧ job.status = status

instance (db : Database) (jobId : String) (status : JobStatus) :
    Decidable (HasStatus db jobId status) :=
  decidable_of_iff ((db.jobs.get jobId).map ProcessingJob.status = some status) (by
    simp [HasStatus,Option.map_eq_some_iff])

def IsPending (db : Database) (jobId : String) : Prop := HasStatus db jobId .pending

def IsRunning (db : Database) (jobId : String) : Prop := HasStatus db jobId .running

instance (db : Database) (jobId : String) : Decidable (IsPending db jobId) :=
  inferInstanceAs (Decidable (HasStatus db jobId .pending))

instance (db : Database) (jobId : String) : Decidable (IsRunning db jobId) :=
  inferInstanceAs (Decidable (HasStatus db jobId .running))

/-- At most one job runs. -/
def Exclusive (db : Database) : Prop :=
  ∀ jobId jobId', IsRunning db jobId → IsRunning db jobId' → jobId = jobId'

/-- A report of a job that is neither running nor cancelled that it runs. -/
def Revives (db : Database) (cmd : Command) (jobId : String) : Prop :=
  ∃ update job, cmd.action = .updateJobStatus jobId update ∧ update.status = .running ∧
    db.jobs.get jobId = some job ∧ job.status ≠ .running ∧ job.status ≠ .cancelled

/-- Such a report while another job runs. -/
def Overlaps (db : Database) (cmd : Command) : Prop :=
  ∃ jobId, Revives db cmd jobId ∧ ∃ other, IsRunning db other

/-- A job that is put into the queue: its row is inserted, a cleanup requeues it, or its status is
set. -/
inductive Offers (db : Database) (cmd : Command) (jobId : String) : Prop
  | inserted : db.jobs.get jobId = none → Offers db cmd jobId
  | requeued : Requeues db cmd jobId → Offers db cmd jobId
  | updated (update : StatusUpdate) : cmd.action = .updateJobStatus jobId update →
      update.status = .pending → Offers db cmd jobId

/-- The order of a query by a time: rows without one stand first. -/
def NotAfter : Option Time → Option Time → Prop
  | none, _ => True
  | some _, none => False
  | some t, some t' => t ≤ t'

/-- How often a job is handed out in a run. -/
def handouts (jobId : String) : Database → List Command → ℕ
  | _, [] => 0
  | db, cmd::cmds =>
    (if dequeuedJob db cmd = some jobId then 1 else 0) + handouts jobId (execute db cmd) cmds

/-- How often a job gets into the queue in a run. -/
def entries (jobId : String) : Database → List Command → ℕ
  | _, [] => 0
  | db, cmd::cmds =>
    (if ¬IsPending db jobId ∧ IsPending (execute db cmd) jobId then 1 else 0) +
      entries jobId (execute db cmd) cmds

/-- One if the job is in the queue. -/
def queued (db : Database) (jobId : String) : ℕ := if IsPending db jobId then 1 else 0

section
variable {db : Database} {cmd : Command} {jobId : String}

/-- No row stands before the first one. -/
theorem firstAsc_notAfter {ρ : Type} {column : ρ → Option Time} {rows : List ρ} {r s : ρ}
    (h : firstAsc column rows = some r) (hs : s ∈ rows) : NotAfter (column r) (column s) := by
  have hsorted := sortByKey_sorted (fun r => nullsFirst (column r)) rows
  have hmem : s ∈ sortByKey (fun r => nullsFirst (column r)) rows := (mem_sortByKey _ rows s).mpr hs
  obtain ⟨rest,hrest⟩ := List.head?_eq_some_iff.mp h
  rw [hrest] at hsorted hmem
  have hle : nullsFirst (column r) ≤ nullsFirst (column s) := by
    rcases List.mem_cons.mp hmem with rfl | hmem
    · exact le_rfl
    · exact (List.pairwise_cons.mp hsorted).1 s hmem
  cases hfirst : column r with
  | none => trivial
  | some t =>
    rw [hfirst] at hle
    cases hother : column s with
    | none =>
      rw [hother] at hle
      exact absurd hle (not_le.mpr (WithBot.bot_lt_coe t))
    | some t' =>
      rw [hother] at hle
      exact WithBot.coe_le_coe.mp hle

/-- What a job is that is handed out: no job runs, it is the oldest in the queue, and then it runs. -/
structure Handout (db : Database) (cmd : Command) (jobId : String) (job : ProcessingJob) : Prop where
  get : db.jobs.get jobId = some job
  pending : job.status = .pending
  idle : ∀ other ∈ db.jobs.rows, other.status ≠ .running
  oldest : ∀ other ∈ db.jobs.rows, other.status = .pending → NotAfter job.createdAt other.createdAt
  started : ∃ runId, ∀ jobId', (execute db cmd).jobs.get jobId' =
    if jobId' = jobId then some (startJob runId cmd.now job) else db.jobs.get jobId'

theorem handout_of_dequeuedJob (h : dequeuedJob db cmd = some jobId) :
    ∃ job, Handout db cmd jobId job := by
  obtain ⟨action,now⟩ := cmd
  cases action with
  | dequeueJob runId =>
    simp only [dequeuedJob,dequeueJobAction] at h
    split_ifs at h with hbusy
    cases hfirst : firstAsc ProcessingJob.createdAt
        (db.jobs.rows.filter (fun job => job.status = .pending)) with
    | none => simp [hfirst] at h
    | some job =>
      simp only [hfirst,Option.some.injEq] at h
      subst h
      obtain ⟨hjob,hpending⟩ := List.mem_filter.mp (firstAsc_mem hfirst)
      have hget : db.jobs.get job.id = some job := Table.get_eq_some.mpr ⟨hjob,rfl⟩
      refine ⟨job,hget,by simpa using hpending,?_,?_,runId,?_⟩
      · intro other hother hrunning
        exact hbusy (List.any_eq_true.mpr ⟨other,hother,by simpa using hrunning⟩)
      · intro other hother hwaiting
        exact firstAsc_notAfter hfirst (List.mem_filter.mpr ⟨hother,by simpa using hwaiting⟩)
      · intro jobId'
        simp only [execute,perform,dequeueJobAction,if_neg hbusy,hfirst]
        refine (Table.get_modify db.jobs job.id (startJob runId now) (fun _ => rfl) jobId').trans ?_
        rw [hget,Option.map_some]
  | _ => cases h

/-- After a handout the job runs, and no other one does. -/
theorem Handout.running_iff {job : ProcessingJob} (h : Handout db cmd jobId job) (jobId' : String) :
    IsRunning (execute db cmd) jobId' ↔ jobId' = jobId := by
  obtain ⟨runId,hstarted⟩ := h.started
  unfold IsRunning HasStatus
  rw [hstarted]
  split
  · rename_i hid
    exact ⟨fun _ => hid,fun _ => ⟨startJob runId cmd.now job,rfl,rfl⟩⟩
  · rename_i hid
    refine ⟨?_,fun heq => absurd heq hid⟩
    rintro ⟨other,hother,hrunning⟩
    exact absurd hrunning (h.idle other (Table.get_eq_some.mp hother).1)

/-- A job that runs after a command ran before it, was handed out by it, or is revived. -/
theorem isRunning_execute (h : IsRunning (execute db cmd) jobId) :
    IsRunning db jobId ∨ dequeuedJob db cmd = some jobId ∨ Revives db cmd jobId := by
  obtain ⟨job',hjob',hrunning⟩ := h
  rcases rowSteps_execute db cmd jobId job' hjob' with ⟨job,hjob,hstep⟩ | ⟨-,hnew⟩
  · have hid : job.id = jobId := (Table.get_eq_some.mp hjob).2
    cases hstep with
    | kept _ hstatus _ => exact .inl ⟨job,hjob,hstatus ▸ hrunning⟩
    | started runId hdequeued _ => exact .inr (.inl (hid ▸ hdequeued))
    | updated update haction hguard =>
      by_cases hbefore : job.status = .running
      · exact .inl ⟨job,hjob,hbefore⟩
      · change update.status = .running at hrunning
        refine .inr (.inr ⟨update,job,hid ▸ haction,hrunning,hjob,hbefore,fun hcancelled => ?_⟩)
        rw [hguard hcancelled] at hrunning
        cases hrunning
    | cancelled reason => cases hrunning
    | requeued hrequeues =>
      unfold requeue at hrunning
      split at hrunning
      · exact .inl ⟨job,hjob,hrunning⟩
      · cases hrunning
  · rcases hnew with ⟨data,now,rfl⟩ | ⟨now,post,jobId,rfl⟩
    · cases hrunning
    · cases hrunning

/-- A job that is in the queue after a command was there before it or is put there by it. -/
theorem isPending_execute (h : IsPending (execute db cmd) jobId) :
    IsPending db jobId ∨ Offers db cmd jobId := by
  obtain ⟨job',hjob',hpending⟩ := h
  rcases rowSteps_execute db cmd jobId job' hjob' with ⟨job,hjob,hstep⟩ | ⟨hnone,-⟩
  · have hid : job.id = jobId := (Table.get_eq_some.mp hjob).2
    cases hstep with
    | kept _ hstatus _ => exact .inl ⟨job,hjob,hstatus ▸ hpending⟩
    | started runId hdequeued _ => cases hpending
    | updated update haction _ => exact .inr (.updated update (hid ▸ haction) hpending)
    | cancelled reason => cases hpending
    | requeued hrequeues => exact .inr (.requeued (hid ▸ hrequeues))
  · exact .inr (.inserted hnone)

/-- A revived job runs, and the other rows are as they were. -/
theorem Revives.get_execute (h : Revives db cmd jobId) : IsRunning (execute db cmd) jobId ∧
    ∀ jobId' ≠ jobId, (execute db cmd).jobs.get jobId' = db.jobs.get jobId' := by
  obtain ⟨update,job,haction,hrunning,hget,-,hcancelled⟩ := h
  obtain ⟨action,now⟩ := cmd
  subst haction
  constructor
  · refine ⟨applyStatus update now job,?_,hrunning⟩
    rw [get_execute_updateJobStatus,if_pos rfl,hget,Option.map_some,
      if_neg (fun hguard => hcancelled hguard.1)]
  · intro jobId' hne
    rw [get_execute_updateJobStatus,if_neg hne]

theorem Revives.jobId_eq {jobId' : String} (h : Revives db cmd jobId) (h' : Revives db cmd jobId') :
    jobId = jobId' := by
  obtain ⟨update,_,haction,-⟩ := h
  obtain ⟨update',_,haction',-⟩ := h'
  rw [haction] at haction'
  exact (Action.updateJobStatus.inj haction').1

/-- One command keeps the jobs apart, exactly if it does not revive one while another runs. -/
theorem exclusive_execute_iff (h : Exclusive db) :
    Exclusive (execute db cmd) ↔ ¬Overlaps db cmd := by
  constructor
  · rintro hafter ⟨jobId,hrevives,other,hother⟩
    obtain ⟨hrunning,hrest⟩ := hrevives.get_execute
    have hne : other ≠ jobId := by
      rintro rfl
      obtain ⟨_,_,-,-,hget,hbefore,-⟩ := hrevives
      obtain ⟨job,hjob,hstatus⟩ := hother
      rw [hget] at hjob
      cases hjob
      exact hbefore hstatus
    refine hne (hafter other jobId ?_ hrunning)
    obtain ⟨job,hjob,hstatus⟩ := hother
    exact ⟨job,by rw [hrest other hne,hjob],hstatus⟩
  · intro hoverlaps jobId jobId' hafter hafter'
    rcases isRunning_execute hafter with hbefore | hdequeued | hrevives
    · rcases isRunning_execute hafter' with hbefore' | hdequeued' | hrevives'
      · exact h jobId jobId' hbefore hbefore'
      · obtain ⟨job,hhandout⟩ := handout_of_dequeuedJob hdequeued'
        exact (hhandout.running_iff jobId).mp hafter
      · exact absurd ⟨jobId',hrevives',jobId,hbefore⟩ hoverlaps
    · obtain ⟨job,hhandout⟩ := handout_of_dequeuedJob hdequeued
      exact ((hhandout.running_iff jobId').mp hafter').symm
    · rcases isRunning_execute hafter' with hbefore' | hdequeued' | hrevives'
      · exact absurd ⟨jobId,hrevives,jobId',hbefore'⟩ hoverlaps
      · obtain ⟨job,hhandout⟩ := handout_of_dequeuedJob hdequeued'
        exact (hhandout.running_iff jobId).mp hafter
      · exact hrevives.jobId_eq hrevives'

/-- One command hands a job out only if it is in the queue, and takes it off then. -/
theorem handout_add_queued_le (db : Database) (cmd : Command) (jobId : String) :
    (if dequeuedJob db cmd = some jobId then 1 else 0) + queued (execute db cmd) jobId ≤
      queued db jobId +
        if ¬IsPending db jobId ∧ IsPending (execute db cmd) jobId then 1 else 0 := by
  unfold queued
  by_cases hdequeued : dequeuedJob db cmd = some jobId
  · obtain ⟨job,hhandout⟩ := handout_of_dequeuedJob hdequeued
    have hbefore : IsPending db jobId := ⟨job,hhandout.get,hhandout.pending⟩
    have hafter : ¬IsPending (execute db cmd) jobId := by
      rintro ⟨job',hjob',hpending⟩
      obtain ⟨job'',hjob'',hrunning⟩ := (hhandout.running_iff jobId).mpr rfl
      rw [hjob'] at hjob''
      cases hjob''
      rw [hpending] at hrunning
      cases hrunning
    simp [hdequeued,hbefore,hafter]
  · by_cases hbefore : IsPending db jobId
    · simp only [hdequeued,hbefore,if_false,if_true]
      split_ifs <;> simp
    · by_cases hafter : IsPending (execute db cmd) jobId
      · simp [hdequeued,hbefore,hafter]
      · simp [hdequeued,hbefore,hafter]

/-- A job is handed out no more often than it is or gets into the queue. -/
theorem handouts_le (jobId : String) (db : Database) (cmds : List Command) :
    handouts jobId db cmds + queued (run execute db cmds) jobId ≤
      queued db jobId + entries jobId db cmds := by
  induction cmds generalizing db with
  | nil => simp [handouts,entries]
  | cons cmd cmds ih =>
    have hstep := handout_add_queued_le db cmd jobId
    have hrest := ih (execute db cmd)
    rw [run_cons,handouts,entries]
    omega

/-- A job waits and none runs, so one is handed out. -/
theorem exists_dequeuedJob {job : ProcessingJob} (hjob : job ∈ db.jobs.rows)
    (hpending : job.status = .pending) (hidle : ∀ jobId, ¬IsRunning db jobId) (runId : Option String)
    (now : Time) : ∃ jobId, dequeuedJob db ⟨.dequeueJob runId,now⟩ = some jobId := by
  have hbusy : ¬db.jobs.rows.any (fun job => job.status = .running) := by
    rw [List.any_eq_true]
    rintro ⟨other,hother,hrunning⟩
    exact hidle other.id ⟨other,Table.get_eq_some.mpr ⟨hother,rfl⟩,by simpa using hrunning⟩
  have hwaiting : job ∈ sortByKey (fun job => nullsFirst job.createdAt)
      (db.jobs.rows.filter (fun job => job.status = .pending)) :=
    (mem_sortByKey _ _ job).mpr (List.mem_filter.mpr ⟨hjob,by simpa using hpending⟩)
  obtain ⟨first,hfirst⟩ : ∃ first, firstAsc ProcessingJob.createdAt
      (db.jobs.rows.filter (fun job => job.status = .pending)) = some first :=
    Option.ne_none_iff_exists'.mp
      (fun hnone => List.ne_nil_of_mem hwaiting (List.head?_eq_none_iff.mp hnone))
  refine ⟨first.id,?_⟩
  simp only [dequeuedJob,dequeueJobAction,if_neg hbusy,hfirst]

/-- The queue over a run. Each handout takes the oldest job in the queue while no job runs, and then
this one runs alone; while no job runs, a waiting one is not left; a job is handed out no more often
than it is or gets into the queue, which is by an insertion, a requeue or a status that is set; and no
two jobs ever run at a time exactly if no report revives one while another runs. -/
structure Dispatched (db : Database) (cmds : List Command) : Prop where
  handout : ∀ before cmd after jobId, cmds = before ++ cmd::after →
    dequeuedJob (run execute db before) cmd = some jobId →
    (∃ job, Handout (run execute db before) cmd jobId job) ∧
      ∀ jobId', IsRunning (run execute db (before ++ [cmd])) jobId' ↔ jobId' = jobId
  served : ∀ before, before <+: cmds → (∀ jobId, ¬IsRunning (run execute db before) jobId) →
    (∃ jobId, IsPending (run execute db before) jobId) → ∀ runId now,
    ∃ jobId, dequeuedJob (run execute db before) ⟨.dequeueJob runId,now⟩ = some jobId
  counted : ∀ jobId, handouts jobId db cmds + queued (run execute db cmds) jobId ≤
    queued db jobId + entries jobId db cmds
  offered : ∀ before cmd after jobId, cmds = before ++ cmd::after →
    ¬IsPending (run execute db before) jobId → IsPending (run execute db (before ++ [cmd])) jobId →
    Offers (run execute db before) cmd jobId
  exclusive : Exclusive db → ((∀ before, before <+: cmds → Exclusive (run execute db before)) ↔
    AllSteps execute (fun db cmd => ¬Overlaps db cmd) db cmds)

theorem dispatched_run (db : Database) (cmds : List Command) : Dispatched db cmds := by
  constructor
  · rintro before cmd after jobId - hdequeued
    obtain ⟨job,hhandout⟩ := handout_of_dequeuedJob hdequeued
    refine ⟨⟨job,hhandout⟩,fun jobId' => ?_⟩
    rw [run_append]
    exact hhandout.running_iff jobId'
  · rintro before - hidle ⟨jobId,job,hjob,hpending⟩ runId now
    exact exists_dequeuedJob (Table.get_eq_some.mp hjob).1 hpending hidle runId now
  · intro jobId
    exact handouts_le jobId db cmds
  · rintro before cmd after jobId - hbefore hafter
    rw [run_append] at hafter
    exact (isPending_execute hafter).resolve_left hbefore
  · intro hexclusive
    exact forall_prefix_iff (I := fun _ => True) (Q := fun _ => True) (fun _ _ _ _ => trivial)
      (fun _ _ _ _ h => exclusive_execute_iff h) trivial hexclusive (fun _ _ => trivial)

end

end Podly.JobsManager
