import Podly.JobsManager.Interleaving
import Podly.JobsManager.Clients

/-! A reprocess request next to the worker of the episode and its supervisor. The request cancels
the active jobs, clears the episode, which deletes their rows, and starts a new job; the worker and
the supervisor learn of it from the row of the worker's job. -/
namespace Podly.JobsManager.Reprocess
open Store Writer

/-- An episode and the job its worker runs for. -/
structure Episode where
  jobId : String
  postId : ℤ
  postGuid : String

/-- How far the request is: the jobs that `cancel_post_jobs` has yet to mark, then the clear, then
the new job. -/
inductive Request
  | waiting
  | cancelling (jobIds : List String)
  | cleared
  | started
deriving DecidableEq

/-- The worker has steps left or is gone. It keeps a copy of its job, which is `loaded` or expired.
The supervisor terminates the worker once it has seen the job cancelled. `lateWrites` are the
outputs that the worker writes after the clear. -/
structure Reprocessing where
  db : Database
  worker : Option (List WorkStep)
  loaded : Bool
  terminating : Bool
  request : Request
  lateWrites : List Write

inductive Label
  | work (now : Time)
  | poll
  | terminate
  | cancelRead
  | cancelMark (now : Time)
  | clear (now : Time)
  | start (data : JobData) (now : Time)

namespace Reprocessing
variable (ep : Episode)

/-- The posts after a write of the worker. -/
def writePosts (posts : List Post) : Write → List Post
  | .post (some path) _ => posts.map (fun post =>
      if post.id = ep.postId then { post with processedAudioPath := path } else post)
  | _ => posts

/-- What the supervisor looks for: `_job_status` is cancelled. -/
def cancelledRow (sys : Reprocessing) : Bool :=
  match sys.db.jobs.get ep.jobId with
  | none => false
  | some job => job.status = .cancelled

/-- The worker raises an error and ends. -/
def stop (sys : Reprocessing) : Reprocessing := { sys with worker := none }

/-- The next step of the worker. A look at an expired copy reads the row and fails if there is
none; the replies of the writer to status updates are not looked at. -/
def workStep (sys : Reprocessing) (now : Time) (rest : List WorkStep) : WorkStep → Reprocessing
  | .report update =>
    if sys.loaded = false ∧ sys.db.jobs.get ep.jobId = none then sys.stop
    else { sys with
      worker := some rest, loaded := false,
      db := execute sys.db ⟨.updateJobStatus ep.jobId update,now⟩ }
  | .check step =>
    match sys.db.jobs.get ep.jobId with
    | none => sys.stop
    | some job =>
      if job.status = .cancelled then
        { sys.stop with db := execute sys.db ⟨.updateJobStatus ep.jobId
            ⟨.cancelled,some step,some "Cancellation requested",
              job.totalSteps.map (fun total : ℤ => (step : ℚ) / total * 100),job.totalSteps,none⟩,
            now⟩ }
      else { sys with worker := some rest, loaded := true }
  | .useJob =>
    if sys.loaded = false ∧ sys.db.jobs.get ep.jobId = none then sys.stop
    else { sys with worker := some rest, loaded := true }
  | .cancelOthers =>
    { sys with
      worker := some rest, loaded := false,
      db := execute sys.db ⟨.cancelExistingJobs ep.postGuid ep.jobId,now⟩ }
  | .write w =>
    { sys with
      worker := some rest,
      db := execute sys.db ⟨.otherTables (writePosts ep sys.db.posts w) sys.db.feeds
        sys.db.modelCalls,now⟩,
      lateWrites := if (sys.request = .cleared ∨ sys.request = .started) ∧ w.IsOutput then
          sys.lateWrites ++ [w]
        else sys.lateWrites }

/-- The jobs `cancel_post_jobs` finds. -/
def activeJobs (sys : Reprocessing) : List String :=
  (sys.db.jobs.rows.filter (fun job => job.postGuid = ep.postGuid && job.status.IsActive)).map
    ProcessingJob.id

/-- One step. Ids of new jobs are drawn afresh. -/
def step (sys : Reprocessing) : Label → Reprocessing
  | .work now =>
    match sys.worker with
    | none => sys
    | some [] => { sys with worker := none }
    | some (next::rest) => sys.workStep ep now rest next
  -- only a row that says cancelled makes the supervisor act
  | .poll => if sys.cancelledRow ep then { sys with terminating := true } else sys
  | .terminate => if sys.terminating then { sys with worker := none } else sys
  | .cancelRead =>
    if sys.request = .waiting then { sys with request := .cancelling (sys.activeJobs ep) } else sys
  | .cancelMark now =>
    match sys.request with
    | .cancelling (jobId::jobIds) =>
      { sys with
        request := .cancelling jobIds,
        db := execute sys.db ⟨.markCancelled jobId (some "Cancelled by user request"),now⟩ }
    | _ => sys
  | .clear now =>
    if sys.request = .cancelling [] then
      { sys with
        request := .cleared, db := execute sys.db ⟨.clearPostProcessingData ep.postId,now⟩ }
    else sys
  | .start data now =>
    if sys.request = .cleared ∧ data.id ≠ ep.jobId then
      { sys with request := .started, db := execute sys.db ⟨.createJob data,now⟩ }
    else sys

/-- The steps the worker can still take; the last one is its exit. -/
def left (sys : Reprocessing) : ℕ :=
  match sys.worker with
  | none => 0
  | some steps => steps.length + 1

/-- With its job gone, a worker with these steps ahead writes no output before it looks at the row
again: at a cancel check, or through an expired copy of it. -/
def Guarded : Bool → List WorkStep → Prop
  | _, [] => True
  | _, .check _::_ => True
  | loaded, .report _::steps => loaded = false ∨ Guarded false steps
  | loaded, .useJob::steps => loaded = false ∨ Guarded loaded steps
  | _, .cancelOthers::steps => Guarded false steps
  | loaded, .write w::steps => ¬w.IsOutput ∧ Guarded loaded steps

/-- The worker is gone, or meets the row before its next output. -/
def SafeToClear (sys : Reprocessing) : Prop :=
  ∀ steps, sys.worker = some steps → Guarded sys.loaded steps

/-- However the steps go on, the worker ends, and without an output. -/
def StopsWorker (sys : Reprocessing) : Prop :=
  ∀ after : List Label, (run (step ep) sys after).lateWrites = [] ∧
    (sys.left ≤ after.countP (fun l => l matches .work _) → (run (step ep) sys after).worker = none)

/-- The clear would find the row of the worker's job. -/
structure Linked (db : Database) : Prop where
  post : ∃ post, db.posts.find? (fun post => post.id = ep.postId) = some post ∧
    post.guid = ep.postGuid
  job : ∀ job, db.jobs.get ep.jobId = some job → job.postGuid = ep.postGuid

/-- The worker of an episode has been launched and the request has not come yet. -/
structure Launched (sys : Reprocessing) : Prop where
  request : sys.request = .waiting
  lateWrites : sys.lateWrites = []
  linked : Linked ep sys.db

/-- Before the clear no output is late. -/
structure Unclear (sys : Reprocessing) : Prop where
  request : sys.request ≠ .cleared ∧ sys.request ≠ .started
  lateWrites : sys.lateWrites = []
  linked : Linked ep sys.db

/-- After the clear: the row of the job is gone for good. -/
structure Clear (sys : Reprocessing) : Prop where
  request : sys.request = .cleared ∨ sys.request = .started
  row : sys.db.jobs.get ep.jobId = none

end Reprocessing

section Commands
variable (db : Database) (now : Time)

theorem recalculateRunCounts_posts : (recalculateRunCounts now db).posts = db.posts := by
  unfold recalculateRunCounts
  split <;> rfl

theorem recalculateIf_posts (p : Bool) : (recalculateIf p now db).posts = db.posts := by
  unfold recalculateIf
  split
  · exact recalculateRunCounts_posts db now
  · rfl

theorem execute_updateJobStatus_posts (jobId : String) (update : StatusUpdate) :
    (execute db ⟨.updateJobStatus jobId update,now⟩).posts = db.posts := by
  have hcmd : perform db ⟨.updateJobStatus jobId update,now⟩ = withJob jobId db _ := rfl
  cases hjob : db.jobs.get jobId with
  | none => rw [execute_withJob_none hcmd hjob]
  | some job =>
    by_cases hguard : job.status = .cancelled ∧ update.status ≠ .cancelled
    · rw [execute_withJob_some hcmd hjob (if_pos hguard)]
    · rw [execute_withJob_some hcmd hjob (if_neg hguard),recalculateIf_posts]

theorem execute_markCancelled_posts (jobId : String) (reason : Option String) :
    (execute db ⟨.markCancelled jobId reason,now⟩).posts = db.posts := by
  have hcmd : perform db ⟨.markCancelled jobId reason,now⟩ = withJob jobId db _ := rfl
  cases hjob : db.jobs.get jobId with
  | none => rw [execute_withJob_none hcmd hjob]
  | some job => rw [execute_withJob_some hcmd hjob rfl,recalculateIf_posts]

theorem execute_cancelExistingJobs (postGuid jobId : String) :
    (execute db ⟨.cancelExistingJobs postGuid jobId,now⟩).posts = db.posts ∧
      (execute db ⟨.cancelExistingJobs postGuid jobId,now⟩).jobs = db.jobs.deleteWhere (fun job =>
        job.postGuid = postGuid && job.status.IsActive && job.id ≠ jobId) := by
  simp only [execute,perform,cancelExistingJobsAction]
  split_ifs
  · exact ⟨recalculateRunCounts_posts _ now,recalculateRunCounts_jobs now _⟩
  · exact ⟨rfl,rfl⟩

end Commands

namespace Reprocessing
variable {ep : Episode} {db : Database}

theorem Linked.of_rows {db' : Database} (h : Linked ep db) (hposts : db'.posts = db.posts)
    (hrow : ∀ job', db'.jobs.get ep.jobId = some job' →
      ∃ job, db.jobs.get ep.jobId = some job ∧ job'.postGuid = job.postGuid) : Linked ep db' := by
  constructor
  · rw [hposts]
    exact h.post
  · intro job' hjob'
    obtain ⟨job,hjob,hguid⟩ := hrow job' hjob'
    exact hguid.trans (h.job job hjob)

theorem Linked.updateJobStatus (h : Linked ep db) (jobId : String) (update : StatusUpdate)
    (now : Time) : Linked ep (execute db ⟨.updateJobStatus jobId update,now⟩) := by
  apply h.of_rows (execute_updateJobStatus_posts db now jobId update)
  intro job' hjob'
  rw [get_execute_updateJobStatus] at hjob'
  split at hjob'
  · rename_i hid
    obtain ⟨job,hjob,rfl⟩ := Option.map_eq_some_iff.mp hjob'
    refine ⟨job,hid ▸ hjob,?_⟩
    split <;> rfl
  · exact ⟨job',hjob',rfl⟩

theorem Linked.markCancelled (h : Linked ep db) (jobId : String) (reason : Option String)
    (now : Time) : Linked ep (execute db ⟨.markCancelled jobId reason,now⟩) := by
  apply h.of_rows (execute_markCancelled_posts db now jobId reason)
  intro job' hjob'
  rw [get_execute_markCancelled] at hjob'
  split at hjob'
  · rename_i hid
    obtain ⟨job,hjob,rfl⟩ := Option.map_eq_some_iff.mp hjob'
    exact ⟨job,hid ▸ hjob,rfl⟩
  · exact ⟨job',hjob',rfl⟩

theorem Linked.cancelExistingJobs (h : Linked ep db) (postGuid jobId : String) (now : Time) :
    Linked ep (execute db ⟨.cancelExistingJobs postGuid jobId,now⟩) := by
  obtain ⟨hposts,hjobs⟩ := execute_cancelExistingJobs db now postGuid jobId
  apply h.of_rows hposts
  intro job' hjob'
  rw [hjobs,Table.get_deleteWhere] at hjob'
  exact ⟨job',(Option.filter_eq_some_iff.mp hjob').1,rfl⟩

theorem Linked.write (h : Linked ep db) (w : Write) (now : Time) : Linked ep (execute db
    ⟨.otherTables (writePosts ep db.posts w) db.feeds db.modelCalls,now⟩) := by
  obtain ⟨post,hpost,hguid⟩ := h.post
  refine ⟨?_,h.job⟩
  change ∃ post, (writePosts ep db.posts w).find? _ = some post ∧ _
  unfold writePosts
  split
  · rename_i path chapterData
    refine ⟨if post.id = ep.postId then { post with processedAudioPath := path } else post,?_,?_⟩
    · rw [List.find?_map]
      have hid : ∀ post : Post, (if post.id = ep.postId then
          { post with processedAudioPath := path } else post).id = post.id := by
        intro post
        split <;> rfl
      simp only [Function.comp_def,hid,hpost,Option.map_some]
    · split <;> exact hguid
  · exact ⟨post,hpost,hguid⟩

/-- The clear deletes the row of the job. -/
theorem Linked.clear (h : Linked ep db) (now : Time) :
    (execute db ⟨.clearPostProcessingData ep.postId,now⟩).jobs.get ep.jobId = none := by
  obtain ⟨post,hpost,hguid⟩ := h.post
  simp only [execute,perform,clearPostProcessingDataAction,withPost,hpost,clearEpisode,
    Table.get_deleteWhere]
  cases hjob : db.jobs.get ep.jobId with
  | none => rfl
  | some job => simp [hguid,h.job job hjob]

section Row
variable {now : Time} (h : db.jobs.get ep.jobId = none)
include h

theorem row_updateJobStatus (update : StatusUpdate) :
    (execute db ⟨.updateJobStatus ep.jobId update,now⟩).jobs.get ep.jobId = none := by
  rw [get_execute_updateJobStatus,if_pos rfl,h,Option.map_none]

theorem row_cancelExistingJobs (postGuid jobId : String) :
    (execute db ⟨.cancelExistingJobs postGuid jobId,now⟩).jobs.get ep.jobId = none := by
  rw [(execute_cancelExistingJobs db now postGuid jobId).2,Table.get_deleteWhere,h,
    Option.filter_none]

theorem row_createJob {data : JobData} (hid : data.id ≠ ep.jobId) :
    (execute db ⟨.createJob data,now⟩).jobs.get ep.jobId = none := by
  unfold execute
  split
  · rename_i reply db' hcreate
    obtain ⟨t,hinsert,ht⟩ := createJobAction_eq_ok hcreate
    have hne : ep.jobId ≠ (newJob data now).id := Ne.symm hid
    rw [ht,Table.get_insert hinsert,if_neg hne,h]
  · exact h

end Row

variable {sys : Reprocessing}

theorem Unclear.of (h : Unclear ep sys) {sys' : Reprocessing} (hrequest : sys'.request = sys.request)
    (hlate : sys'.lateWrites = sys.lateWrites) (hlinked : Linked ep sys'.db) : Unclear ep sys' :=
  ⟨hrequest ▸ h.request,hlate.trans h.lateWrites,hlinked⟩

theorem Unclear.workStep (h : Unclear ep sys) (now : Time) (rest : List WorkStep)
    (next : WorkStep) : Unclear ep (sys.workStep ep now rest next) := by
  cases next with
  | report update =>
    unfold Reprocessing.workStep
    dsimp only
    split
    · exact h.of rfl rfl h.linked
    · exact h.of rfl rfl (h.linked.updateJobStatus ep.jobId update now)
  | check step =>
    unfold Reprocessing.workStep
    dsimp only
    split
    · exact h.of rfl rfl h.linked
    · split
      · exact h.of rfl rfl (h.linked.updateJobStatus ep.jobId _ now)
      · exact h.of rfl rfl h.linked
  | useJob =>
    unfold Reprocessing.workStep
    dsimp only
    split <;> exact h.of rfl rfl h.linked
  | cancelOthers => exact h.of rfl rfl (h.linked.cancelExistingJobs ep.postGuid ep.jobId now)
  | write w =>
    refine h.of rfl ?_ (h.linked.write w now)
    simp [Reprocessing.workStep,h.request]

/-- A step before the clear, or the clear itself. -/
theorem Unclear.step (h : Unclear ep sys) (l : Label) :
    Unclear ep (step ep sys l) ∨ Clear ep (step ep sys l) ∧ (step ep sys l).lateWrites = [] := by
  cases l with
  | work now =>
    left
    unfold Reprocessing.step
    dsimp only
    split
    · exact h
    · exact h.of rfl rfl h.linked
    · exact h.workStep now _ _
  | poll | terminate =>
    left
    unfold Reprocessing.step
    dsimp only
    split
    · exact h.of rfl rfl h.linked
    · exact h
  | cancelRead =>
    left
    unfold Reprocessing.step
    dsimp only
    split
    · exact ⟨⟨Request.noConfusion,Request.noConfusion⟩,h.lateWrites,h.linked⟩
    · exact h
  | cancelMark now =>
    left
    unfold Reprocessing.step
    dsimp only
    split
    · exact ⟨⟨Request.noConfusion,Request.noConfusion⟩,h.lateWrites,
        h.linked.markCancelled _ _ now⟩
    · exact h
  | clear now =>
    unfold Reprocessing.step
    dsimp only
    split
    · exact .inr ⟨⟨.inl rfl,h.linked.clear now⟩,h.lateWrites⟩
    · exact .inl h
  | start data now =>
    left
    unfold Reprocessing.step
    dsimp only
    rw [if_neg (fun hcleared => h.request.1 hcleared.1)]
    exact h

/-- The steps of the worker run out, one at a time. -/
theorem left_workStep (now : Time) (rest : List WorkStep) (next : WorkStep) :
    (sys.workStep ep now rest next).left ≤ rest.length + 1 := by
  cases next with
  | write w => exact le_rfl
  | cancelOthers => exact le_rfl
  | report update =>
    unfold Reprocessing.workStep
    dsimp only
    split
    · exact Nat.zero_le _
    · exact le_rfl
  | check step =>
    unfold Reprocessing.workStep
    dsimp only
    split
    · exact Nat.zero_le _
    · split
      · exact Nat.zero_le _
      · exact le_rfl
  | useJob =>
    unfold Reprocessing.workStep
    dsimp only
    split
    · exact Nat.zero_le _
    · exact le_rfl

theorem left_work (now : Time) : (step ep sys (.work now)).left ≤ sys.left - 1 := by
  unfold Reprocessing.step
  dsimp only
  split
  · rename_i hworker
    simp [left,hworker]
  · exact Nat.zero_le _
  · rename_i next rest hworker
    have hleft : sys.left = rest.length + 1 + 1 := by simp [left,hworker]
    rw [hleft]
    exact left_workStep now rest next

/-- The other steps give the worker none. -/
theorem left_step (l : Label) : (step ep sys l).left ≤ sys.left := by
  cases l with
  | work now => exact (left_work now).trans (Nat.sub_le _ _)
  | terminate =>
    unfold Reprocessing.step
    dsimp only
    split
    · exact Nat.zero_le _
    · exact le_rfl
  | cancelMark now =>
    unfold Reprocessing.step
    dsimp only
    split <;> exact le_rfl
  | _ =>
    unfold Reprocessing.step
    dsimp only
    split <;> exact le_rfl

/-- A worker that goes on ends. -/
theorem worker_ends (after : List Label) :
    (run (step ep) sys after).left ≤ sys.left - after.countP (fun l => l matches .work _) := by
  induction after generalizing sys with
  | nil => exact le_rfl
  | cons l after ih =>
    have hnext := @ih (step ep sys l)
    rw [run_cons,List.countP_cons]
    cases l with
    | work now =>
      have hwork := @left_work ep sys now
      simp only [if_true]
      omega
    | _ =>
      have hstep := fun l => @left_step ep sys l
      simp only [Bool.false_eq_true,if_false,Nat.add_zero]
      exact hnext.trans (Nat.sub_le_sub_right (hstep _) _)

theorem worker_none_of_left (h : sys.left = 0) : sys.worker = none := by
  unfold left at h
  split at h
  · assumption
  · cases h

theorem Clear.of (h : Clear ep sys) {sys' : Reprocessing} (hrequest : sys'.request = sys.request)
    (hjobs : sys'.db.jobs = sys.db.jobs) : Clear ep sys' :=
  ⟨hrequest ▸ h.request,hjobs ▸ h.row⟩

theorem Clear.workStep (h : Clear ep sys) (now : Time) (rest : List WorkStep) (next : WorkStep) :
    Clear ep (sys.workStep ep now rest next) := by
  cases next with
  | report update =>
    unfold Reprocessing.workStep
    dsimp only
    split
    · exact h.of rfl rfl
    · exact ⟨h.request,row_updateJobStatus h.row update⟩
  | check step =>
    unfold Reprocessing.workStep
    dsimp only
    rw [h.row]
    exact h.of rfl rfl
  | useJob =>
    unfold Reprocessing.workStep
    dsimp only
    split <;> exact h.of rfl rfl
  | cancelOthers => exact ⟨h.request,row_cancelExistingJobs h.row _ _⟩
  | write w => exact h.of rfl rfl

/-- The row stays away. -/
theorem Clear.step (h : Clear ep sys) (l : Label) : Clear ep (step ep sys l) := by
  cases l with
  | work now =>
    unfold Reprocessing.step
    dsimp only
    split
    · exact h
    · exact h.of rfl rfl
    · exact h.workStep now _ _
  | poll | terminate =>
    unfold Reprocessing.step
    dsimp only
    split
    · exact h.of rfl rfl
    · exact h
  | start data now =>
    unfold Reprocessing.step
    dsimp only
    split
    · rename_i hstart
      exact ⟨.inr rfl,row_createJob h.row hstart.2⟩
    · exact h
  | cancelRead | cancelMark now | clear now =>
    unfold Reprocessing.step
    rcases h.request with hrequest | hrequest <;> simpa [hrequest] using h

/-- No output is late, and none will be. -/
structure Quiet (sys : Reprocessing) : Prop where
  lateWrites : sys.lateWrites = []
  safe : sys.SafeToClear

theorem Quiet.stop (h : sys.Quiet) : sys.stop.Quiet :=
  ⟨h.lateWrites,fun _ hworker => nomatch hworker⟩

theorem Quiet.workStep (h : sys.Quiet) (hclear : Clear ep sys) (now : Time)
    {rest : List WorkStep} {next : WorkStep} (hworker : sys.worker = some (next::rest)) :
    (sys.workStep ep now rest next).Quiet := by
  have hguarded : Guarded sys.loaded (next::rest) := h.safe _ hworker
  have hrest : ∀ {loaded}, Guarded loaded rest → ∀ steps, some rest = some steps →
      Guarded loaded steps := by
    rintro loaded hrest steps hsteps
    rwa [← Option.some.inj hsteps]
  cases next with
  | report update =>
    unfold Reprocessing.workStep
    dsimp only
    split
    · exact h.stop
    · rename_i hlook
      have hloaded : sys.loaded ≠ false := fun hloaded => hlook ⟨hloaded,hclear.row⟩
      exact ⟨h.lateWrites,hrest (hguarded.resolve_left hloaded)⟩
  | check step =>
    unfold Reprocessing.workStep
    dsimp only
    rw [hclear.row]
    exact h.stop
  | useJob =>
    unfold Reprocessing.workStep
    dsimp only
    split
    · exact h.stop
    · rename_i hlook
      have hloaded : sys.loaded ≠ false := fun hloaded => hlook ⟨hloaded,hclear.row⟩
      have hguarded := hguarded.resolve_left hloaded
      rw [Bool.eq_true_of_not_eq_false hloaded] at hguarded
      exact ⟨h.lateWrites,hrest hguarded⟩
  | cancelOthers => exact ⟨h.lateWrites,hrest hguarded⟩
  | write w =>
    refine ⟨?_,hrest hguarded.2⟩
    change (if _ ∧ w.IsOutput then _ else _) = _
    rw [if_neg (fun hlate => hguarded.1 hlate.2)]
    exact h.lateWrites

theorem Quiet.step (h : sys.Quiet) (hclear : Clear ep sys) (l : Label) :
    (step ep sys l).Quiet := by
  cases l with
  | work now =>
    unfold Reprocessing.step
    dsimp only
    split
    · exact h
    · exact h.stop
    · rename_i next rest hworker
      exact h.workStep hclear now hworker
  | terminate =>
    unfold Reprocessing.step
    dsimp only
    split
    · exact h.stop
    · exact h
  | cancelMark now =>
    unfold Reprocessing.step
    dsimp only
    split <;> exact ⟨h.lateWrites,h.safe⟩
  | _ =>
    unfold Reprocessing.step
    dsimp only
    split <;> exact ⟨h.lateWrites,h.safe⟩

/-- A worker that is not guarded gets to an output when it goes on alone. -/
theorem exists_lateWrite (h : Clear ep sys) (now : Time) {steps : List WorkStep}
    (hworker : sys.worker = some steps) (hguarded : ¬Guarded sys.loaded steps) :
    ∃ after, (run (step ep) sys after).lateWrites ≠ [] := by
  induction steps generalizing sys with
  | nil => exact absurd trivial hguarded
  | cons next rest ih =>
    have hstep : step ep sys (.work now) = sys.workStep ep now rest next := by
      unfold Reprocessing.step
      rw [hworker]
    have hgo : ∀ sys', sys.workStep ep now rest next = sys' → Clear ep sys' →
        sys'.worker = some rest → ¬Guarded sys'.loaded rest →
        ∃ after, (run (step ep) sys after).lateWrites ≠ [] := by
      rintro _ rfl hclear hrest hunguarded
      obtain ⟨after,hlate⟩ := ih hclear hrest hunguarded
      exact ⟨.work now::after,by rwa [run_cons,hstep]⟩
    cases next with
    | report update =>
      obtain ⟨hloaded,hunguarded⟩ := not_or.mp hguarded
      exact hgo _ (if_neg (fun hlook => hloaded hlook.1))
        ⟨h.request,row_updateJobStatus h.row update⟩ rfl hunguarded
    | check step => exact absurd trivial hguarded
    | useJob =>
      obtain ⟨hloaded,hunguarded⟩ := not_or.mp hguarded
      rw [Bool.eq_true_of_not_eq_false hloaded] at hunguarded
      exact hgo _ (if_neg (fun hlook => hloaded hlook.1)) ⟨h.request,h.row⟩ rfl hunguarded
    | cancelOthers =>
      exact hgo _ rfl ⟨h.request,row_cancelExistingJobs h.row _ _⟩ rfl hguarded
    | write w =>
      by_cases hout : w.IsOutput
      · refine ⟨[.work now],?_⟩
        rw [run_cons,hstep]
        change (if _ ∧ w.IsOutput then _ else _) ≠ _
        rw [if_pos ⟨h.request,hout⟩]
        exact List.append_ne_nil_of_right_ne_nil _ (List.cons_ne_nil w [])
      · exact hgo _ rfl ⟨h.request,h.row⟩ rfl (fun hrest => hguarded ⟨hout,hrest⟩)

end Reprocessing

namespace Reprocessing

/-- Once `cancel_post_jobs` has marked the jobs, the clear stops the worker, however all go on,
exactly when the worker is gone or meets the row before its next output. -/
theorem stopsWorker_iff (ep : Episode) {start : Reprocessing} (hstart : Launched ep start)
    (before : List Label) (hmarked : (run (step ep) start before).request = .cancelling [])
    (now : Time) : StopsWorker ep (step ep (run (step ep) start before) (.clear now)) ↔
      (run (step ep) start before).SafeToClear := by
  have hrun : Unclear ep (run (step ep) start before) ∨ Clear ep (run (step ep) start before) := by
    have hunclear : Unclear ep start := by
      refine ⟨?_,hstart.lateWrites,hstart.linked⟩
      rw [hstart.request]
      exact ⟨Request.noConfusion,Request.noConfusion⟩
    refine run_invariant (I := fun sys => Unclear ep sys ∨ Clear ep sys) ?_ (.inl hunclear) before
    rintro sys l (h | h)
    · exact (h.step l).imp_right And.left
    · exact .inr (h.step l)
  generalize run (step ep) start before = sys at hmarked hrun ⊢
  have hunclear : Unclear ep sys := by
    refine hrun.resolve_right (fun h => ?_)
    rcases h.request with hrequest | hrequest <;> exact nomatch hmarked.symm.trans hrequest
  have hclear : Clear ep (step ep sys (.clear now)) ∧
      (step ep sys (.clear now)).lateWrites = [] := by
    refine (hunclear.step (.clear now)).resolve_left (fun h => h.request.1 ?_)
    exact congrArg Reprocessing.request (if_pos hmarked)
  have hsame : (step ep sys (.clear now)).worker = sys.worker ∧
      (step ep sys (.clear now)).loaded = sys.loaded := by
    unfold step
    dsimp only
    rw [if_pos hmarked]
    exact ⟨rfl,rfl⟩
  constructor
  · intro h steps hworker
    by_contra hguarded
    obtain ⟨after,hlate⟩ := exists_lateWrite hclear.1 now (hsame.1.trans hworker)
      (hsame.2 ▸ hguarded)
    exact hlate (h after).1
  · intro hsafe after
    have hquiet : (step ep sys (.clear now)).Quiet :=
      ⟨hclear.2,fun steps hworker => hsame.2 ▸ hsafe steps (hsame.1.symm.trans hworker)⟩
    constructor
    · have hrun := run_invariant (I := fun sys => Clear ep sys ∧ sys.Quiet)
        (fun sys l h => ⟨h.1.step l,h.2.step h.1 l⟩) ⟨hclear.1,hquiet⟩ after
      exact hrun.2.lateWrites
    · intro hsteps
      apply worker_none_of_left
      exact Nat.le_zero.mp ((worker_ends after).trans (Nat.sub_eq_zero_of_le hsteps).le)

end Reprocessing

def episode : Episode := ⟨"job",1,"guid"⟩

/-- A worker that finds its audio and cuts it by its chapters. -/
def launchedWorker : Reprocessing where
  db := ⟨⟨[{ newJob ⟨"job","guid",none,none,none,none,none,false⟩ 0 with status := .running }],
    by decide⟩,none,[⟨1,"guid","Ep",1,true,some "in/Ep.mp3",none⟩],[],[]⟩
  worker := some (process false (.made false .stored "srv/Show/Ep.mp3" (some (.chapter "[]"))))
  loaded := false
  terminating := false
  request := .waiting
  lateWrites := []

theorem launchedWorker_launched : Reprocessing.Launched episode launchedWorker where
  request := rfl
  lateWrites := rfl
  linked := ⟨⟨_,rfl,rfl⟩,by
    intro job hjob
    obtain rfl := Option.some.inj hjob
    rfl⟩

/-- A clear right after the launch. -/
theorem stopsWorker_launched : (run (Reprocessing.step episode) launchedWorker
      [.cancelRead,.cancelMark 0]).request = .cancelling [] ∧
    Reprocessing.StopsWorker episode (Reprocessing.step episode (run (Reprocessing.step episode)
      launchedWorker [.cancelRead,.cancelMark 0]) (.clear 0)) := by
  refine ⟨by decide,(Reprocessing.stopsWorker_iff episode launchedWorker_launched
    [.cancelRead,.cancelMark 0] (by decide) 0).mpr ?_⟩
  intro steps hsteps
  obtain rfl := Option.some.inj hsteps
  exact .inl rfl

/-- The request comes between two polls, while the audio is cut; the supervisor then finds no row,
which does not say cancelled, and the worker stores the path and the chapters. -/
theorem not_stopsWorker_cutting : ¬Reprocessing.StopsWorker episode (Reprocessing.step episode
    (run (Reprocessing.step episode) launchedWorker
      (List.replicate 9 (.work 0) ++ [.poll,.cancelRead,.cancelMark 0])) (.clear 0)) := by
  intro h
  exact absurd (h [.poll,.terminate,.work 0]).1 (by decide)

end Podly.JobsManager.Reprocess
