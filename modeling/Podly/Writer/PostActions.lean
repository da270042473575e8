import Mathlib.Data.List.Infix
import Podly.Writer.JobActions
import Podly.Writer.ProcessedPaths

/-! The actions on posts, feeds, users and the run that also touch rows of `processing_job`. -/
namespace Podly.Writer
open Store

/-- The title of a post's feed, as one query has resolved it. -/
def feedTitle (db : Database) (post : Post) : Option String :=
  (db.feeds.find? (fun feed => feed.id = post.feedId)).map Feed.title

/-- The paths of a post after the check against the disk, and whether one of them changed. -/
def repairPaths (disk : Disk) (feedTitle : Option String) (post : Post) : Post × Bool :=
  let existing := findExistingProcessedAudioPath disk post.processedAudioPath
    post.unprocessedAudioPath feedTitle post.title
  let processed := match existing with
    | some path => some path
    | none => if truthy post.processedAudioPath then none else post.processedAudioPath
  let missing := match post.unprocessedAudioPath with
    | some path => path ≠ "" && !disk.pathExists path
    | none => false
  let post' := { post with
    processedAudioPath := processed,
    unprocessedAudioPath := if missing then none else post.unprocessedAudioPath }
  (post',post.processedAudioPath ≠ processed || missing)

/-- The posts `cleanup_missing_audio_paths` looks at. -/
def hasStoredPath (post : Post) : Bool :=
  post.whitelisted && (post.unprocessedAudioPath.isSome || post.processedAudioPath.isSome)

/-- The latest job of an episode. -/
def latestJob (jobs : List ProcessingJob) (postGuid : String) : Option ProcessingJob :=
  firstDesc ProcessingJob.createdAt (jobs.filter (fun job => job.postGuid = postGuid))

/-- The row changes of a requeue. Only an active job keeps its row: every other status, also a
cancelled one, goes back to pending. -/
def requeue (now : Time) (job : ProcessingJob) : ProcessingJob :=
  if job.status.IsActive then job
  else { job with
    status := .pending, currentStep := some 0, progressPercentage := some 0,
    stepName := some "Not started", errorMessage := none, startedAt := none, completedAt := none,
    stageHistory := some (initialStageHistory (some 0) (some "Not started") now) }

theorem requeue_id (now : Time) (job : ProcessingJob) : (requeue now job).id = job.id := by
  unfold requeue
  split <;> rfl

def requeueLatest (now : Time) (jobs : JobTable) (postGuid : String) : JobTable :=
  match latestJob jobs.rows postGuid with
  | none => jobs
  | some job => jobs.modify job.id (requeue now) (requeue_id now)

/-- The posts of which the cleanup changes a path. -/
def changedPosts (disk : Disk) (db : Database) : List Post :=
  db.posts.filter (fun post => hasStoredPath post && (repairPaths disk (feedTitle db post) post).2)

def cleanupMissingAudioPathsAction (disk : Disk) (now : Time) (db : Database) : Outcome :=
  let changed := changedPosts disk db
  .ok (.count changed.length,{ db with
    posts := db.posts.map (fun post =>
      if hasStoredPath post then (repairPaths disk (feedTitle db post) post).1 else post),
    jobs := changed.foldl (fun jobs post => requeueLatest now jobs post.guid) db.jobs })

def withPost (postId : ℤ) (db : Database) (k : Post → Outcome) : Outcome :=
  match db.posts.find? (fun post => post.id = postId) with
  | none => .error s!"Post {postId} not found"
  | some post => k post

/-- The rows of an episode that a reprocess drops: its jobs, and the model calls not in `keep`. -/
def clearEpisode (keep : ModelCall → Bool) (post : Post) (db : Database) : Database :=
  { db with
    jobs := db.jobs.deleteWhere (fun job => job.postGuid = post.guid),
    modelCalls := db.modelCalls.filter (fun call => call.postId ≠ post.id || keep call),
    posts := db.posts.map (fun p =>
      if p.id = post.id then { p with unprocessedAudioPath := none, processedAudioPath := none }
      else p) }

def clearPostProcessingDataAction (postId : ℤ) (db : Database) : Outcome :=
  withPost postId db fun post => .ok (.post post.id,clearEpisode (fun _ => false) post db)

/-- `whisper_model_call_filter`. `LIKE` ignores case, and its underscore matches any character. -/
def isWhisperCall (call : ModelCall) : Bool :=
  let name := call.modelName.toList.map Char.toLower
  call.prompt = "Whisper transcription job" || decide ("whisper".toList <:+: name) ||
    (decide ("local".toList <+: name) && name.length > 5)

def clearPostProcessingDataKeepTranscriptAction (postId : ℤ) (db : Database) : Outcome :=
  withPost postId db fun post => .ok (.post post.id,clearEpisode isWhisperCall post db)

def cleanupProcessedPostAction (postId : ℤ) (now : Time) (db : Database) : Outcome :=
  if postId = 0 then .error "post_id is required"
  else withPost postId db fun post =>
    let cleared := clearEpisode (fun _ => false) post db
    .ok (.post post.id,recalculateRunCounts now { cleared with
      posts := cleared.posts.map (fun p =>
        if p.id = post.id then { p with whitelisted := false } else p) })

/-- Add several job rows; the flush fails on a taken primary key. -/
def insertJobs (db : Database) : List ProcessingJob → Except String Database
  | [] => .ok db
  | job::jobs =>
    match insertJob job db with
    | .error e => .error e
    | .ok db' => insertJobs db' jobs

/-- The pending job that a new whitelisted post gets. -/
def firstJob (now : Time) (post : Post) (jobId : String) : ProcessingJob :=
  newJob ⟨jobId,post.guid,none,none,some now,none,none,false⟩ now

def firstJobs (now : Time) (created : List (Post × String)) : List ProcessingJob :=
  (created.filter (fun c => c.1.whitelisted)).map (fun c => firstJob now c.1 c.2)

/-- One entry of `existing_post_updates`, as far as the rows are modelled. -/
structure PostUpdate where
  postId : ℤ
  guid : Option String
  title : Option String

def PostUpdate.apply (feedId : ℤ) (update : PostUpdate) (post : Post) : Post :=
  if post.id = update.postId ∧ post.feedId = feedId then
    { post with guid := update.guid.getD post.guid, title := update.title.getD post.title }
  else post

/-- `refresh_feed`: each created post comes with the job id drawn for it. -/
def refreshFeedAction (feedId : ℤ) (title : Option String) (created : List (Post × String))
    (updates : List PostUpdate) (now : Time) (db : Database) : Outcome :=
  if db.feeds.all (fun feed => feed.id ≠ feedId) then .error s!"Feed {feedId} not found"
  else
    let posts := (db.posts ++ created.map Prod.fst).map
      (fun post => updates.foldl (fun post update => update.apply feedId post) post)
    let feeds := db.feeds.map (fun feed =>
      if feed.id = feedId then { feed with title := title.getD feed.title } else feed)
    match insertJobs db (firstJobs now created) with
    | .error e => .error e
    | .ok db' => .ok (.other,recalculateRunCounts now { db' with posts, feeds })

/-- `add_feed`. -/
def addFeedAction (feed : Feed) (created : List (Post × String)) (now : Time) (db : Database) :
    Outcome :=
  match insertJobs db (firstJobs now created) with
  | .error e => .error e
  | .ok db' =>
    .ok (.other,recalculateRunCounts now { db' with
      posts := db.posts ++ created.map Prod.fst, feeds := db.feeds ++ [feed] })

/-- The completed job of a test episode. -/
def devTestJob (now : Time) (post : Post) (jobId : String) : ProcessingJob :=
  { newJob ⟨jobId,post.guid,none,some "completed",some now,none,none,false⟩ now with
    status := .completed, currentStep := some 4, progressPercentage := some 100,
    startedAt := some now, completedAt := some now,
    stageHistory := some (initialStageHistory (some 4) (some "completed") now) }

/-- `create_dev_test_feed`, past its check for an existing feed. -/
def createDevTestFeedAction (feed : Feed) (created : List (Post × String)) (now : Time)
    (db : Database) : Outcome :=
  match insertJobs db (created.map (fun c => devTestJob now c.1 c.2)) with
  | .error e => .error e
  | .ok db' =>
    .ok (.other,{ db' with
      posts := db.posts ++ created.map Prod.fst, feeds := db.feeds ++ [feed] })

def deleteFeedCascadeAction (feedId : ℤ) (db : Database) : Outcome :=
  if feedId = 0 then .error "feed_id is required"
  else if db.feeds.all (fun feed => feed.id ≠ feedId) then .ok (.other,db)
  else
    let posts := db.posts.filter (fun post => post.feedId = feedId)
    .ok (.other,{ db with
      jobs := db.jobs.deleteWhere (fun job => posts.any (fun post => post.guid = job.postGuid)),
      modelCalls := db.modelCalls.filter
        (fun call => posts.all (fun post => post.id ≠ call.postId)),
      posts := db.posts.filter (fun post => post.feedId ≠ feedId),
      feeds := db.feeds.filter (fun feed => feed.id ≠ feedId) })

/-- What deleting a user does to a job: the references to the user become null. -/
def forgetUser (userId : ℤ) (job : ProcessingJob) : ProcessingJob :=
  { job with
    requestedByUserId := job.requestedByUserId.filter (fun id => id ≠ userId),
    billingUserId := job.billingUserId.filter (fun id => id ≠ userId) }

def deleteUserAction (userId : ℤ) (db : Database) : Outcome :=
  .ok (.other,{ db with jobs := db.jobs.mapRows (forgetUser userId) (fun _ => rfl) })

/-- `ensure_active_run`. -/
def ensureActiveRunAction (trigger : String) (now : Time) (db : Database) : Outcome :=
  let run := match db.run with
    | some run =>
      let startedAt := run.startedAt.getD now
      { run with
        trigger, updatedAt := now, startedAt := some startedAt,
        countersResetAt := some (run.countersResetAt.getD startedAt) }
    | none =>
      { status := .running, trigger, startedAt := some now, completedAt := none, totalJobs := 0,
        queuedJobs := 0, runningJobs := 0, completedJobs := 0, failedJobs := 0,
        skippedJobs := 0, countersResetAt := some now, createdAt := now, updatedAt := now }
  .ok (.run singletonRunId,{ db with run := some run })

end Podly.Writer
