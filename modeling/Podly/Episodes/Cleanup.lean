import Podly.Episodes.Rows

/-! The actions that clear an episode or a feed. They select segments, calls and audio by the id of
a post, identifications through its segments, memberships and tokens by the id of a feed, and jobs
by a guid. -/
namespace Podly.Episodes
open Store

/-- What an action leaves; an error rolls back. What it replies is left out. -/
abbrev Outcome := Except String Database

/-- `db.session.get(Post, post_id)` and its `ValueError`. -/
def withPost (postId : ℕ) (db : Database) (k : Post → Outcome) : Outcome :=
  match db.posts.get postId with
  | none => .error s!"Post {postId} not found"
  | some post => k post

/-- Forget the files of a post and the outputs that are not kept. -/
def Post.reset (keepOutput : OutputColumn → Bool) (post : Post) : Post :=
  { post with
    unprocessedAudioPath := none, processedAudioPath := none,
    outputs := fun column => if keepOutput column then post.outputs column else none }

theorem Post.reset_id (keepOutput : OutputColumn → Bool) (post : Post) :
    (post.reset keepOutput).id = post.id := rfl

theorem Post.reset_key (keepOutput : OutputColumn → Bool) (post : Post) :
    (post.reset keepOutput).key = post.key := rfl

/-- Delete what belongs to a post, except for the segments, the calls and the outputs to keep. -/
def clearPost (keepSegments : Bool) (keepCall : ModelCall → Bool)
    (keepOutput : OutputColumn → Bool) (post : Post) (db : Database) : Database :=
  { db with
    identifications := db.deleteIdentifications (fun postId => postId = post.id),
    segments := db.segments.deleteWhere
      (fun segment => segment.postId = post.id && !keepSegments),
    audioSegments := db.audioSegments.deleteWhere (fun audio => audio.postId = post.id),
    calls := db.calls.deleteWhere (fun call => call.postId = post.id && !keepCall call),
    jobs := db.jobs.deleteWhere (fun job => job.postGuid = post.guid),
    posts := db.posts.modify post.id (Post.reset keepOutput) (Post.reset_id keepOutput)
      (Post.reset_key keepOutput) }

def clearPostProcessingDataAction (postId : ℕ) (db : Database) : Outcome :=
  withPost postId db fun post =>
    .ok (clearPost false (fun _ => false) (fun _ => false) post db)

/-- `whisper_model_call_filter`. -/
def isWhisperCall (call : ModelCall) : Bool :=
  Writer.isWhisperCall ⟨call.id,call.postId,call.modelName,call.prompt,call.status,
    call.errorMessage⟩

def clearPostProcessingDataKeepTranscriptAction (postId : ℕ) (db : Database) : Outcome :=
  withPost postId db fun post =>
    .ok (clearPost true isWhisperCall (fun column => column = .transcriptWordTimestamps) post db)

/-- `cleanup_processed_post`. -/
def cleanupProcessedPostAction (postId : ℕ) (now : Writer.Time) (db : Database) : Outcome :=
  if postId = 0 then .error "post_id is required"
  else withPost postId db fun post =>
    let cleared := clearPost false (fun _ => false) (fun _ => false) post db
    .ok (Database.recount now { cleared with
      posts := cleared.posts.modify post.id (fun post => { post with whitelisted := false })
        (fun _ => rfl) (fun _ => rfl) })

/-- A call of the post that is not finished yet is marked as superseded. -/
def ModelCall.supersede (postId : ℕ) (call : ModelCall) : ModelCall :=
  match call.status with
  | .unfinished _ =>
    if call.postId = postId then
      { call with
        status := .cancelled, errorMessage := some "Superseded by a new processing job" }
    else call
  | _ => call

section
variable (postId : ℕ) (call : ModelCall)

theorem ModelCall.supersede_id : (call.supersede postId).id = call.id := by
  unfold supersede
  split
  · split <;> rfl
  · rfl

theorem ModelCall.supersede_key : (call.supersede postId).key = call.key := by
  unfold supersede
  split
  · split <;> rfl
  · rfl

theorem ModelCall.supersede_of_ne (h : call.postId ≠ postId) : call.supersede postId = call := by
  unfold supersede
  split
  · exact if_neg h
  · rfl

end

/-- Supersede the calls of a post. -/
def supersedeCalls (postId : ℕ) (db : Database) : Indexed ModelCall.id ModelCall.key :=
  db.calls.mapRows (ModelCall.supersede postId) (ModelCall.supersede_id postId)
    (ModelCall.supersede_key postId)

/-- The jobs `cancel_existing_jobs` deletes. -/
def isExisting (postGuid : String) (currentJobId : Option String)
    (job : Writer.ProcessingJob) : Bool :=
  job.postGuid = postGuid && job.status.IsActive && some job.id ≠ currentJobId

/-- `Post.query.filter_by(guid=post_guid).first()`. -/
def firstPost (db : Database) (postGuid : String) : Option Post :=
  db.posts.table.rows.find? (fun post => post.guid = postGuid)

/-- The calls of the first post that has the guid are superseded, when a job is deleted. -/
def cancelExistingJobs (postGuid : String) (currentJobId : Option String) (now : Writer.Time)
    (db : Database) : Database :=
  let jobs := db.jobs.deleteWhere (isExisting postGuid currentJobId)
  if db.jobs.rows.any (isExisting postGuid currentJobId) then
    let calls := match firstPost db postGuid with
      | none => db.calls
      | some post => supersedeCalls post.id db
    Database.recount now { db with jobs, calls }
  else { db with jobs }

def cancelExistingJobsAction (postGuid : String) (currentJobId : Option String)
    (now : Writer.Time) (db : Database) : Outcome :=
  .ok (cancelExistingJobs postGuid currentJobId now db)

/-- A post of the feed has the id. -/
def postIn (db : Database) (feedId postId : ℕ) : Bool :=
  db.posts.table.rows.any (fun post => post.feedId = feedId && post.id = postId)

/-- A post of the feed has the guid. -/
def guidIn (db : Database) (feedId : ℕ) (guid : String) : Bool :=
  db.posts.table.rows.any (fun post => post.feedId = feedId && post.guid = guid)

/-- Delete the rows of a feed. The audio segments of its posts are not among them. -/
def deleteFeed (feedId : ℕ) (db : Database) : Database :=
  { db with
    identifications := db.deleteIdentifications (postIn db feedId),
    segments := db.segments.deleteWhere (fun segment => postIn db feedId segment.postId),
    calls := db.calls.deleteWhere (fun call => postIn db feedId call.postId),
    jobs := db.jobs.deleteWhere (fun job => guidIn db feedId job.postGuid),
    posts := db.posts.deleteWhere (fun post => post.feedId = feedId),
    tokens := db.tokens.deleteWhere (fun token => token.feedId = some feedId),
    memberships := db.memberships.deleteWhere (fun membership => membership.feedId = feedId),
    feeds := db.feeds.deleteWhere (fun feed => feed.id = feedId) }

/-- `delete_feed_cascade`. -/
def deleteFeedCascadeAction (feedId : ℕ) (db : Database) : Outcome :=
  if feedId = 0 then .error "feed_id is required"
  else match db.feeds.get feedId with
    | none => .ok db
    | some _ => .ok (deleteFeed feedId db)

theorem postIn_eq_true {db : Database} {feedId postId : ℕ} : postIn db feedId postId = true ↔
    ∃ post ∈ db.posts.table.rows, post.feedId = feedId ∧ post.id = postId := by
  simp [postIn]

theorem guidIn_eq_true {db : Database} {feedId : ℕ} {guid : String} :
    guidIn db feedId guid = true ↔
      ∃ post ∈ db.posts.table.rows, post.feedId = feedId ∧ post.guid = guid := by
  simp [guidIn]

end Podly.Episodes
