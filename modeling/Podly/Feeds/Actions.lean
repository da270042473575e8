import Podly.Feeds.Document
import Podly.Writer.Executor

/-! The commands of the writer, as far as they write what a feed document is made from. -/
namespace Podly.Feeds
open Store Writer

section
variable (sys : System)

def Feed.toRow (feed : Feed) : Writer.Feed := ⟨feed.id,feed.title⟩

def Post.toRow (post : Post) : Writer.Post :=
  ⟨post.id,post.guid,post.title,post.feedId,post.whitelisted,post.unprocessedAudioPath,
    post.processedAudioPath⟩

/-- The rows as the job actions see them. -/
def System.toDatabase : Database :=
  ⟨sys.jobs,sys.run,sys.posts.rows.map Post.toRow,sys.feeds.rows.map Feed.toRow,[]⟩

/-- Take over the rows that a job action leaves. -/
def System.withJobs (db : Database) : System := { sys with jobs := db.jobs, run := db.run }

def System.recalculate (now : Time) : System :=
  sys.withJobs (recalculateRunCounts now sys.toDatabase)

def System.modifyPosts (f : Post → Post) (hf : ∀ post, (f post).id = post.id) : System :=
  { sys with posts := sys.posts.mapRows f hf }

/-- Change the posts that a condition selects. -/
def System.updatePosts (p : Post → Bool) (f : Post → Post) (hf : ∀ post, (f post).id = post.id) :
    System :=
  sys.modifyPosts (fun post => if p post then f post else post) (by
    intro post
    split
    · exact hf post
    · rfl)

/-- `Path.unlink` on those of the paths that are files. -/
def System.unlink (paths : List String) : System :=
  { sys with disk := { sys.disk with
    fileSize := fun path => if path ∈ paths then none else sys.disk.fileSize path
    pathExists := fun path =>
      sys.disk.pathExists path && !(path ∈ paths && (sys.disk.fileSize path).isSome) } }

end

abbrev Outcome := Except String System

/-- Whether an action of the writer changes no rows but those of the jobs and of the run. -/
def writesJobs (action : Writer.Action) : Bool :=
  match action with
  | .dequeueJob _ | .cleanupStaleJobs _ | .clearAllJobs | .clearActiveJobs | .createJob _ => true
  | .createJobIfMissing _ | .cancelExistingJobs _ _ | .updateJobAttribution _ _ _ _ => true
  | .updateJobStatus _ _ | .markCancelled _ _ | .markClassificationParseError _ => true
  | .recordAdWindowsCount _ _ | .markAutoRetryAttempted _ | .reassignPendingJobs _ => true
  | .deleteUser _ | .ensureActiveRun _ => true
  | _ => false

/-- `updates` of `refresh_feed`: the columns the document shows, and whether there are others. -/
structure FeedUpdates where
  title : Option String
  description : Option (Option String)
  imageUrl : Option (Option String)
  others : Bool

def FeedUpdates.isEmpty (updates : FeedUpdates) : Bool :=
  updates.title.isNone && updates.description.isNone && updates.imageUrl.isNone && !updates.others

def FeedUpdates.apply (updates : FeedUpdates) (feed : Feed) : Feed :=
  { feed with
    title := updates.title.getD feed.title
    description := updates.description.getD feed.description
    imageUrl := updates.imageUrl.getD feed.imageUrl }

theorem FeedUpdates.apply_id (updates : FeedUpdates) (feed : Feed) :
    (updates.apply feed).id = feed.id := rfl

/-- An entry of `existing_post_updates`. -/
structure PostUpdate where
  postId : ℤ
  guid : Option String
  title : Option String
  description : Option (Option String)
  imageUrl : Option (Option String)
  duration : Option (Option ℚ)

def PostUpdate.isEmpty (update : PostUpdate) : Bool :=
  update.guid.isNone && update.title.isNone && update.description.isNone &&
    update.imageUrl.isNone && update.duration.isNone

def PostUpdate.apply (update : PostUpdate) (post : Post) : Post :=
  { post with
    guid := update.guid.getD post.guid
    title := update.title.getD post.title
    description := update.description.getD post.description
    imageUrl := update.imageUrl.getD post.imageUrl
    duration := update.duration.getD post.duration }

/-- A post that is created, and the id drawn for its job. -/
abbrev NewPost := Post × String

/-- The generic update of a post: the columns of `model_spec` that the document depends on. -/
structure PostFields where
  unprocessedAudioPath : Option (Option String)
  processedAudioPath : Option (Option String)
  duration : Option (Option ℚ)
  whitelisted : Option Bool
  chapterData : Option (Option ChapterData)

def PostFields.apply (fields : PostFields) (post : Post) : Post :=
  { post with
    unprocessedAudioPath := fields.unprocessedAudioPath.getD post.unprocessedAudioPath
    processedAudioPath := fields.processedAudioPath.getD post.processedAudioPath
    duration := fields.duration.getD post.duration
    whitelisted := fields.whitelisted.getD post.whitelisted
    chapterData := fields.chapterData.getD post.chapterData }

/-- The writer actions and generic updates. `others` stands for those that write nothing a document
depends on: they work on users, tokens, transcripts, model calls, settings of a feed or download
counts. Between commands the pipeline writes and deletes files: `files`. -/
inductive Action
  | jobs (action : {action : Writer.Action // writesJobs action})
  | refreshFeed (feedId : ℤ) (updates : FeedUpdates) (newPosts : List NewPost)
      (existingPostUpdates : List PostUpdate)
  | addFeed (feed : Feed) (posts : List NewPost)
  | createDevTestFeed (feed : Feed) (posts : List NewPost)
  | deleteFeedCascade (feedId : ℤ)
  | whitelistPost (postId : ℤ)
  | whitelistLatestPostForFeed (feedId : ℤ)
  | toggleWhitelistAllForFeed (feedId : ℤ) (newStatus : Bool)
  | clearPostProcessingData (postId : ℤ)
  | clearPostProcessingDataKeepTranscript (postId : ℤ)
  | preparePostForAutoRetry (postId : ℤ)
  | cleanupProcessedPost (postId : ℤ)
  | cleanupProcessedPostFilesOnly (postId : ℤ)
  | cleanupMissingAudioPaths
  | updatePost (postId : ℤ) (fields : PostFields)
  | updateCombinedConfig (autoprocessOnDownload : Option Bool)
  | others
  | files (disk : Disk)

/-- An action and the clock it reads. -/
structure Command where
  action : Action
  now : Time

section
variable (now : Time) (sys : System)

/-- Insert posts; the flush fails on a taken primary key. -/
def insertPosts (posts : Table Post.id) : List Post → Option (Table Post.id)
  | [] => some posts
  | post::rest => (posts.insert post).bind (fun posts => insertPosts posts rest)

/-- Create posts with their jobs. -/
def createPosts (newPosts : List NewPost) (jobs : List ProcessingJob) : Outcome :=
  match insertPosts sys.posts (newPosts.map Prod.fst) with
  | none => .error "UNIQUE constraint failed: post.id"
  | some posts =>
    match insertJobs sys.toDatabase jobs with
    | .error e => .error e
    | .ok db => .ok { sys.withJobs db with posts }

def newPostRows (newPosts : List NewPost) : List (Writer.Post × String) :=
  newPosts.map (fun c => (c.1.toRow,c.2))

/-- `post_update` applies to the post it names, if the feed has it. -/
def PostUpdate.selects (update : PostUpdate) (feedId : ℤ) (post : Post) : Bool :=
  update.postId ≠ 0 && post.id = update.postId && post.feedId = feedId

/-- `_apply_existing_post_updates`: how many of them change a post. -/
def updatedPostsCount (feedId : ℤ) (updates : List PostUpdate) (posts : List Post) : ℕ :=
  updates.countP (fun update => !update.isEmpty && posts.any (update.selects feedId))

def applyExistingPostUpdates (feedId : ℤ) (updates : List PostUpdate) : System :=
  updates.foldl (fun sys update =>
    sys.updatePosts (update.selects feedId) update.apply (fun _ => rfl)) sys

/-- `feed.last_changed_at = datetime.now(UTC)`. -/
def Feed.touch (feed : Feed) : Feed := { feed with lastChangedAt := now }

theorem Feed.touch_id (feed : Feed) : (feed.touch now).id = feed.id := rfl

def refreshFeedAction (feedId : ℤ) (updates : FeedUpdates) (newPosts : List NewPost)
    (existingPostUpdates : List PostUpdate) : Outcome :=
  if (sys.feeds.get feedId).isNone then .error s!"Feed {feedId} not found"
  else
    let updated := { sys with feeds := sys.feeds.modify feedId updates.apply updates.apply_id }
    match createPosts updated newPosts (firstJobs now (newPostRows newPosts)) with
    | .error e => .error e
    | .ok created =>
      let count := updatedPostsCount feedId existingPostUpdates created.posts.rows
      let applied := applyExistingPostUpdates created feedId existingPostUpdates
      let touched :=
        if !updates.isEmpty || newPosts ≠ [] || count > 0 then
          { applied with feeds := applied.feeds.modify feedId (Feed.touch now) (Feed.touch_id now) }
        else applied
      .ok (touched.recalculate now)

/-- A new feed takes a fresh id, which its posts point to. -/
def createFeed (feed : Feed) (newPosts : List NewPost) (jobs : List ProcessingJob) : Outcome :=
  match sys.feeds.insert (feed.touch now) with
  | none => .error "UNIQUE constraint failed: feed.id"
  | some feeds =>
    let newPosts := newPosts.map (fun c => ({ c.1 with feedId := feed.id },c.2))
    createPosts { sys with feeds } newPosts jobs

def addFeedAction (feed : Feed) (newPosts : List NewPost) : Outcome :=
  match createFeed now sys feed newPosts (firstJobs now (newPostRows newPosts)) with
  | .error e => .error e
  | .ok created => .ok (created.recalculate now)

/-- `create_dev_test_feed`, past its check for an existing feed. -/
def createDevTestFeedAction (feed : Feed) (newPosts : List NewPost) : Outcome :=
  createFeed now sys feed newPosts
    ((newPostRows newPosts).map (fun c => devTestJob now c.1 c.2))

def deleteFeedCascadeAction (feedId : ℤ) : Outcome :=
  if feedId = 0 then .error "feed_id is required"
  else if (sys.feeds.get feedId).isNone then .ok sys
  else
    let posts := sys.posts.rows.filter (fun post => post.feedId = feedId)
    .ok { sys with
      jobs := sys.jobs.deleteWhere (fun job => posts.any (fun post => post.guid = job.postGuid))
      posts := sys.posts.deleteWhere (fun post => post.feedId = feedId)
      feeds := sys.feeds.deleteWhere (fun feed => feed.id = feedId) }

def Post.whitelist (status : Bool) (post : Post) : Post := { post with whitelisted := status }

def whitelistPostAction (postId : ℤ) : Outcome :=
  if postId = 0 then .error "post_id is required"
  else .ok (sys.updatePosts (fun post => post.id = postId) (Post.whitelist true) (fun _ => rfl))

def whitelistLatestPostForFeedAction (feedId : ℤ) : Outcome :=
  if feedId = 0 then .error "feed_id is required"
  else match (newestFirst (sys.posts.rows.filter (fun post => post.feedId = feedId))).head? with
    | none => .ok sys
    | some latest => .ok (sys.updatePosts (fun post => post.id = latest.id) (Post.whitelist true)
        (fun _ => rfl))

def toggleWhitelistAllForFeedAction (feedId : ℤ) (newStatus : Bool) : Outcome :=
  .ok (sys.updatePosts (fun post => post.feedId = feedId) (Post.whitelist newStatus)
    (fun _ => rfl))

def withPost (postId : ℤ) (k : Post → Outcome) : Outcome :=
  match sys.posts.get postId with
  | none => .error s!"Post {postId} not found"
  | some post => k post

/-- The output columns that a reprocess resets. -/
def Post.resetOutput (post : Post) : Post :=
  { post with processedAudioPath := none, duration := none, chapterData := none }

/-- What both kinds of a reprocess do to the post and its jobs. -/
def clearPost (post : Post) : System :=
  let cleared := sys.updatePosts (fun p => p.id = post.id)
    (fun p => { p.resetOutput with unprocessedAudioPath := none }) (fun _ => rfl)
  { cleared with jobs := cleared.jobs.deleteWhere (fun job => job.postGuid = post.guid) }

def clearPostProcessingDataAction (postId : ℤ) : Outcome :=
  withPost sys postId fun post => .ok (clearPost sys post)

def clearPostProcessingDataKeepTranscriptAction (postId : ℤ) : Outcome :=
  withPost sys postId fun post => .ok (clearPost sys post)

/-- The title of a post's feed. -/
def feedTitle (post : Post) : Option String := (sys.feeds.get post.feedId).map Feed.title

def preparePostForAutoRetryAction (postId : ℤ) : Outcome :=
  withPost sys postId fun post =>
    let candidates := getProcessedAudioPathCandidates sys.disk post.processedAudioPath
      post.unprocessedAudioPath (feedTitle sys post) post.title
    .ok ((sys.unlink candidates).updatePosts (fun p => p.id = post.id) Post.resetOutput
      (fun _ => rfl))

def cleanupProcessedPostAction (postId : ℤ) : Outcome :=
  if postId = 0 then .error "post_id is required"
  else withPost sys postId fun post =>
    .ok (((clearPost sys post).updatePosts (fun p => p.id = post.id) (Post.whitelist false)
      (fun _ => rfl)).recalculate now)

def cleanupProcessedPostFilesOnlyAction (postId : ℤ) : Outcome :=
  if postId = 0 then .error "post_id is required"
  else withPost sys postId fun post =>
    let paths := [post.unprocessedAudioPath,post.processedAudioPath].filterMap id
    .ok ((sys.unlink (paths.filter (· ≠ ""))).updatePosts (fun p => p.id = post.id)
      (fun p => { p with
        unprocessedAudioPath := none, processedAudioPath := none, whitelisted := false })
      (fun _ => rfl))

/-- The paths of a post after the check against the disk, and whether one of them changed. -/
def repairPost (post : Post) : Post × Bool :=
  let (row,changed) := repairPaths sys.disk (feedTitle sys post) post.toRow
  ({ post with
    unprocessedAudioPath := row.unprocessedAudioPath
    processedAudioPath := row.processedAudioPath },changed)

def cleanupMissingAudioPathsAction : Outcome :=
  let stored : Post → Bool := fun post => hasStoredPath post.toRow
  let changed := sys.posts.rows.filter (fun post => stored post && (repairPost sys post).2)
  .ok { sys.updatePosts stored (fun post => (repairPost sys post).1) (fun _ => rfl) with
    jobs := changed.foldl (fun jobs post => requeueLatest now jobs post.guid) sys.jobs }

/-- `execute_model_update` on a post. -/
def updatePostAction (postId : ℤ) (fields : PostFields) : Outcome :=
  if postId = 0 then .error "model id must be nonzero"
  else if (sys.posts.get postId).isNone then .error "record not found"
  else .ok (sys.updatePosts (fun post => post.id = postId) fields.apply (fun _ => rfl))

end

/-- Run the action of a command. -/
def perform (sys : System) (cmd : Command) : Outcome :=
  match cmd.action with
  | .jobs action =>
    match Writer.perform sys.toDatabase ⟨action,cmd.now⟩ with
    | .error e => .error e
    | .ok (_,db) => .ok (sys.withJobs db)
  | .refreshFeed feedId updates newPosts existingPostUpdates =>
    refreshFeedAction cmd.now sys feedId updates newPosts existingPostUpdates
  | .addFeed feed posts => addFeedAction cmd.now sys feed posts
  | .createDevTestFeed feed posts => createDevTestFeedAction cmd.now sys feed posts
  | .deleteFeedCascade feedId => deleteFeedCascadeAction sys feedId
  | .whitelistPost postId => whitelistPostAction sys postId
  | .whitelistLatestPostForFeed feedId => whitelistLatestPostForFeedAction sys feedId
  | .toggleWhitelistAllForFeed feedId newStatus =>
    toggleWhitelistAllForFeedAction sys feedId newStatus
  | .clearPostProcessingData postId => clearPostProcessingDataAction sys postId
  | .clearPostProcessingDataKeepTranscript postId =>
    clearPostProcessingDataKeepTranscriptAction sys postId
  | .preparePostForAutoRetry postId => preparePostForAutoRetryAction sys postId
  | .cleanupProcessedPost postId => cleanupProcessedPostAction cmd.now sys postId
  | .cleanupProcessedPostFilesOnly postId => cleanupProcessedPostFilesOnlyAction sys postId
  | .cleanupMissingAudioPaths => cleanupMissingAudioPathsAction cmd.now sys
  | .updatePost postId fields => updatePostAction sys postId fields
  | .updateCombinedConfig autoprocessOnDownload => .ok { sys with
    autoprocessOnDownload := autoprocessOnDownload.getD sys.autoprocessOnDownload }
  | .others => .ok sys
  | .files disk => .ok { sys with disk }

/-- `uq_post_feed_id_guid`. -/
def System.UniqueGuids (sys : System) : Prop :=
  (sys.posts.rows.map (fun post => (post.feedId,post.guid))).Nodup

instance (sys : System) : Decidable sys.UniqueGuids := inferInstanceAs (Decidable (List.Nodup _))

/-- `process_command`: commit on success, roll back on failure. -/
def execute (sys : System) (cmd : Command) : System :=
  match perform sys cmd with
  | .error _ => sys
  | .ok sys' => if sys'.UniqueGuids then sys' else sys

end Podly.Feeds
