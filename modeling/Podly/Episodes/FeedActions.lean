import Mathlib.Data.Prod.Lex
import Podly.Episodes.ProcessorActions
import Podly.Writer.Executor

/-! The actions of the writer on feeds, posts and jobs. -/
namespace Podly.Episodes
open Store

/-- A post as the job actions see it. -/
def Post.toWriter (post : Post) : Writer.Post :=
  ⟨post.id,post.guid,post.title,post.feedId,post.whitelisted,post.unprocessedAudioPath,
    post.processedAudioPath⟩

/-- A column of `feed`, with the value that an update writes. -/
inductive FeedColumn
  | title (value : String)
  | rssUrl (value : String)

def FeedColumn.apply (column : FeedColumn) (feed : Feed) : Feed :=
  match column with
  | .title value => { feed with title := value }
  | .rssUrl value => { feed with rssUrl := value }

theorem FeedColumn.apply_id (column : FeedColumn) (feed : Feed) :
    (column.apply feed).id = feed.id := by
  cases column <;> rfl

/-- Write columns of a feed one after the other. -/
def setFeedColumns (feedId : ℕ) : List FeedColumn → Indexed Feed.id Feed.rssUrl →
    Option (Indexed Feed.id Feed.rssUrl)
  | [], feeds => some feeds
  | column::columns, feeds =>
    match feeds.update feedId column.apply column.apply_id with
    | none => none
    | some feeds' => setFeedColumns feedId columns feeds'

/-- A post as it is created, with the id that is drawn for its job. -/
structure NewPost where
  id : Option ℕ
  guid : String
  downloadUrl : String
  title : String
  releaseDate : Option Writer.Time
  whitelisted : Bool
  unprocessedAudioPath : Option String
  processedAudioPath : Option String
  outputs : OutputColumn → Option String
  jobId : String

def NewPost.toPost (new : NewPost) (feedId nextId : ℕ) : Post :=
  ⟨new.id.getD nextId,feedId,new.guid,new.downloadUrl,new.title,new.releaseDate,new.whitelisted,
    new.unprocessedAudioPath,new.processedAudioPath,new.outputs⟩

/-- Insert a post under its own id or the next one, unless a unique constraint refuses it. -/
def insertPost (feedId : ℕ) (new : NewPost) (posts : Indexed Post.id Post.key) :
    Option (Indexed Post.id Post.key) :=
  if posts.table.rows.any (fun post => post.feedId = feedId && post.downloadUrl = new.downloadUrl)
  then none
  else posts.insert (new.toPost feedId posts.table.nextKey)

def insertPosts (feedId : ℕ) : List NewPost → Indexed Post.id Post.key →
    Option (Indexed Post.id Post.key)
  | [], posts => some posts
  | new::rest, posts =>
    match insertPost feedId new posts with
    | none => none
    | some posts' => insertPosts feedId rest posts'

def insertJobs : List Writer.ProcessingJob → Writer.JobTable → Option Writer.JobTable
  | [], jobs => some jobs
  | job::rest, jobs =>
    match jobs.insert job with
    | none => none
    | some jobs' => insertJobs rest jobs'

/-- Insert posts of a feed, and then jobs for some of them. -/
def createPosts (feedId : ℕ) (created : List NewPost) (newJobs : List Writer.ProcessingJob)
    (db : Database) : Option Database :=
  match insertPosts feedId created db.posts with
  | none => none
  | some posts =>
    match insertJobs newJobs db.jobs with
    | none => none
    | some jobs => some { db with posts, jobs }

/-- The pending jobs of new posts that are whitelisted. -/
def firstJobs (now : Writer.Time) (created : List NewPost) : List Writer.ProcessingJob :=
  (created.filter NewPost.whitelisted).map (fun new =>
    Writer.newJob ⟨new.jobId,new.guid,none,none,some now,none,none,false⟩ now)

/-- One entry of `existing_post_updates`. -/
structure PostUpdate where
  postId : ℕ
  guid : Option String
  title : Option String
  duration : Option (Option String)

def PostUpdate.apply (update : PostUpdate) (post : Post) : Post :=
  { post with
    guid := update.guid.getD post.guid, title := update.title.getD post.title,
    outputs := fun column =>
      if column = .duration then update.duration.getD (post.outputs column)
      else post.outputs column }

theorem PostUpdate.apply_id (update : PostUpdate) (post : Post) :
    (update.apply post).id = post.id := rfl

/-- Update a post of the feed; an entry for no post of it is passed over. -/
def updateExisting (feedId : ℕ) (update : PostUpdate) (posts : Indexed Post.id Post.key) :
    Option (Indexed Post.id Post.key) :=
  if update.postId = 0 then some posts
  else match posts.get update.postId with
    | none => some posts
    | some post =>
      if post.feedId = feedId then posts.update update.postId update.apply update.apply_id
      else some posts

def updateExistingPosts (feedId : ℕ) : List PostUpdate → Indexed Post.id Post.key →
    Option (Indexed Post.id Post.key)
  | [], posts => some posts
  | update::updates, posts =>
    match updateExisting feedId update posts with
    | none => none
    | some posts' => updateExistingPosts feedId updates posts'

/-- `refresh_feed`. -/
def refreshFeedAction (feedId : ℕ) (columns : List FeedColumn) (created : List NewPost)
    (updates : List PostUpdate) (now : Writer.Time) (db : Database) : Outcome :=
  match db.feeds.get feedId with
  | none => .error s!"Feed {feedId} not found"
  | some _ =>
    match setFeedColumns feedId columns db.feeds, createPosts feedId created
        (firstJobs now created) db with
    | some feeds, some db' =>
      match updateExistingPosts feedId updates db'.posts with
      | none => .error databaseError
      | some posts => .ok (Database.recount now { db' with feeds, posts })
    | _, _ => .error databaseError

/-- A feed as it is created. -/
structure NewFeed where
  id : Option ℕ
  title : String
  rssUrl : String

/-- Insert a feed under its own id or the next one. -/
def insertFeed (new : NewFeed) (db : Database) : Option (ℕ × Database) :=
  let feedId := new.id.getD db.feeds.table.nextKey
  match db.feeds.insert ⟨feedId,new.title,new.rssUrl⟩ with
  | none => none
  | some feeds => some (feedId,{ db with feeds })

/-- `add_feed`. -/
def addFeedAction (feed : NewFeed) (created : List NewPost) (now : Writer.Time) (db : Database) :
    Outcome :=
  match insertFeed feed db with
  | none => .error databaseError
  | some (feedId,db') =>
    match createPosts feedId created (firstJobs now created) db' with
    | none => .error databaseError
    | some db'' => .ok (Database.recount now db'')

/-- The test episode of a number, with the id that is drawn for its job. -/
def testPost (guidPrefix downloadUrlPrefix : String) (feedId : ℕ) (now : Writer.Time)
    (index : ℕ) (jobId : String) : NewPost :=
  { id := none, guid := s!"{guidPrefix}-{feedId}-{index}",
    downloadUrl := s!"{downloadUrlPrefix}/{feedId}/{index}.mp3", title := s!"Test Episode {index}",
    releaseDate := some now, whitelisted := true, unprocessedAudioPath := none,
    processedAudioPath := none,
    outputs := fun column => if column = .duration then some "3600" else none, jobId }

/-- The completed jobs of test episodes. -/
def completedJobs (now : Writer.Time) (feedId : ℕ) (created : List NewPost) :
    List Writer.ProcessingJob :=
  created.map (fun new => Writer.devTestJob now (new.toPost feedId 0).toWriter new.jobId)

/-- `create_dev_test_feed`; it creates a post for each job id. -/
def createDevTestFeedAction (rssUrl title guidPrefix downloadUrlPrefix : String)
    (jobIds : List String) (now : Writer.Time) (db : Database) : Outcome :=
  if rssUrl = "" ∨ title = "" then .error "rss_url and title are required"
  else match db.feeds.find rssUrl with
    | some _ => .ok db
    | none =>
      match insertFeed ⟨none,title,rssUrl⟩ db with
      | none => .error databaseError
      | some (feedId,db') =>
        let created := jobIds.mapIdx (fun i =>
          testPost guidPrefix downloadUrlPrefix feedId now (i + 1))
        match createPosts feedId created (completedJobs now feedId created) db' with
        | none => .error databaseError
        | some db'' => .ok db''

def ensureUserFeedMembershipAction (feedId userId : ℕ) (db : Database) : Outcome :=
  if feedId = 0 ∨ userId = 0 then .error "feed_id and user_id are required"
  else match db.memberships.insert ⟨db.memberships.table.nextKey,feedId,userId⟩ with
    | none => .ok db
    | some memberships => .ok { db with memberships }

def removeUserFeedMembershipAction (feedId userId : ℕ) (db : Database) : Outcome :=
  if feedId = 0 ∨ userId = 0 then .error "feed_id and user_id are required"
  else .ok { db with
    memberships := db.memberships.deleteWhere
      (fun row => row.feedId = feedId && row.userId = userId) }

/-- `create_feed_access_token`: an active token of the user and the feed is used again. -/
def createFeedAccessTokenAction (userId : ℕ) (feedId : Option ℕ) (db : Database) : Outcome :=
  if userId = 0 then .error "user_id is required"
  else if db.tokens.rows.any (fun token =>
      token.userId = userId && !token.revoked && token.feedId = feedId) then .ok db
  else .ok { db with tokens := db.tokens.append (fun id => ⟨id,feedId,userId,false⟩) (fun _ => rfl) }

/-- Write `whitelisted` of the posts a condition selects. -/
def setWhitelisted (p : Post → Bool) (value : Bool) (db : Database) : Database :=
  { db with
    posts := db.posts.mapRows (fun post => { post with
        whitelisted := if p post then value else post.whitelisted })
      (fun _ => rfl) (fun _ => rfl) }

def whitelistPostAction (postId : ℕ) (db : Database) : Outcome :=
  if postId = 0 then .error "post_id is required"
  else .ok (setWhitelisted (fun post => post.id = postId) true db)

/-- The latest post of a feed: by its release date, those without one last, and then by its id. -/
def latestPost (feedId : ℕ) (db : Database) : Option Post :=
  (Intervals.sortByKey (fun post =>
      (toLex (OrderDual.toDual (Writer.nullsFirst post.releaseDate),OrderDual.toDual post.id)))
    (db.posts.table.rows.filter (fun post => post.feedId = feedId))).head?

def whitelistLatestPostForFeedAction (feedId : ℕ) (db : Database) : Outcome :=
  if feedId = 0 then .error "feed_id is required"
  else match latestPost feedId db with
    | none => .ok db
    | some latest => .ok (setWhitelisted (fun post => post.id = latest.id) true db)

def toggleWhitelistAllForFeedAction (feedId : ℕ) (newStatus : Bool) (db : Database) : Outcome :=
  .ok (setWhitelisted (fun post => post.feedId = feedId) newStatus db)

/-- The title of a post's feed. -/
def feedTitle (db : Database) (post : Post) : Option String :=
  (db.feeds.get post.feedId).map Feed.title

/-- The paths of a post after the check against the disk. -/
def repairPost (disk : Writer.Disk) (title : Option String) (post : Post) : Post :=
  let repaired := (Writer.repairPaths disk title post.toWriter).1
  { post with
    unprocessedAudioPath := repaired.unprocessedAudioPath,
    processedAudioPath := repaired.processedAudioPath }

/-- A post of which the cleanup changes a path. -/
def isRepaired (disk : Writer.Disk) (db : Database) (post : Post) : Bool :=
  Writer.hasStoredPath post.toWriter &&
    (Writer.repairPaths disk (feedTitle db post) post.toWriter).2

def repairIfMissing (disk : Writer.Disk) (db : Database) (post : Post) : Post :=
  if isRepaired disk db post then repairPost disk (feedTitle db post) post else post

theorem repairIfMissing_id (disk : Writer.Disk) (db : Database) (post : Post) :
    (repairIfMissing disk db post).id = post.id := by
  unfold repairIfMissing
  split <;> rfl

theorem repairIfMissing_key (disk : Writer.Disk) (db : Database) (post : Post) :
    (repairIfMissing disk db post).key = post.key := by
  unfold repairIfMissing
  split <;> rfl

def cleanupMissingAudioPathsAction (disk : Writer.Disk) (now : Writer.Time) (db : Database) :
    Outcome :=
  .ok { db with
    posts := db.posts.mapRows (repairIfMissing disk db) (repairIfMissing_id disk db)
      (repairIfMissing_key disk db),
    jobs := (db.posts.table.rows.filter (isRepaired disk db)).foldl
      (fun jobs post => Writer.requeueLatest now jobs post.guid) db.jobs }

/-- `prepare_post_for_auto_retry`, which keeps the jobs, the audio segments and the download. -/
def preparePostForAutoRetryAction (postId : ℕ) (db : Database) : Outcome :=
  withPost postId db fun post =>
    .ok { db with
      identifications := db.deleteIdentifications (fun id => id = post.id),
      calls := db.calls.deleteWhere (fun call => call.postId = post.id && !isWhisperCall call),
      posts := db.posts.modify post.id (fun post => { post with
          processedAudioPath := none,
          outputs := fun column =>
            if column = .transcriptWordTimestamps then post.outputs column else none })
        (fun _ => rfl) (fun _ => rfl) }

def cleanupProcessedPostFilesOnlyAction (postId : ℕ) (db : Database) : Outcome :=
  if postId = 0 then .error "post_id is required"
  else withPost postId db fun post =>
    .ok { db with
      posts := db.posts.modify post.id (fun post => { post with
          unprocessedAudioPath := none, processedAudioPath := none, whitelisted := false })
        (fun _ => rfl) (fun _ => rfl) }

/-- `delete_user`, of a user that is there. -/
def deleteUserAction (userId : ℕ) (db : Database) : Outcome :=
  .ok { db with
    tokens := db.tokens.deleteWhere (fun token => token.userId = userId),
    memberships := db.memberships.deleteWhere (fun row => row.userId = userId),
    jobs := db.jobs.mapRows (Writer.forgetUser userId) (fun _ => rfl) }

/-- The actions that read and write only jobs and the run. -/
def IsJobAction : Writer.Action → Bool
  | .dequeueJob _ | .cleanupStaleJobs _ | .clearAllJobs | .clearActiveJobs | .createJob _
  | .createJobIfMissing _ | .updateJobAttribution _ _ _ _ | .updateJobStatus _ _
  | .markCancelled _ _ | .markClassificationParseError _ | .recordAdWindowsCount _ _
  | .markAutoRetryAttempted _ | .reassignPendingJobs _ | .ensureActiveRun _ => true
  | _ => false

/-- A job action, on the jobs and the run. -/
def jobAction (cmd : Writer.Command) (db : Database) : Outcome :=
  if IsJobAction cmd.action then
    match Writer.perform ⟨db.jobs,db.run,[],[],[]⟩ cmd with
    | .error e => .error e
    | .ok (_,w) => .ok { db with jobs := w.jobs, run := w.run }
  else .error "writer action is not registered"

section
variable {db db' : Database}

theorem insertPost_eq_some {feedId : ℕ} {new : NewPost} {posts posts' : Indexed Post.id Post.key}
    (h : insertPost feedId new posts = some posts') :
    posts'.table.rows = posts.table.rows ++ [new.toPost feedId posts.table.nextKey] := by
  unfold insertPost at h
  split at h
  · cases h
  · exact Indexed.rows_insert h

/-- New posts come after the ones that are there, with the guids they are sent with. -/
theorem exists_rows_insertPosts {feedId : ℕ} {created : List NewPost}
    {posts posts' : Indexed Post.id Post.key} (h : insertPosts feedId created posts = some posts') :
    ∃ new, posts'.table.rows = posts.table.rows ++ new ∧
      new.map Post.guid = created.map NewPost.guid := by
  induction created generalizing posts with
  | nil =>
    obtain rfl := Option.some.inj h
    exact ⟨[],(List.append_nil _).symm,rfl⟩
  | cons first rest ih =>
    rw [insertPosts] at h
    split at h
    · cases h
    · rename_i inserted hfirst
      obtain ⟨new,hrows,hguids⟩ := ih h
      refine ⟨first.toPost feedId posts.table.nextKey::new,?_,?_⟩
      · rw [hrows,insertPost_eq_some hfirst,List.append_assoc,List.singleton_append]
      · rw [List.map_cons,List.map_cons,hguids]
        rfl

theorem rows_insertJobs {new : List Writer.ProcessingJob} {jobs jobs' : Writer.JobTable}
    (h : insertJobs new jobs = some jobs') : jobs'.rows = jobs.rows ++ new := by
  induction new generalizing jobs with
  | nil =>
    obtain rfl := Option.some.inj h
    exact (List.append_nil _).symm
  | cons job rest ih =>
    rw [insertJobs] at h
    split at h
    · cases h
    · rename_i inserted hfirst
      rw [ih h,Table.rows_insert hfirst,List.append_assoc,List.singleton_append]

/-- Posts that are created with jobs of their own. -/
theorem noDangling_createPosts (h : NoDangling db) {feedId : ℕ} {created : List NewPost}
    {newJobs : List Writer.ProcessingJob}
    (hjobs : ∀ job ∈ newJobs, ∃ new ∈ created, new.guid = job.postGuid)
    (hcreate : createPosts feedId created newJobs db = some db') : NoDangling db' := by
  unfold createPosts at hcreate
  split at hcreate
  · cases hcreate
  · rename_i posts hposts
    split at hcreate
    · cases hcreate
    · rename_i jobs hinsert
      obtain rfl := Option.some.inj hcreate
      obtain ⟨new,hrows,hguids⟩ := exists_rows_insertPosts hposts
      refine h.of_posts_jobs ?_ ?_ rfl rfl rfl rfl
      · rintro postId ⟨post,hpost,hid⟩
        refine ⟨post,?_,hid⟩
        rw [hrows]
        exact List.mem_append_left new hpost
      · dsimp only
        rw [hrows,rows_insertJobs hinsert]
        refine (h.jobs.append_parents new).append (fun job hjob => ?_)
        obtain ⟨sent,hsent,hguid⟩ := hjobs job hjob
        have hmem : sent.guid ∈ new.map Post.guid := hguids ▸ List.mem_map_of_mem hsent
        obtain ⟨post,hpost,hpostGuid⟩ := List.mem_map.mp hmem
        exact ⟨post,List.mem_append_right _ hpost,hpostGuid.trans hguid⟩

theorem exists_of_mem_firstJobs {now : Writer.Time} {created : List NewPost} :
    ∀ job ∈ firstJobs now created, ∃ new ∈ created, new.guid = job.postGuid := by
  intro job hjob
  obtain ⟨new,hnew,rfl⟩ := List.mem_map.mp hjob
  exact ⟨new,(List.mem_filter.mp hnew).1,rfl⟩

theorem exists_of_mem_completedJobs {now : Writer.Time} {feedId : ℕ} {created : List NewPost} :
    ∀ job ∈ completedJobs now feedId created, ∃ new ∈ created, new.guid = job.postGuid := by
  intro job hjob
  obtain ⟨new,hnew,rfl⟩ := List.mem_map.mp hjob
  exact ⟨new,hnew,rfl⟩

theorem insertFeed_eq_some {new : NewFeed} {feedId : ℕ}
    (h : insertFeed new db = some (feedId,db')) : ∃ feeds, db' = { db with feeds } := by
  unfold insertFeed at h
  dsimp only at h
  split at h
  · cases h
  · rename_i feeds _
    exact ⟨feeds,(congrArg Prod.snd (Option.some.inj h)).symm⟩

theorem noDangling_insertFeed (h : NoDangling db) {new : NewFeed} {feedId : ℕ}
    (hinsert : insertFeed new db = some (feedId,db')) : NoDangling db' := by
  obtain ⟨feeds,rfl⟩ := insertFeed_eq_some hinsert
  exact ⟨h.audioSegments,h.segments,h.calls,h.identified,h.answered,h.jobs⟩

theorem noDangling_addFeed (h : NoDangling db) {feed : NewFeed} {created : List NewPost}
    {now : Writer.Time} (hok : addFeedAction feed created now db = .ok db') : NoDangling db' := by
  unfold addFeedAction at hok
  split at hok
  · cases hok
  · rename_i feedId inserted hinsert
    split at hok
    · cases hok
    · rename_i final hcreate
      obtain rfl := Except.ok.inj hok
      have hfeed := noDangling_insertFeed h hinsert
      exact (noDangling_createPosts hfeed exists_of_mem_firstJobs hcreate).recount now

theorem noDangling_createDevTestFeed (h : NoDangling db)
    {rssUrl title guidPrefix downloadUrlPrefix : String} {jobIds : List String}
    {now : Writer.Time} (hok : createDevTestFeedAction rssUrl title guidPrefix downloadUrlPrefix
      jobIds now db = .ok db') : NoDangling db' := by
  unfold createDevTestFeedAction at hok
  split at hok
  · cases hok
  · split at hok
    · exact Except.ok.inj hok ▸ h
    · split at hok
      · cases hok
      · rename_i feedId inserted hinsert
        dsimp only at hok
        split at hok
        · cases hok
        · rename_i final hcreate
          obtain rfl := Except.ok.inj hok
          have hfeed := noDangling_insertFeed h hinsert
          exact noDangling_createPosts hfeed exists_of_mem_completedJobs hcreate

/-- An update gives the post another guid. -/
def PostUpdate.Renames (feedId : ℕ) (update : PostUpdate) (post : Post) : Prop :=
  update.postId ≠ 0 ∧ post.id = update.postId ∧ post.feedId = feedId ∧
    update.guid.getD post.guid ≠ post.guid

instance (feedId : ℕ) (update : PostUpdate) (post : Post) :
    Decidable (update.Renames feedId post) := inferInstanceAs (Decidable (_ ∧ _))

/-- An update of an existing post is one of the row under its id, or does nothing. -/
theorem updateExisting_eq_some {feedId : ℕ} {update : PostUpdate}
    {posts posts' : Indexed Post.id Post.key} (h : updateExisting feedId update posts = some posts') :
    posts' = posts ∨ update.postId ≠ 0 ∧ (∃ post, posts.get update.postId = some post ∧
      post.feedId = feedId) ∧ posts.update update.postId update.apply update.apply_id =
        some posts' := by
  unfold updateExisting at h
  split at h
  · exact Or.inl (Option.some.inj h).symm
  · rename_i hzero
    split at h
    · exact Or.inl (Option.some.inj h).symm
    · rename_i post hpost
      split at h
      · rename_i hfeed
        exact Or.inr ⟨hzero,⟨post,hpost,hfeed⟩,h⟩
      · exact Or.inl (Option.some.inj h).symm

/-- A post that no update renames is there afterwards, under its guid. -/
theorem exists_of_updateExistingPosts {feedId : ℕ} {updates : List PostUpdate}
    {posts posts' : Indexed Post.id Post.key}
    (h : updateExistingPosts feedId updates posts = some posts') {post : Post}
    (hpost : post ∈ posts.table.rows) (hkept : ∀ update ∈ updates, ¬update.Renames feedId post) :
    ∃ post' ∈ posts'.table.rows, post'.id = post.id ∧ post'.guid = post.guid := by
  induction updates generalizing posts post with
  | nil =>
    obtain rfl := Option.some.inj h
    exact ⟨post,hpost,rfl,rfl⟩
  | cons update updates ih =>
    rw [updateExistingPosts] at h
    split at h
    · cases h
    · rename_i updated hupdated
      have hrest : ∀ row : Post, row.id = post.id → row.feedId = post.feedId →
          row.guid = post.guid → ∀ update ∈ updates, ¬update.Renames feedId row := by
        intro row hid hfeed hguid update hupdate hrenames
        refine hkept update (List.mem_cons_of_mem _ hupdate) ?_
        rw [PostUpdate.Renames,hid,hfeed,hguid] at hrenames
        exact hrenames
      rcases updateExisting_eq_some hupdated with rfl | ⟨hzero,⟨target,htarget,hfeed⟩,hrow⟩
      · exact ih h hpost (hrest post rfl rfl rfl)
      · have hmem : (if post.id = update.postId then update.apply post else post) ∈
            updated.table.rows := (Indexed.mem_update hrow).mpr ⟨post,hpost,rfl⟩
        by_cases hid : post.id = update.postId
        · rw [if_pos hid] at hmem
          obtain ⟨htargetMem,htargetId⟩ := Table.get_eq_some.mp htarget
          obtain rfl := Table.eq_of_key_eq hpost htargetMem (hid.trans htargetId.symm)
          have hguid : (update.apply post).guid = post.guid := by
            by_contra hne
            exact hkept update List.mem_cons_self ⟨hzero,hid,hfeed,hne⟩
          obtain ⟨post',hpost',hid',hguid'⟩ := ih h hmem (hrest _ rfl rfl hguid)
          exact ⟨post',hpost',hid',hguid'.trans hguid⟩
        · rw [if_neg hid] at hmem
          exact ih h hmem (hrest post rfl rfl rfl)

/-- The ids of the posts are as before. -/
theorem map_id_updateExistingPosts {feedId : ℕ} {updates : List PostUpdate}
    {posts posts' : Indexed Post.id Post.key}
    (h : updateExistingPosts feedId updates posts = some posts') :
    posts'.table.rows.map Post.id = posts.table.rows.map Post.id := by
  induction updates generalizing posts with
  | nil =>
    obtain rfl := Option.some.inj h
    rfl
  | cons update updates ih =>
    rw [updateExistingPosts] at h
    split at h
    · cases h
    · rename_i updated hupdated
      rw [ih h]
      rcases updateExisting_eq_some hupdated with rfl | ⟨-,-,hrow⟩
      · rfl
      · exact Indexed.map_update hrow update.apply_id

/-- Every job that is there once the new posts are has a post that no update renames. -/
def JobsKept (feedId : ℕ) (created : List NewPost) (updates : List PostUpdate) (now : Writer.Time)
    (db : Database) : Prop :=
  ∀ db' ∈ createPosts feedId created (firstJobs now created) db, ∀ job ∈ db'.jobs.rows,
    ∃ post ∈ db'.posts.table.rows, post.guid = job.postGuid ∧
      ∀ update ∈ updates, ¬update.Renames feedId post

instance (feedId : ℕ) (created : List NewPost) (updates : List PostUpdate) (now : Writer.Time)
    (db : Database) : Decidable (JobsKept feedId created updates now db) :=
  inferInstanceAs (Decidable (∀ _ ∈ createPosts _ _ _ _, ∀ _ ∈ _, ∃ _ ∈ _, _ ∧ ∀ _ ∈ _, _))

theorem noDangling_refreshFeed (h : NoDangling db) {feedId : ℕ} {columns : List FeedColumn}
    {created : List NewPost} {updates : List PostUpdate} {now : Writer.Time}
    (hkept : JobsKept feedId created updates now db)
    (hok : refreshFeedAction feedId columns created updates now db = .ok db') : NoDangling db' := by
  unfold refreshFeedAction at hok
  split at hok
  · cases hok
  · split at hok
    · rename_i feeds final _ hcreate
      split at hok
      · cases hok
      · rename_i posts hposts
        obtain rfl := Except.ok.inj hok
        have hfinal := noDangling_createPosts h exists_of_mem_firstJobs hcreate
        have hids := map_id_updateExistingPosts hposts
        have hjobs : Refers Writer.ProcessingJob.postGuid Post.guid final.jobs.rows
            posts.table.rows := by
          rw [refers_iff]
          intro job hjob
          obtain ⟨post,hpost,hguid,hnot⟩ := hkept final hcreate job hjob
          obtain ⟨post',hpost',-,hguid'⟩ := exists_of_updateExistingPosts hposts hpost hnot
          exact ⟨post',hpost',hguid'.trans hguid⟩
        exact ⟨hfinal.audioSegments.of_parents_eq hids,hfinal.segments.of_parents_eq hids,
          hfinal.calls.of_parents_eq hids,hfinal.identified,hfinal.answered,hjobs⟩
    · cases hok

theorem noDangling_setWhitelisted (h : NoDangling db) (p : Post → Bool) (value : Bool) :
    NoDangling (setWhitelisted p value db) := h.mapRows_posts

/-- Requeuing a job changes no guid. -/
theorem map_postGuid_requeueLatest (now : Writer.Time) (jobs : Writer.JobTable) (guid : String) :
    (Writer.requeueLatest now jobs guid).rows.map Writer.ProcessingJob.postGuid =
      jobs.rows.map Writer.ProcessingJob.postGuid := by
  unfold Writer.requeueLatest
  split
  · rfl
  · refine Table.map_modify _ (fun job => ?_)
    unfold Writer.requeue
    split <;> rfl

theorem map_postGuid_foldl_requeueLatest (now : Writer.Time) (posts : List Post)
    (jobs : Writer.JobTable) : (posts.foldl (fun jobs post =>
        Writer.requeueLatest now jobs post.guid) jobs).rows.map Writer.ProcessingJob.postGuid =
      jobs.rows.map Writer.ProcessingJob.postGuid := by
  induction posts generalizing jobs with
  | nil => rfl
  | cons post posts ih => rw [List.foldl_cons,ih,map_postGuid_requeueLatest]

theorem noDangling_cleanupMissingAudioPaths (h : NoDangling db) {disk : Writer.Disk}
    {now : Writer.Time} (hok : cleanupMissingAudioPathsAction disk now db = .ok db') :
    NoDangling db' := by
  obtain rfl := Except.ok.inj hok
  have hposts : NoDangling { db with
      posts := db.posts.mapRows (repairIfMissing disk db) (repairIfMissing_id disk db)
        (repairIfMissing_key disk db) } := h.mapRows_posts
  exact { hposts with
    jobs := hposts.jobs.of_children_eq (map_postGuid_foldl_requeueLatest now _ db.jobs) }

theorem noDangling_preparePostForAutoRetry (h : NoDangling db) {postId : ℕ}
    (hcalls : CallsUnused db (db.deleteIdentifications (fun id => id = postId))
      (fun call => call.postId = postId && !isWhisperCall call))
    (hok : preparePostForAutoRetryAction postId db = .ok db') : NoDangling db' := by
  obtain ⟨post,hpost,hok⟩ := withPost_eq_ok hok
  obtain rfl := Except.ok.inj hok
  obtain rfl : post.id = postId := (Table.get_eq_some.mp hpost).2
  exact ((h.drop_identifications _).drop_calls hcalls).modify_post

theorem noDangling_cleanupProcessedPostFilesOnly (h : NoDangling db) {postId : ℕ}
    (hok : cleanupProcessedPostFilesOnlyAction postId db = .ok db') : NoDangling db' := by
  unfold cleanupProcessedPostFilesOnlyAction at hok
  split at hok
  · cases hok
  · obtain ⟨post,-,hok⟩ := withPost_eq_ok hok
    obtain rfl := Except.ok.inj hok
    exact h.modify_post

theorem noDangling_deleteUser (h : NoDangling db) {userId : ℕ}
    (hok : deleteUserAction userId db = .ok db') : NoDangling db' := by
  obtain rfl := Except.ok.inj hok
  have hguids : (db.jobs.mapRows (Writer.forgetUser userId) (fun _ => rfl)).rows.map
      Writer.ProcessingJob.postGuid = db.jobs.rows.map Writer.ProcessingJob.postGuid :=
    Table.map_mapRows _ (fun _ => rfl)
  exact { h with jobs := h.jobs.of_children_eq hguids }

/-- The guid of the job that an action may insert. -/
def insertedGuid : Writer.Action → Option String
  | .createJob data => some data.postGuid
  | .createJobIfMissing data => if data.postGuid = "" then none else some data.postGuid
  | _ => none

/-- The guids of the second table are among those of the first and the new one. -/
def GuidsFrom (new : Option String) (jobs jobs' : Writer.JobTable) : Prop :=
  ∀ job' ∈ jobs'.rows, job'.postGuid ∈ new ∨ ∃ job ∈ jobs.rows, job.postGuid = job'.postGuid

namespace GuidsFrom
variable {new : Option String} {jobs jobs' : Writer.JobTable}

theorem refl (jobs : Writer.JobTable) : GuidsFrom new jobs jobs :=
  fun job hjob => Or.inr ⟨job,hjob,rfl⟩

theorem deleteWhere (jobs : Writer.JobTable) (p : Writer.ProcessingJob → Bool) :
    GuidsFrom new jobs (jobs.deleteWhere p) :=
  fun job hjob => Or.inr ⟨job,(Table.mem_deleteWhere.mp hjob).1,rfl⟩

theorem of_map_eq (h : jobs'.rows.map Writer.ProcessingJob.postGuid =
    jobs.rows.map Writer.ProcessingJob.postGuid) : GuidsFrom new jobs jobs' := by
  intro job' hjob'
  right
  have hmem : job'.postGuid ∈ jobs.rows.map Writer.ProcessingJob.postGuid :=
    h ▸ List.mem_map_of_mem hjob'
  exact List.mem_map.mp hmem

theorem modify (jobId : String) (f : Writer.ProcessingJob → Writer.ProcessingJob)
    (hid : ∀ job, (f job).id = job.id) (hf : ∀ job, (f job).postGuid = job.postGuid) :
    GuidsFrom new jobs (jobs.modify jobId f hid) := of_map_eq (Table.map_modify hid hf)

theorem insert {job : Writer.ProcessingJob} (hinsert : jobs.insert job = some jobs')
    (hjob : job.postGuid ∈ new) : GuidsFrom new jobs jobs' := by
  intro job' hjob'
  rw [Table.rows_insert hinsert,List.mem_append,List.mem_singleton] at hjob'
  rcases hjob' with hold | rfl
  · exact Or.inr ⟨job',hold,rfl⟩
  · exact Or.inl hjob

end GuidsFrom

/-- A job action inserts at most one job, and changes no guid. -/
theorem guidsFrom_perform {w w' : Writer.Database} {cmd : Writer.Command} {reply : Writer.Reply}
    (haction : IsJobAction cmd.action = true) (hok : Writer.perform w cmd = .ok (reply,w')) :
    GuidsFrom (insertedGuid cmd.action) w.jobs w'.jobs := by
  obtain ⟨action,now⟩ := cmd
  cases action <;> simp only [Writer.perform] at hok
  case dequeueJob runId =>
    rcases Writer.dequeueJobAction_eq_ok hok with ⟨-,rfl⟩ | ⟨job,-,-,-,rfl⟩
    · exact .refl _
    · dsimp only
      exact .modify _ _ _ (fun _ => rfl)
  case cleanupStaleJobs olderThanSeconds =>
    unfold Writer.cleanupStaleJobsAction at hok
    dsimp only at hok
    split at hok
    · cases hok
      exact .deleteWhere _ _
    · cases hok
  case clearAllJobs =>
    cases hok
    exact fun job hjob => absurd hjob List.not_mem_nil
  case clearActiveJobs =>
    simp only [Writer.clearActiveJobsAction,Except.ok.injEq,Prod.mk.injEq] at hok
    rw [← hok.2,Writer.recalculateIf_jobs]
    exact .deleteWhere _ _
  case createJob data =>
    obtain ⟨t,hinsert,rfl⟩ := Writer.createJobAction_eq_ok hok
    exact .insert hinsert rfl
  case createJobIfMissing data =>
    unfold Writer.createJobIfMissingAction at hok
    split at hok
    · cases hok
    · rename_i hguid
      split at hok
      · cases hok
        exact .refl _
      · obtain ⟨t,hinsert,rfl⟩ := Writer.createJobAction_eq_ok hok
        exact .insert hinsert (if_neg hguid)
  case updateJobAttribution jobId runId requestedByUserId billingUserId =>
    unfold Writer.updateJobAttributionAction at hok
    split at hok
    · cases hok
    · rw [Writer.patchJob_eq_ok hok]
      exact .modify _ _ _ (fun _ => rfl)
  case updateJobStatus jobId update =>
    obtain ⟨job,-,hjob⟩ := Writer.withJob_eq_ok hok
    split at hjob
    · cases hjob
      exact .refl _
    · cases hjob
      rw [Writer.recalculateIf_jobs]
      dsimp only
      exact .modify _ _ _ (fun _ => rfl)
  case markCancelled jobId reason =>
    obtain ⟨job,-,hjob⟩ := Writer.withJob_eq_ok hok
    cases hjob
    rw [Writer.recalculateIf_jobs]
    dsimp only
    exact .modify _ _ _ (fun _ => rfl)
  case markClassificationParseError jobId =>
    rw [Writer.patchJob_eq_ok hok]
    exact .modify _ _ _ (fun _ => rfl)
  case recordAdWindowsCount jobId count =>
    rw [Writer.patchJob_eq_ok hok]
    exact .modify _ _ _ (fun _ => rfl)
  case markAutoRetryAttempted jobId =>
    rw [Writer.patchJob_eq_ok hok]
    exact .modify _ _ _ (fun _ => rfl)
  case reassignPendingJobs runId =>
    unfold Writer.reassignPendingJobsAction at hok
    split at hok
    · cases hok
      rw [Writer.recalculateIf_jobs]
      refine .of_map_eq (Table.map_mapRows (Writer.reassign_id runId) (fun job => ?_))
      unfold Writer.reassign
      split <;> rfl
    · cases hok
      exact .refl _
  case ensureActiveRun trigger =>
    cases hok
    exact .refl _
  all_goals cases haction

theorem noDangling_jobAction (h : NoDangling db) {cmd : Writer.Command}
    (hguid : ∀ guid ∈ insertedGuid cmd.action, db.HasGuid guid)
    (hok : jobAction cmd db = .ok db') : NoDangling db' := by
  unfold jobAction at hok
  split at hok
  · rename_i haction
    split at hok
    · cases hok
    · rename_i reply w hperform
      obtain rfl := Except.ok.inj hok
      refine { h with jobs := ?_ }
      rw [refers_iff]
      intro job' hjob'
      rcases guidsFrom_perform haction hperform job' hjob' with hnew | ⟨job,hjob,hsame⟩
      · exact hguid _ hnew
      · exact hsame ▸ h.jobs.exists_parent hjob
  · cases hok

end

end Podly.Episodes
