import Mathlib.Data.List.MinMax
import Mathlib.Logic.Function.Basic
import Podly.Episodes.FeedActions

/-! The cleanup of processed episodes: which posts it protects, which it finds too old, and what it
removes from the disk and from the rows. -/
namespace Podly.Retention
open Episodes
open Writer (Time JobTable ProcessingJob)
variable {Entry : Type*} [DecidableEq Entry]

/-- What surrounds the cleanup: where the paths lead, what the disk refuses to unlink, and the posts
for which the writer does not carry out its action. -/
structure Host (Entry : Type*) where
  entry : String → Entry
  refuses : Entry → Bool
  fails : ℕ → Bool

/-- The rows, and the times at which the files that exist were modified. -/
structure World (Entry : Type*) where
  db : Database
  files : Entry → Option Time

/-- The file behind a column that holds a path; an empty path is none. -/
def Host.locate (host : Host Entry) (path : Option String) : Option Entry :=
  match path with
  | none => none
  | some path => if path = "" then none else some (host.entry path)

/-- The processed file of a post. -/
def Host.processed (host : Host Entry) (post : Post) : Option Entry :=
  host.locate post.processedAudioPath

/-- The files of a post, in the order in which they are removed. -/
def Host.artifacts (host : Host Entry) (post : Post) : List Entry :=
  [post.unprocessedAudioPath,post.processedAudioPath].filterMap host.locate

/-- `_get_processed_file_timestamp`. -/
def getProcessedFileTimestamp (host : Host Entry) (files : Entry → Option Time) (post : Post) :
    Option Time :=
  (host.processed post).bind files

/-- `_get_post_timestamp`. -/
def getPostTimestamp (host : Host Entry) (files : Entry → Option Time)
    (latestCompleted : String → Option Time) (post : Post) : Option Time :=
  match getProcessedFileTimestamp host files post, latestCompleted post.guid with
  | some fileTimestamp,some jobTimestamp => some (max fileTimestamp jobTimestamp)
  | some fileTimestamp,none => some fileTimestamp
  | none,jobTimestamp => jobTimestamp

/-- `_processed_timestamp_before_cutoff`. -/
def processedTimestampBeforeCutoff (host : Host Entry) (files : Entry → Option Time)
    (cutoff : Time) (latestCompleted : String → Option Time) (post : Post) : Bool :=
  let candidate := match getProcessedFileTimestamp host files post, latestCompleted post.guid with
    | some fileTimestamp,some jobTimestamp => some (min fileTimestamp jobTimestamp)
    | some fileTimestamp,none => some fileTimestamp
    | none,jobTimestamp => jobTimestamp
  candidate.any (· < cutoff)

/-- `_load_latest_completed_map`: SQL takes the maximum over the jobs that have a time. -/
def loadLatestCompletedMap (jobs : JobTable) (postGuids : List String) (guid : String) :
    Option Time :=
  if guid ∈ postGuids then
    ((jobs.rows.filter (fun job => job.postGuid = guid)).filterMap
      ProcessingJob.completedAt).max?
  else none

/-- The entry of a feed in `feed_posts`. -/
structure Leader where
  guid : String
  timestamp : Option Time
  id : ℕ

/-- A later time takes the place of the entry, an equal one under a larger id, and any time that of
an entry without one. -/
def Leader.givesWayTo (leader : Leader) (timestamp : Option Time) (id : ℕ) : Bool :=
  match timestamp, leader.timestamp with
  | some t,some current => current < t || (t = current && leader.id < id)
  | some _,none => true
  | none,_ => false

/-- One turn of the loop over the posts. -/
def leaderStep (timestamp : Post → Option Time) (feedPosts : ℕ → Option Leader) (post : Post) :
    ℕ → Option Leader :=
  let entry : Leader := ⟨post.guid,timestamp post,post.id⟩
  match feedPosts post.feedId with
  | none => Function.update feedPosts post.feedId (some entry)
  | some leader =>
    if leader.givesWayTo (timestamp post) post.id then
      Function.update feedPosts post.feedId (some entry)
    else feedPosts

/-- `_get_most_recent_posts_per_feed`: the guids of the entries, whose keys are the feeds of the
posts. -/
def getMostRecentPostsPerFeed (host : Host Entry) (files : Entry → Option Time)
    (latestCompleted : String → Option Time) (posts : List Post) : List String :=
  let feedPosts := posts.foldl (leaderStep (getPostTimestamp host files latestCompleted))
    (fun _ => none)
  posts.filterMap (fun post => (feedPosts post.feedId).map Leader.guid)

/-- `datetime` and `timedelta` leave their range. -/
inductive OverflowError
  | overflow
deriving DecidableEq

/-- `datetime.min` and `datetime.max`. -/
def datetimeMin : Time := -62135596800000000

def datetimeMax : Time := 253402300799999999

/-- `timedelta.max.days`. -/
def timedeltaMaxDays : ℕ := 999999999

def microsecondsPerDay : ℤ := 86400000000

/-- The posts with a processed path under whose guid no job is pending or running. -/
def candidates (db : Database) : List Post :=
  db.posts.table.rows.filter (fun post => post.processedAudioPath.isSome &&
    !db.jobs.rows.any (fun job => job.postGuid = post.guid && job.status.IsActive))

/-- `_build_cleanup_query`, with the rows that the query reads. -/
def buildCleanupQuery (now : Time) (developerMode : Bool) (retentionDays : Option ℤ)
    (db : Database) : Except OverflowError (Option (List Post × Time)) :=
  match retentionDays with
  | none => .ok none
  | some days =>
    if days ≤ 0 ∧ !developerMode then .ok none
    else
      let cutoff := now - days * microsecondsPerDay
      if timedeltaMaxDays < days.natAbs ∨ cutoff < datetimeMin ∨ datetimeMax < cutoff then
        .error .overflow
      else .ok (some (candidates db,cutoff))

/-- The posts among those listed that are neither protected nor young enough, on the disk as it is
when the listing starts. -/
def expired (host : Host Entry) (files : Entry → Option Time) (cutoff : Time)
    (latestCompleted : String → Option Time) (mostRecent : List String) (posts : List Post) :
    List Post :=
  posts.filter (fun post => post.guid ∉ mostRecent &&
    processedTimestampBeforeCutoff host files cutoff latestCompleted post)

/-- `count_cleanup_candidates`. -/
def countCleanupCandidates (host : Host Entry) (now : Time) (developerMode : Bool)
    (retentionDays : Option ℤ) (w : World Entry) : Except OverflowError (ℕ × Option Time) :=
  match buildCleanupQuery now developerMode retentionDays w.db with
  | .error e => .error e
  | .ok none => .ok (0,none)
  | .ok (some (posts,cutoff)) =>
    let latestCompleted := loadLatestCompletedMap w.db.jobs (posts.map Post.guid)
    let mostRecent := getMostRecentPostsPerFeed host w.files latestCompleted posts
    .ok ((expired host w.files cutoff latestCompleted mostRecent posts).length,some cutoff)

/-- Unlink a file, which fails silently where the disk refuses it. -/
def unlink (host : Host Entry) (files : Entry → Option Time) (e : Entry) : Entry → Option Time :=
  if host.refuses e then files else Function.update files e none

/-- `_remove_associated_files`; the writer action removes the files of the row the same way. -/
def removeAssociatedFiles (host : Host Entry) (post : Post) (files : Entry → Option Time) :
    Entry → Option Time :=
  (host.artifacts post).foldl (unlink host) files

/-- `cleanup_processed_post_files_only`, through the writer. A call that fails is only logged, and
nothing is kept of it. -/
def cleanupFilesOnly (host : Host Entry) (postId : ℕ) (w : World Entry) : World Entry :=
  if host.fails postId then w
  else match w.db.posts.get postId, cleanupProcessedPostFilesOnlyAction postId w.db with
    | some row,.ok db => ⟨db,removeAssociatedFiles host row w.files⟩
    | _,_ => w

/-- The loop of `cleanup_processed_posts`: the rows and the disk, and the posts it has removed. -/
structure Sweep (Entry : Type*) where
  world : World Entry
  removed : List Post

/-- One turn of the loop. -/
def sweepStep (host : Host Entry) (cutoff : Time) (latestCompleted : String → Option Time)
    (mostRecent : List String) (sweep : Sweep Entry) (post : Post) : Sweep Entry :=
  if post.guid ∈ mostRecent then sweep
  else if !processedTimestampBeforeCutoff host sweep.world.files cutoff latestCompleted post then
    sweep
  else
    let files := removeAssociatedFiles host post sweep.world.files
    ⟨cleanupFilesOnly host post.id ⟨sweep.world.db,files⟩,sweep.removed ++ [post]⟩

/-- `cleanup_processed_posts`: what it leaves, with the posts it has removed, and its answer. -/
def cleanupProcessedPosts (host : Host Entry) (now : Time) (developerMode : Bool)
    (retentionDays : Option ℤ) (w : World Entry) : Sweep Entry × Except OverflowError ℕ :=
  match buildCleanupQuery now developerMode retentionDays w.db with
  | .error e => (⟨w,[]⟩,.error e)
  | .ok none => (⟨w,[]⟩,.ok 0)
  | .ok (some (posts,cutoff)) =>
    let latestCompleted := loadLatestCompletedMap w.db.jobs (posts.map Post.guid)
    let mostRecent := getMostRecentPostsPerFeed host w.files latestCompleted posts
    let sweep := posts.foldl (sweepStep host cutoff latestCompleted mostRecent) ⟨w,[]⟩
    (sweep,.ok sweep.removed.length)

section
variable {host : Host Entry} {files : Entry → Option Time} {cutoff : Time}
  {latestCompleted : String → Option Time} {post : Post}

omit [DecidableEq Entry] in
theorem processedTimestampBeforeCutoff_iff :
    processedTimestampBeforeCutoff host files cutoff latestCompleted post = true ↔
      (∃ t, getProcessedFileTimestamp host files post = some t ∧ t < cutoff) ∨
        ∃ t, latestCompleted post.guid = some t ∧ t < cutoff := by
  unfold processedTimestampBeforeCutoff
  cases getProcessedFileTimestamp host files post with
  | none => cases latestCompleted post.guid <;> simp
  | some fileTimestamp => cases latestCompleted post.guid <;> simp

theorem unlink_apply (e e' : Entry) :
    unlink host files e e' = if host.refuses e' = false ∧ e' = e then none else files e' := by
  unfold unlink
  by_cases he : e' = e
  · subst he
    cases host.refuses e' <;> simp
  · cases host.refuses e <;> simp [he]

theorem foldl_unlink_apply (es : List Entry) (e : Entry) :
    es.foldl (unlink host) files e =
      if host.refuses e = false ∧ e ∈ es then none else files e := by
  induction es generalizing files with
  | nil => simp
  | cons e' es ih =>
    rw [List.foldl_cons,ih,unlink_apply]
    by_cases hes : host.refuses e = false ∧ e ∈ es
    · rw [if_pos hes,if_pos ⟨hes.1,List.mem_cons_of_mem _ hes.2⟩]
    · rw [if_neg hes]
      apply if_congr _ rfl rfl
      rw [List.mem_cons,and_or_left,or_iff_left hes]

theorem removeAssociatedFiles_apply (e : Entry) :
    removeAssociatedFiles host post files e =
      if host.refuses e = false ∧ e ∈ host.artifacts post then none else files e :=
  foldl_unlink_apply _ _

/-- The writer finds nothing more to remove. -/
theorem removeAssociatedFiles_twice :
    removeAssociatedFiles host post (removeAssociatedFiles host post files) =
      removeAssociatedFiles host post files := by
  funext e
  rw [removeAssociatedFiles_apply,removeAssociatedFiles_apply]
  split <;> rfl

end

end Podly.Retention
