import Mathlib.Tactic.Tauto
import Podly.Episodes.Cleanup

/-! What the clearing actions leave of the rows of other posts and feeds. -/
namespace Podly.Episodes
open Store

/-- The actions for one post or feed. Jobs are cancelled under the guid of the post they are
cancelled for. -/
inductive ScopedAction
  | clearPostProcessingData (postId : ℕ)
  | clearPostProcessingDataKeepTranscript (postId : ℕ)
  | cleanupProcessedPost (postId : ℕ)
  | cancelExistingJobs (postId : ℕ) (currentJobId : Option String)
  | deleteFeedCascade (feedId : ℕ)

namespace ScopedAction

def perform (now : Writer.Time) (db : Database) : ScopedAction → Outcome
  | clearPostProcessingData postId => clearPostProcessingDataAction postId db
  | clearPostProcessingDataKeepTranscript postId =>
    clearPostProcessingDataKeepTranscriptAction postId db
  | cleanupProcessedPost postId => cleanupProcessedPostAction postId now db
  | cancelExistingJobs postId currentJobId =>
    withPost postId db fun post => cancelExistingJobsAction post.guid currentJobId now db
  | deleteFeedCascade feedId => deleteFeedCascadeAction feedId db

/-- The database after an action: committed, or rolled back. -/
def execute (now : Writer.Time) (db : Database) (action : ScopedAction) : Database :=
  match action.perform now db with
  | .ok db' => db'
  | .error _ => db

/-- The post is one the action is for. -/
def Targets (post : Post) : ScopedAction → Prop
  | clearPostProcessingData postId => post.id = postId
  | clearPostProcessingDataKeepTranscript postId => post.id = postId
  | cleanupProcessedPost postId => post.id = postId
  | cancelExistingJobs postId _ => post.id = postId
  | deleteFeedCascade feedId => post.feedId = feedId

instance (post : Post) : (action : ScopedAction) → Decidable (action.Targets post)
  | clearPostProcessingData _ | clearPostProcessingDataKeepTranscript _
  | cleanupProcessedPost _ | cancelExistingJobs _ _ | deleteFeedCascade _ => Nat.decEq _ _

/-- The feed is the one the action is for. -/
def TargetsFeed (feedId : ℕ) : ScopedAction → Prop
  | deleteFeedCascade feedId' => feedId = feedId'
  | _ => False

/-- A job that the action selects: by the guid of a target that it finds. -/
def Selects (db : Database) (job : Writer.ProcessingJob) : ScopedAction → Prop
  | clearPostProcessingData postId => ∃ post ∈ db.posts.get postId, job.postGuid = post.guid
  | clearPostProcessingDataKeepTranscript postId =>
    ∃ post ∈ db.posts.get postId, job.postGuid = post.guid
  | cleanupProcessedPost postId =>
    postId ≠ 0 ∧ ∃ post ∈ db.posts.get postId, job.postGuid = post.guid
  | cancelExistingJobs postId currentJobId =>
    ∃ post ∈ db.posts.get postId, isExisting post.guid currentJobId job = true
  | deleteFeedCascade feedId =>
    feedId ≠ 0 ∧ db.feeds.get feedId ≠ none ∧ guidIn db feedId job.postGuid = true

end ScopedAction

/-- A post that the action is not for. -/
def Database.Other (db : Database) (action : ScopedAction) (post : Post) : Prop :=
  post ∈ db.posts.table.rows ∧ ¬action.Targets post

/-- The rows that belong to other posts and to other feeds are the same in the second database. -/
structure LeavesOthers (action : ScopedAction) (db db' : Database) : Prop where
  jobs : ∀ job : Writer.ProcessingJob, (∃ post, db.Other action post ∧ post.guid = job.postGuid) →
    (job ∈ db'.jobs.rows ↔ job ∈ db.jobs.rows)
  segments : ∀ segment : TranscriptSegment,
    (∃ post, db.Other action post ∧ post.id = segment.postId) →
    (segment ∈ db'.segments.table.rows ↔ segment ∈ db.segments.table.rows)
  identifications : ∀ row : Identification, (∃ segment ∈ db.segments.table.rows,
      segment.id = row.transcriptSegmentId ∧
      ∃ post, db.Other action post ∧ post.id = segment.postId) →
    (row ∈ db'.identifications.table.rows ↔ row ∈ db.identifications.table.rows)
  calls : ∀ call : ModelCall, (∃ post, db.Other action post ∧ post.id = call.postId) →
    (call ∈ db'.calls.table.rows ↔ call ∈ db.calls.table.rows)
  audioSegments : ∀ audio : AudioSegment,
    (∃ post, db.Other action post ∧ post.id = audio.postId) →
    (audio ∈ db'.audioSegments.rows ↔ audio ∈ db.audioSegments.rows)
  memberships : ∀ membership : UserFeed, ¬action.TargetsFeed membership.feedId →
    (membership ∈ db'.memberships.table.rows ↔ membership ∈ db.memberships.table.rows)
  tokens : ∀ token : FeedAccessToken, (∀ feedId ∈ token.feedId, ¬action.TargetsFeed feedId) →
    (token ∈ db'.tokens.rows ↔ token ∈ db.tokens.rows)

theorem LeavesOthers.refl (action : ScopedAction) (db : Database) : LeavesOthers action db db where
  jobs _ _ := Iff.rfl
  segments _ _ := Iff.rfl
  identifications _ _ := Iff.rfl
  calls _ _ := Iff.rfl
  audioSegments _ _ := Iff.rfl
  memberships _ _ := Iff.rfl
  tokens _ _ := Iff.rfl

section
variable {action : ScopedAction} {db db' : Database}

/-- Only a post of the target has the guid of a job that the action selects. -/
def OwnJobs (action : ScopedAction) (db : Database) : Prop :=
  ∀ job ∈ db.jobs.rows, action.Selects db job →
    ∀ post ∈ db.posts.table.rows, post.guid = job.postGuid → action.Targets post

/-- The jobs of others stay exactly when no job that is deleted is one of theirs. -/
theorem ownJobs_iff (hjobs : ∀ job, job ∈ db'.jobs.rows ↔
      job ∈ db.jobs.rows ∧ ¬action.Selects db job) : OwnJobs action db ↔
    ∀ job : Writer.ProcessingJob, (∃ post, db.Other action post ∧ post.guid = job.postGuid) →
      (job ∈ db'.jobs.rows ↔ job ∈ db.jobs.rows) := by
  constructor
  · rintro hown job ⟨post,⟨hpost,hother⟩,hguid⟩
    rw [hjobs]
    refine ⟨And.left,fun hjob => ⟨hjob,fun hselects => ?_⟩⟩
    exact hother (hown job hjob hselects post hpost hguid)
  · intro hsame job hjob hselects post hpost hguid
    by_contra hother
    exact ((hjobs job).mp ((hsame job ⟨post,⟨hpost,hother⟩,hguid⟩).mpr hjob)).2 hselects

/-- Identifications that are deleted through segments of posts the action is for. -/
theorem deleteIdentifications_of_other {p : ℕ → Bool}
    (hp : ∀ post ∈ db.posts.table.rows, p post.id = true → action.Targets post)
    {row : Identification} (hrow : ∃ segment ∈ db.segments.table.rows,
      segment.id = row.transcriptSegmentId ∧
      ∃ post, db.Other action post ∧ post.id = segment.postId) :
    row ∈ (db.deleteIdentifications p).table.rows ↔ row ∈ db.identifications.table.rows := by
  obtain ⟨segment,hsegment,hid,post,⟨hpost,hother⟩,hpostId⟩ := hrow
  rw [Database.deleteIdentifications,Indexed.mem_deleteWhere,Bool.eq_false_iff,ne_eq,
    Database.segmentIn_eq_true]
  refine ⟨And.left,fun h => ⟨h,?_⟩⟩
  rintro ⟨segment',hsegment',hid',hselected⟩
  obtain rfl := Table.eq_of_key_eq hsegment hsegment' (hid.trans hid'.symm)
  exact hother (hp post hpost (hpostId ▸ hselected))

/-- What an action that fails leaves. -/
theorem leavesOthers_iff_of_failed (hselects : ∀ job, ¬action.Selects db job) :
    LeavesOthers action db db ↔ OwnJobs action db :=
  iff_of_true (LeavesOthers.refl action db) (fun job _ h => absurd h (hselects job))

/-- The rows apart from the jobs are left when only own jobs are selected. -/
theorem leavesOthers_iff_of_jobs (hjobs : ∀ job, job ∈ db'.jobs.rows ↔
      job ∈ db.jobs.rows ∧ ¬action.Selects db job)
    (hrest : OwnJobs action db → (∀ job : Writer.ProcessingJob,
      (∃ post, db.Other action post ∧ post.guid = job.postGuid) →
        (job ∈ db'.jobs.rows ↔ job ∈ db.jobs.rows)) → LeavesOthers action db db') :
    LeavesOthers action db db' ↔ OwnJobs action db := by
  constructor
  · intro h
    exact (ownJobs_iff hjobs).mpr h.jobs
  · intro h
    exact hrest h ((ownJobs_iff hjobs).mp h)

/-- Clearing a post leaves the rows of the others, apart from the jobs. -/
theorem leavesOthers_clearPost {postId : ℕ} {post : Post} (hpost : db.posts.get postId = some post)
    (htargets : ∀ p, action.Targets p ↔ p.id = postId) (keepSegments : Bool)
    (keepCall : ModelCall → Bool) (keepOutput : OutputColumn → Bool)
    (hjobs : ∀ job : Writer.ProcessingJob,
      (∃ p, db.Other action p ∧ p.guid = job.postGuid) →
        (job ∈ (clearPost keepSegments keepCall keepOutput post db).jobs.rows ↔
          job ∈ db.jobs.rows)) :
    LeavesOthers action db (clearPost keepSegments keepCall keepOutput post db) := by
  have hid : post.id = postId := (Table.get_eq_some.mp hpost).2
  have hne : ∀ {p : Post}, db.Other action p → p.id ≠ post.id := by
    rintro p ⟨-,hother⟩ he
    exact hother ((htargets p).mpr (he.trans hid))
  constructor
  case jobs => exact hjobs
  case segments =>
    rintro segment ⟨p,hp,hpostId⟩
    rw [clearPost,Indexed.mem_deleteWhere]
    simp [← hpostId,hne hp]
  case identifications =>
    intro row hrow
    refine deleteIdentifications_of_other (fun p _ hselected => ?_) hrow
    exact (htargets p).mpr ((of_decide_eq_true hselected).trans hid)
  case calls =>
    rintro call ⟨p,hp,hpostId⟩
    rw [clearPost,Indexed.mem_deleteWhere]
    simp [← hpostId,hne hp]
  case audioSegments =>
    rintro audio ⟨p,hp,hpostId⟩
    rw [clearPost,Table.mem_deleteWhere]
    simp [← hpostId,hne hp]
  case memberships => exact fun _ _ => Iff.rfl
  case tokens => exact fun _ _ => Iff.rfl

theorem mem_jobs_clearPost {keepSegments : Bool} {keepCall : ModelCall → Bool}
    {keepOutput : OutputColumn → Bool} {post : Post} {job : Writer.ProcessingJob} :
    job ∈ (clearPost keepSegments keepCall keepOutput post db).jobs.rows ↔
      job ∈ db.jobs.rows ∧ ¬job.postGuid = post.guid := by
  rw [clearPost,Table.mem_deleteWhere,decide_eq_false_iff_not]

/-- The clearing actions of one post. -/
theorem leavesOthers_clearPost_iff {postId : ℕ} {post : Post}
    (hpost : db.posts.get postId = some post) (htargets : ∀ p, action.Targets p ↔ p.id = postId)
    (hselects : ∀ job, action.Selects db job ↔ job.postGuid = post.guid) (keepSegments : Bool)
    (keepCall : ModelCall → Bool) (keepOutput : OutputColumn → Bool) :
    LeavesOthers action db (clearPost keepSegments keepCall keepOutput post db) ↔
      OwnJobs action db := by
  refine leavesOthers_iff_of_jobs (fun job => ?_)
    (fun _ => leavesOthers_clearPost hpost htargets keepSegments keepCall keepOutput)
  rw [mem_jobs_clearPost,hselects]

/-- Superseding the calls of a post leaves those of the others. -/
theorem mem_supersedeCalls_of_ne {postId : ℕ} {call : ModelCall} (h : call.postId ≠ postId) :
    call ∈ (supersedeCalls postId db).table.rows ↔ call ∈ db.calls.table.rows := by
  refine Iff.trans List.mem_map ⟨?_,fun hcall => ⟨call,hcall,call.supersede_of_ne postId h⟩⟩
  rintro ⟨row,hrow,rfl⟩
  have hpost : (row.supersede postId).postId = row.postId :=
    congrArg Prod.fst (row.supersede_key postId)
  rwa [row.supersede_of_ne postId (hpost ▸ h)]

theorem mem_jobs_cancelExistingJobs {postGuid : String} {currentJobId : Option String}
    {now : Writer.Time} {job : Writer.ProcessingJob} :
    job ∈ (cancelExistingJobs postGuid currentJobId now db).jobs.rows ↔
      job ∈ db.jobs.rows ∧ ¬isExisting postGuid currentJobId job = true := by
  have hjobs : (cancelExistingJobs postGuid currentJobId now db).jobs =
      db.jobs.deleteWhere (isExisting postGuid currentJobId) := by
    unfold cancelExistingJobs
    split <;> rfl
  rw [hjobs,Table.mem_deleteWhere,Bool.not_eq_true]

/-- Cancelling jobs changes no call of another post, when every post under the guid is the one. -/
theorem mem_calls_cancelExistingJobs {postGuid : String} {currentJobId : Option String}
    {now : Writer.Time} {postId : ℕ} {call : ModelCall}
    (hpost : ∀ job ∈ db.jobs.rows, isExisting postGuid currentJobId job = true →
      ∀ post ∈ db.posts.table.rows, post.guid = postGuid → post.id = postId)
    (hcall : call.postId ≠ postId) :
    call ∈ (cancelExistingJobs postGuid currentJobId now db).calls.table.rows ↔
      call ∈ db.calls.table.rows := by
  unfold cancelExistingJobs
  split
  · rename_i hany
    obtain ⟨job,hjob,hexisting⟩ := List.any_eq_true.mp hany
    cases hfirst : firstPost db postGuid with
    | none => exact Iff.rfl
    | some post =>
      have hguid : post.guid = postGuid := by simpa using List.find?_some hfirst
      have hid : post.id = postId :=
        hpost job hjob hexisting post (List.mem_of_find?_eq_some hfirst) hguid
      exact mem_supersedeCalls_of_ne (hid ▸ hcall)
  · exact Iff.rfl

/-- `cancel_existing_jobs` for a post. -/
theorem leavesOthers_cancelExistingJobs_iff {postId : ℕ} {currentJobId : Option String}
    {now : Writer.Time} {post : Post} (hpost : db.posts.get postId = some post) :
    LeavesOthers (.cancelExistingJobs postId currentJobId) db
        (cancelExistingJobs post.guid currentJobId now db) ↔
      OwnJobs (.cancelExistingJobs postId currentJobId) db := by
  have hselects : ∀ job, (ScopedAction.cancelExistingJobs postId currentJobId).Selects db job ↔
      isExisting post.guid currentJobId job = true := by
    intro job
    simp [ScopedAction.Selects,hpost]
  refine leavesOthers_iff_of_jobs (fun job => ?_) (fun hown hjobs => ?_)
  · rw [mem_jobs_cancelExistingJobs,hselects]
  · have hcalls : ∀ call : ModelCall, (∃ p,
        db.Other (.cancelExistingJobs postId currentJobId) p ∧ p.id = call.postId) →
          (call ∈ (cancelExistingJobs post.guid currentJobId now db).calls.table.rows ↔
            call ∈ db.calls.table.rows) := by
      have hfirst : ∀ job ∈ db.jobs.rows, isExisting post.guid currentJobId job = true →
          ∀ p ∈ db.posts.table.rows, p.guid = post.guid → p.id = postId := by
        intro job hjob hexisting p hp hguid
        have hjobGuid : job.postGuid = post.guid := by
          simp only [isExisting,Bool.and_eq_true,decide_eq_true_eq] at hexisting
          exact hexisting.1.1
        exact hown job hjob ((hselects job).mpr hexisting) p hp (hguid.trans hjobGuid.symm)
      rintro call ⟨p,⟨-,hother⟩,hp⟩
      exact mem_calls_cancelExistingJobs hfirst (fun he => hother (hp.trans he))
    have hrest : ∀ {d : Database}, d = cancelExistingJobs post.guid currentJobId now db →
        d.segments = db.segments ∧ d.identifications = db.identifications ∧
        d.audioSegments = db.audioSegments ∧ d.memberships = db.memberships ∧
        d.tokens = db.tokens := by
      rintro d rfl
      unfold cancelExistingJobs
      split <;> exact ⟨rfl,rfl,rfl,rfl,rfl⟩
    obtain ⟨hsegments,hidentifications,haudio,hmemberships,htokens⟩ := hrest rfl
    constructor
    case jobs => exact hjobs
    case calls => exact hcalls
    case segments => exact fun _ _ => by rw [hsegments]
    case identifications => exact fun _ _ => by rw [hidentifications]
    case audioSegments => exact fun _ _ => by rw [haudio]
    case memberships => exact fun _ _ => by rw [hmemberships]
    case tokens => exact fun _ _ => by rw [htokens]

/-- `delete_feed_cascade` of a feed that is there. -/
theorem leavesOthers_deleteFeed_iff {feedId : ℕ}
    (hselects : ∀ job, (ScopedAction.deleteFeedCascade feedId).Selects db job ↔
      guidIn db feedId job.postGuid = true) :
    LeavesOthers (.deleteFeedCascade feedId) db (deleteFeed feedId db) ↔
      OwnJobs (.deleteFeedCascade feedId) db := by
  have hpostIn : ∀ {p : Post}, db.Other (.deleteFeedCascade feedId) p →
      postIn db feedId p.id = false := by
    rintro p ⟨hp,hother⟩
    rw [Bool.eq_false_iff,ne_eq,postIn_eq_true]
    rintro ⟨post,hpost,hfeed,hid⟩
    obtain rfl := Table.eq_of_key_eq hpost hp hid
    exact hother hfeed
  refine leavesOthers_iff_of_jobs (fun job => ?_) (fun _ hjobs => ?_)
  · rw [deleteFeed,Table.mem_deleteWhere,hselects,Bool.not_eq_true]
  · constructor
    case jobs => exact hjobs
    case segments =>
      rintro segment ⟨p,hp,hpostId⟩
      rw [deleteFeed,Indexed.mem_deleteWhere]
      exact and_iff_left (hpostId ▸ hpostIn hp)
    case identifications =>
      intro row hrow
      refine deleteIdentifications_of_other (fun p hp hselected => ?_) hrow
      obtain ⟨post,hpost,hfeed,hid⟩ := postIn_eq_true.mp hselected
      obtain rfl := Table.eq_of_key_eq hpost hp hid
      exact hfeed
    case calls =>
      rintro call ⟨p,hp,hpostId⟩
      rw [deleteFeed,Indexed.mem_deleteWhere]
      exact and_iff_left (hpostId ▸ hpostIn hp)
    case audioSegments => exact fun _ _ => Iff.rfl
    case memberships =>
      intro membership hmembership
      rw [deleteFeed,Indexed.mem_deleteWhere,decide_eq_false_iff_not]
      exact and_iff_left hmembership
    case tokens =>
      intro token htoken
      rw [deleteFeed,Table.mem_deleteWhere,decide_eq_false_iff_not]
      exact and_iff_left (fun he => htoken feedId he rfl)

end

/-- An action touches only its target exactly when every job it deletes is of the target alone:
a guid is unique within its feed, and jobs know nothing but a guid. -/
theorem leavesOthers_execute_iff (now : Writer.Time) (db : Database) (action : ScopedAction) :
    LeavesOthers action db (action.execute now db) ↔ OwnJobs action db := by
  cases action with
  | clearPostProcessingData postId =>
    cases hpost : db.posts.get postId with
    | none =>
      simp only [ScopedAction.execute,ScopedAction.perform,clearPostProcessingDataAction,
        withPost,hpost]
      exact leavesOthers_iff_of_failed (by simp [ScopedAction.Selects,hpost])
    | some post =>
      simp only [ScopedAction.execute,ScopedAction.perform,clearPostProcessingDataAction,
        withPost,hpost]
      exact leavesOthers_clearPost_iff hpost (fun _ => Iff.rfl)
        (by simp [ScopedAction.Selects,hpost]) _ _ _
  | clearPostProcessingDataKeepTranscript postId =>
    cases hpost : db.posts.get postId with
    | none =>
      simp only [ScopedAction.execute,ScopedAction.perform,
        clearPostProcessingDataKeepTranscriptAction,withPost,hpost]
      exact leavesOthers_iff_of_failed (by simp [ScopedAction.Selects,hpost])
    | some post =>
      simp only [ScopedAction.execute,ScopedAction.perform,
        clearPostProcessingDataKeepTranscriptAction,withPost,hpost]
      exact leavesOthers_clearPost_iff hpost (fun _ => Iff.rfl)
        (by simp [ScopedAction.Selects,hpost]) _ _ _
  | cleanupProcessedPost postId =>
    by_cases hzero : postId = 0
    · simp only [ScopedAction.execute,ScopedAction.perform,cleanupProcessedPostAction,hzero,
        if_true]
      exact leavesOthers_iff_of_failed (by simp [ScopedAction.Selects])
    · cases hpost : db.posts.get postId with
      | none =>
        simp only [ScopedAction.execute,ScopedAction.perform,cleanupProcessedPostAction,
          if_neg hzero,withPost,hpost]
        exact leavesOthers_iff_of_failed (by simp [ScopedAction.Selects,hpost])
      | some post =>
        simp only [ScopedAction.execute,ScopedAction.perform,cleanupProcessedPostAction,
          if_neg hzero,withPost,hpost]
        have hcleared : LeavesOthers (.cleanupProcessedPost postId) db
            (clearPost false (fun _ => false) (fun _ => false) post db) ↔
              OwnJobs (.cleanupProcessedPost postId) db :=
          leavesOthers_clearPost_iff hpost (fun _ => Iff.rfl)
            (by simp [ScopedAction.Selects,hpost,hzero]) _ _ _
        rw [← hcleared]
        -- The rest of the action writes the row of the post and the run.
        constructor
        · intro h
          exact ⟨h.jobs,h.segments,h.identifications,h.calls,h.audioSegments,h.memberships,h.tokens⟩
        · intro h
          exact ⟨h.jobs,h.segments,h.identifications,h.calls,h.audioSegments,h.memberships,h.tokens⟩
  | cancelExistingJobs postId currentJobId =>
    cases hpost : db.posts.get postId with
    | none =>
      simp only [ScopedAction.execute,ScopedAction.perform,withPost,hpost]
      exact leavesOthers_iff_of_failed (by simp [ScopedAction.Selects,hpost])
    | some post =>
      simp only [ScopedAction.execute,ScopedAction.perform,withPost,hpost,
        cancelExistingJobsAction]
      exact leavesOthers_cancelExistingJobs_iff hpost
  | deleteFeedCascade feedId =>
    by_cases hzero : feedId = 0
    · simp only [ScopedAction.execute,ScopedAction.perform,deleteFeedCascadeAction,hzero,if_true]
      exact leavesOthers_iff_of_failed (by simp [ScopedAction.Selects])
    · cases hfeed : db.feeds.get feedId with
      | none =>
        simp only [ScopedAction.execute,ScopedAction.perform,deleteFeedCascadeAction,
          if_neg hzero,hfeed]
        exact leavesOthers_iff_of_failed (by simp [ScopedAction.Selects,hfeed])
      | some feed =>
        simp only [ScopedAction.execute,ScopedAction.perform,deleteFeedCascadeAction,
          if_neg hzero,hfeed]
        exact leavesOthers_deleteFeed_iff (by simp [ScopedAction.Selects,hfeed,hzero])

/-- A post whose guid is "ep". -/
def sharedGuidPost (id feedId : ℕ) : Post :=
  ⟨id,feedId,"ep",s!"https://cdn/{id}.mp3","Episode",none,true,none,none,fun _ => none⟩

/-- The job of one of them. -/
def sharedGuidJob : Writer.ProcessingJob :=
  Writer.newJob ⟨"job","ep",none,none,none,none,none,false⟩ 0

/-- Two feeds each have a post under one guid. -/
def sharedGuidDatabase : Database :=
  { Database.empty with
    feeds := ⟨⟨[⟨1,"A","https://a/rss"⟩,⟨2,"B","https://b/rss"⟩],by decide⟩,by decide⟩
    posts := ⟨⟨[sharedGuidPost 1 1,sharedGuidPost 2 2],by decide⟩,by decide⟩
    jobs := ⟨[sharedGuidJob],by decide⟩ }

/-- Clearing the post of one feed, or deleting the feed, deletes the job of the other post. -/
theorem not_leavesOthers_sharedGuid :
    ¬LeavesOthers (.clearPostProcessingData 1) sharedGuidDatabase
        ((ScopedAction.clearPostProcessingData 1).execute 0 sharedGuidDatabase) ∧
      ¬LeavesOthers (.deleteFeedCascade 1) sharedGuidDatabase
        ((ScopedAction.deleteFeedCascade 1).execute 0 sharedGuidDatabase) := by
  have hpost : sharedGuidPost 2 2 ∈ sharedGuidDatabase.posts.table.rows :=
    List.mem_cons_of_mem _ List.mem_cons_self
  have hjob : sharedGuidJob ∈ sharedGuidDatabase.jobs.rows := List.mem_cons_self
  constructor
  · intro h
    have hkept := (h.jobs sharedGuidJob ⟨_,⟨hpost,by decide⟩,rfl⟩).mpr hjob
    exact absurd hkept (by decide)
  · intro h
    have hkept := (h.jobs sharedGuidJob ⟨_,⟨hpost,by decide⟩,rfl⟩).mpr hjob
    exact absurd hkept (by decide)

end Podly.Episodes
