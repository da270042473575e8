import Podly.Classifier.Records
import Podly.Store.Indexed
import Podly.Writer.PostActions

/-! The rows that belong to feeds and to their episodes, with the keys that tie them together: an
episode is referred to by its id, by its guid and through its segments. -/
namespace Podly.Episodes
open Store Classifier

/-- The columns of `post` that processing fills, apart from the paths of its files. -/
inductive OutputColumn
  | duration
  | chapterData
  | bleepWindows
  | removedAdWindows
  | originalDurationSeconds
  | cutStatsSource
  | transcriptWordTimestamps
  | refinedAdBoundaries
  | refinedAdBoundariesUpdatedAt
deriving DecidableEq

/-- A row of `post`. -/
structure Post where
  id : ℕ
  feedId : ℕ
  guid : String
  downloadUrl : String
  title : String
  releaseDate : Option Writer.Time
  whitelisted : Bool
  unprocessedAudioPath : Option String
  processedAudioPath : Option String
  outputs : OutputColumn → Option String

/-- The unique constraint `uq_post_feed_id_guid`: a guid is unique within its feed only. -/
def Post.key (post : Post) : ℕ × String := (post.feedId,post.guid)

/-- A row of `feed`. -/
structure Feed where
  id : ℕ
  title : String
  rssUrl : String
deriving DecidableEq

/-- A row of `transcript_segment`. -/
structure TranscriptSegment where
  id : ℕ
  postId : ℕ
  sequenceNum : ℤ
  startTime : ℚ
  endTime : ℚ
  text : String
deriving DecidableEq

/-- The unique index `ix_transcript_segment_post_id_sequence_num`. -/
def TranscriptSegment.key (segment : TranscriptSegment) : ℕ × ℤ :=
  (segment.postId,segment.sequenceNum)

/-- A row of `audio_segment`. -/
structure AudioSegment where
  id : ℕ
  postId : ℕ
  modelCallId : Option ℕ
  label : String
  startTime : ℚ
  endTime : ℚ
deriving DecidableEq

/-- A row of `model_call`. -/
structure ModelCall where
  id : ℕ
  postId : ℕ
  firstSegmentSequenceNum : ℤ
  lastSegmentSequenceNum : ℤ
  modelName : String
  prompt : String
  status : Writer.ModelCallStatus
  errorMessage : Option String
deriving DecidableEq

/-- The unique index `ix_model_call_post_chunk_model`. -/
def ModelCall.key (call : ModelCall) : ℕ × CallKey :=
  (call.postId,⟨call.firstSegmentSequenceNum,call.lastSegmentSequenceNum,call.modelName⟩)

/-- A row of `identification`. -/
structure Identification where
  id : ℕ
  transcriptSegmentId : ℕ
  modelCallId : ℕ
  confidence : Option ℚ
  label : String
deriving DecidableEq

/-- The unique index `ix_identification_segment_call_label`. -/
def Identification.key (identification : Identification) : ℕ × ℕ × String :=
  (identification.transcriptSegmentId,identification.modelCallId,identification.label)

/-- A row of `feed_supporter`. -/
structure UserFeed where
  id : ℕ
  feedId : ℕ
  userId : ℕ
deriving DecidableEq

/-- The unique constraint `uq_feed_supporter_feed_user`. -/
def UserFeed.key (membership : UserFeed) : ℕ × ℕ := (membership.feedId,membership.userId)

/-- A row of `feed_access_token`; an aggregate token has no feed. -/
structure FeedAccessToken where
  id : ℕ
  feedId : Option ℕ
  userId : ℕ
  revoked : Bool
deriving DecidableEq

structure Database where
  feeds : Indexed Feed.id Feed.rssUrl
  posts : Indexed Post.id Post.key
  segments : Indexed TranscriptSegment.id TranscriptSegment.key
  identifications : Indexed Identification.id Identification.key
  audioSegments : Table AudioSegment.id
  calls : Indexed ModelCall.id ModelCall.key
  jobs : Writer.JobTable
  run : Option Writer.JobsManagerRun
  memberships : Indexed UserFeed.id UserFeed.key
  tokens : Table FeedAccessToken.id

namespace Database

def empty : Database :=
  ⟨Indexed.empty,Indexed.empty,Indexed.empty,Indexed.empty,Table.empty,Indexed.empty,Table.empty,
    none,Indexed.empty,Table.empty⟩

/-- `recalculate_run_counts`, which reads the jobs and writes the row of the run. -/
def recount (now : Writer.Time) (db : Database) : Database :=
  { db with run := (Writer.recalculateRunCounts now ⟨db.jobs,db.run,[],[],[]⟩).run }

section
variable (now : Writer.Time) (db : Database)

@[simp] theorem recount_posts : (db.recount now).posts = db.posts := rfl
@[simp] theorem recount_segments : (db.recount now).segments = db.segments := rfl
@[simp] theorem recount_identifications :
    (db.recount now).identifications = db.identifications := rfl
@[simp] theorem recount_audioSegments : (db.recount now).audioSegments = db.audioSegments := rfl
@[simp] theorem recount_calls : (db.recount now).calls = db.calls := rfl
@[simp] theorem recount_jobs : (db.recount now).jobs = db.jobs := rfl
@[simp] theorem recount_memberships : (db.recount now).memberships = db.memberships := rfl
@[simp] theorem recount_tokens : (db.recount now).tokens = db.tokens := rfl

end

/-- A segment is one of the posts a condition selects. -/
def segmentIn (db : Database) (p : ℕ → Bool) (segmentId : ℕ) : Bool :=
  db.segments.table.rows.any (fun segment => segment.id = segmentId && p segment.postId)

/-- Delete the identifications of the segments of the posts a condition selects. -/
def deleteIdentifications (db : Database) (p : ℕ → Bool) :
    Indexed Identification.id Identification.key :=
  db.identifications.deleteWhere (fun row => db.segmentIn p row.transcriptSegmentId)

theorem segmentIn_eq_true {db : Database} {p : ℕ → Bool} {segmentId : ℕ} :
    db.segmentIn p segmentId = true ↔
      ∃ segment ∈ db.segments.table.rows, segment.id = segmentId ∧ p segment.postId = true := by
  simp [segmentIn]

end Database

end Podly.Episodes
