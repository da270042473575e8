import Podly.Episodes.Cleanup
import Podly.Store.References

/-! References between the rows of episodes. The writer opens the database with foreign keys off, so
what a row refers to is there only if every action keeps it so. -/
namespace Podly.Episodes
open Store

/-- Every row refers to rows that are there. -/
structure NoDangling (db : Database) : Prop where
  audioSegments : Refers AudioSegment.postId Post.id db.audioSegments.rows db.posts.table.rows
  segments : Refers TranscriptSegment.postId Post.id db.segments.table.rows db.posts.table.rows
  calls : Refers ModelCall.postId Post.id db.calls.table.rows db.posts.table.rows
  identified : Refers Identification.transcriptSegmentId TranscriptSegment.id
    db.identifications.table.rows db.segments.table.rows
  answered : Refers Identification.modelCallId ModelCall.id db.identifications.table.rows
    db.calls.table.rows
  jobs : Refers Writer.ProcessingJob.postGuid Post.guid db.jobs.rows db.posts.table.rows

/-- The database has a post, a segment, a call, a post under a guid. -/
def Database.HasPost (db : Database) (postId : ℕ) : Prop :=
  ∃ post ∈ db.posts.table.rows, post.id = postId

def Database.HasSegment (db : Database) (segmentId : ℕ) : Prop :=
  ∃ segment ∈ db.segments.table.rows, segment.id = segmentId

def Database.HasCall (db : Database) (callId : ℕ) : Prop :=
  ∃ call ∈ db.calls.table.rows, call.id = callId

def Database.HasGuid (db : Database) (guid : String) : Prop :=
  ∃ post ∈ db.posts.table.rows, post.guid = guid

section
variable (db : Database)

instance (postId : ℕ) : Decidable (db.HasPost postId) := inferInstanceAs (Decidable (∃ _ ∈ _, _))
instance (segmentId : ℕ) : Decidable (db.HasSegment segmentId) :=
  inferInstanceAs (Decidable (∃ _ ∈ _, _))
instance (callId : ℕ) : Decidable (db.HasCall callId) := inferInstanceAs (Decidable (∃ _ ∈ _, _))
instance (guid : String) : Decidable (db.HasGuid guid) := inferInstanceAs (Decidable (∃ _ ∈ _, _))

end

theorem hasPost_of_get {db : Database} {postId : ℕ} {post : Post}
    (h : db.posts.get postId = some post) : db.HasPost postId :=
  ⟨post,Table.get_eq_some.mp h⟩

theorem noDangling_empty : NoDangling Database.empty where
  audioSegments := Refers.nil
  segments := Refers.nil
  calls := Refers.nil
  identified := Refers.nil
  answered := Refers.nil
  jobs := Refers.nil

namespace NoDangling
variable {db db' : Database}

/-- Posts that keep their ids and guids, and jobs under guids that were there. -/
theorem of_posts_jobs (h : NoDangling db)
    (hids : ∀ {postId}, db.HasPost postId → db'.HasPost postId)
    (hjobs : Refers Writer.ProcessingJob.postGuid Post.guid db'.jobs.rows db'.posts.table.rows)
    (haudio : db'.audioSegments = db.audioSegments) (hsegments : db'.segments = db.segments)
    (hidentifications : db'.identifications = db.identifications) (hcalls : db'.calls = db.calls) :
    NoDangling db' := by
  have hposts : db.posts.table.rows.map Post.id ⊆ db'.posts.table.rows.map Post.id := by
    intro postId hpost
    exact List.mem_map.mpr (hids (List.mem_map.mp hpost))
  constructor
  case audioSegments => exact haudio ▸ h.audioSegments.of_parents hposts
  case segments => exact hsegments ▸ h.segments.of_parents hposts
  case calls => exact hcalls ▸ h.calls.of_parents hposts
  case identified => exact hsegments ▸ hidentifications ▸ h.identified
  case answered => exact hcalls ▸ hidentifications ▸ h.answered
  case jobs => exact hjobs

/-- Calls whose ids and posts are as before. -/
theorem of_calls_eq (h : NoDangling db) {calls : Indexed ModelCall.id ModelCall.key}
    (hids : calls.table.rows.map ModelCall.id = db.calls.table.rows.map ModelCall.id)
    (hposts : calls.table.rows.map ModelCall.postId = db.calls.table.rows.map ModelCall.postId) :
    NoDangling { db with calls } :=
  { h with calls := h.calls.of_children_eq hposts, answered := h.answered.of_parents_eq hids }

/-- Identifications of segments and calls that are there. -/
theorem of_identifications (h : NoDangling db)
    {identifications : Indexed Identification.id Identification.key}
    (hrows : ∀ row ∈ identifications.table.rows, row ∈ db.identifications.table.rows ∨
      db.HasSegment row.transcriptSegmentId ∧ db.HasCall row.modelCallId) :
    NoDangling { db with identifications } := by
  refine { h with identified := ?_, answered := ?_ }
  · rw [refers_iff]
    intro row hrow
    rcases hrows row hrow with hold | hnew
    · exact h.identified.exists_parent hold
    · exact hnew.1
  · rw [refers_iff]
    intro row hrow
    rcases hrows row hrow with hold | hnew
    · exact h.answered.exists_parent hold
    · exact hnew.2

/-- Deleting segments together with their identifications. -/
theorem drop_segments (h : NoDangling db) (p : ℕ → Bool) :
    NoDangling { db with
      identifications := db.deleteIdentifications p,
      segments := db.segments.deleteWhere (fun segment => p segment.postId) } := by
  refine { h with
    segments := h.segments.filter_children _
    identified := (h.identified.filter_children _).filter_parents ?_
    answered := h.answered.filter_children _ }
  intro row hrow segment hsegment hid
  have hkept : db.segmentIn p row.transcriptSegmentId = false :=
    (Indexed.mem_deleteWhere.mp hrow).2
  by_contra hdrop
  rw [Bool.not_eq_true,Bool.not_eq_false'] at hdrop
  rw [Database.segmentIn_eq_true.mpr ⟨segment,hsegment,hid,hdrop⟩] at hkept
  cases hkept

/-- Deleting calls that no identification refers to. -/
theorem drop_calls (h : NoDangling db) {p : ModelCall → Bool}
    (hp : ∀ row ∈ db.identifications.table.rows, ∀ call ∈ db.calls.table.rows,
      call.id = row.modelCallId → p call = false) :
    NoDangling { db with calls := db.calls.deleteWhere p } :=
  { h with
    calls := h.calls.filter_children _
    answered := h.answered.filter_parents (fun row hrow call hcall hid => by
      rw [hp row hrow call hcall hid]
      rfl) }

theorem drop_audioSegments (h : NoDangling db) (p : AudioSegment → Bool) :
    NoDangling { db with audioSegments := db.audioSegments.deleteWhere p } :=
  { h with audioSegments := h.audioSegments.filter_children _ }

theorem drop_identifications (h : NoDangling db) (p : Identification → Bool) :
    NoDangling { db with identifications := db.identifications.deleteWhere p } :=
  { h with
    identified := h.identified.filter_children _
    answered := h.answered.filter_children _ }

theorem drop_jobs (h : NoDangling db) (p : Writer.ProcessingJob → Bool) :
    NoDangling { db with jobs := db.jobs.deleteWhere p } :=
  { h with jobs := h.jobs.filter_children _ }

/-- Changes of posts that keep their ids and guids. -/
theorem mapRows_posts (h : NoDangling db) {f : Post → Post} {hid : ∀ post, (f post).id = post.id}
    {hkey : ∀ post, (f post).key = post.key} :
    NoDangling { db with posts := db.posts.mapRows f hid hkey } := by
  have hguid : ∀ post, (f post).guid = post.guid := fun post => congrArg Prod.snd (hkey post)
  have hids : (db.posts.mapRows f hid hkey).table.rows.map Post.id =
      db.posts.table.rows.map Post.id := Table.map_mapRows hid hid
  have hguids : (db.posts.mapRows f hid hkey).table.rows.map Post.guid =
      db.posts.table.rows.map Post.guid := Table.map_mapRows hid hguid
  exact { h with
    audioSegments := h.audioSegments.of_parents_eq hids
    segments := h.segments.of_parents_eq hids
    calls := h.calls.of_parents_eq hids
    jobs := h.jobs.of_parents_eq hguids }

theorem modify_post (h : NoDangling db) {postId : ℕ} {f : Post → Post}
    {hid : ∀ post, (f post).id = post.id} {hkey : ∀ post, (f post).key = post.key} :
    NoDangling { db with posts := db.posts.modify postId f hid hkey } := h.mapRows_posts

theorem recount (h : NoDangling db) (now : Writer.Time) : NoDangling (db.recount now) :=
  ⟨h.audioSegments,h.segments,h.calls,h.identified,h.answered,h.jobs⟩

end NoDangling

/-- No identification that stays refers to a call that a condition deletes. -/
def CallsUnused (db : Database) (identifications : Indexed Identification.id Identification.key)
    (p : ModelCall → Bool) : Prop :=
  ∀ row ∈ identifications.table.rows, ∀ call ∈ db.calls.table.rows, call.id = row.modelCallId →
    p call = false

instance (db : Database) (identifications : Indexed Identification.id Identification.key)
    (p : ModelCall → Bool) : Decidable (CallsUnused db identifications p) :=
  inferInstanceAs (Decidable (∀ _ ∈ _, ∀ _ ∈ _, _ → _))

section
variable {db : Database}

/-- Clearing a post, when no identification of another one refers to a call that goes. -/
theorem noDangling_clearPost (h : NoDangling db) {keepSegments : Bool} {keepCall : ModelCall → Bool}
    {keepOutput : OutputColumn → Bool} {post : Post}
    (hcalls : CallsUnused db (db.deleteIdentifications (fun postId => postId = post.id))
      (fun call => call.postId = post.id && !keepCall call)) :
    NoDangling (clearPost keepSegments keepCall keepOutput post db) := by
  have hdropped : NoDangling { db with
      identifications := db.deleteIdentifications (fun postId => postId = post.id)
      segments := db.segments.deleteWhere
        (fun segment => segment.postId = post.id && !keepSegments) } := by
    cases keepSegments with
    | false =>
      simp only [Bool.not_false,Bool.and_true]
      exact h.drop_segments (fun postId => postId = post.id)
    | true =>
      have hsame : db.segments.deleteWhere (fun segment => segment.postId = post.id && !true) =
          db.segments := by
        apply Indexed.ext
        exact List.filter_eq_self.mpr (by simp)
      rw [hsame]
      exact h.drop_identifications _
  have hcleared := (hdropped.drop_calls hcalls).drop_audioSegments
    (fun audio => audio.postId = post.id)
  exact (hcleared.drop_jobs (fun job => job.postGuid = post.guid)).modify_post

/-- Deleting a feed, when its posts have no audio segments and no identification of another post
refers to a call of one of them. -/
theorem noDangling_deleteFeed (h : NoDangling db) {feedId : ℕ}
    (haudio : ∀ audio ∈ db.audioSegments.rows, postIn db feedId audio.postId = false)
    (hcalls : CallsUnused db (db.deleteIdentifications (postIn db feedId))
      (fun call => postIn db feedId call.postId)) : NoDangling (deleteFeed feedId db) := by
  have hdropped := (h.drop_segments (postIn db feedId)).drop_calls hcalls
  have hjobs := h.jobs.filter_children (fun job => !guidIn db feedId job.postGuid)
  -- What stays refers to posts of other feeds.
  have hkeep : ∀ {postId : ℕ}, postIn db feedId postId = false → ∀ post ∈ db.posts.table.rows,
      post.id = postId → (!decide (post.feedId = feedId)) = true := by
    intro postId hnot post hpost hid
    rw [Bool.not_eq_true',decide_eq_false_iff_not]
    intro hfeed
    rw [postIn_eq_true.mpr ⟨post,hpost,hfeed,hid⟩] at hnot
    cases hnot
  refine {
    audioSegments := hdropped.audioSegments.filter_parents ?_
    segments := hdropped.segments.filter_parents ?_
    calls := hdropped.calls.filter_parents ?_
    identified := hdropped.identified
    answered := hdropped.answered
    jobs := hjobs.filter_parents ?_ }
  · intro audio haudioMem
    exact hkeep (haudio audio haudioMem)
  · intro segment hsegment
    exact hkeep (Indexed.mem_deleteWhere.mp hsegment).2
  · intro call hcall
    exact hkeep (Indexed.mem_deleteWhere.mp hcall).2
  · intro job hjob post hpost hguid
    have hnot := (List.mem_filter.mp hjob).2
    rw [Bool.not_eq_true',decide_eq_false_iff_not]
    intro hfeed
    rw [guidIn_eq_true.mpr ⟨post,hpost,hfeed,hguid⟩] at hnot
    cases hnot

theorem noDangling_cancelExistingJobs (h : NoDangling db) (postGuid : String)
    (currentJobId : Option String) (now : Writer.Time) :
    NoDangling (cancelExistingJobs postGuid currentJobId now db) := by
  have hjobs := h.drop_jobs (isExisting postGuid currentJobId)
  have hcalls : ∀ postId, NoDangling { db with
      jobs := db.jobs.deleteWhere (isExisting postGuid currentJobId)
      calls := supersedeCalls postId db } := by
    intro postId
    have hids : (supersedeCalls postId db).table.rows.map ModelCall.id =
        db.calls.table.rows.map ModelCall.id :=
      Table.map_mapRows (ModelCall.supersede_id postId) (ModelCall.supersede_id postId)
    have hposts : (supersedeCalls postId db).table.rows.map ModelCall.postId =
        db.calls.table.rows.map ModelCall.postId :=
      Table.map_mapRows (ModelCall.supersede_id postId)
        (fun call => congrArg Prod.fst (call.supersede_key postId))
    exact hjobs.of_calls_eq hids hposts
  unfold cancelExistingJobs
  split
  · cases firstPost db postGuid with
    | none => exact hjobs.recount now
    | some post => exact (hcalls post.id).recount now
  · exact hjobs

end

end Podly.Episodes
