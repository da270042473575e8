import Podly.Episodes.FeedActions
import Podly.Store.Run

/-! Runs of the writer on the rows of episodes: every action and every generic command, one after
the other. -/
namespace Podly.Episodes
open Store Classifier

/-- A column of `post` that a generic update may write. -/
inductive PostColumn
  | whitelisted (value : Bool)
  | unprocessedAudioPath (value : Option String)
  | processedAudioPath (value : Option String)
  | output (column : OutputColumn) (value : Option String)

def PostColumn.apply (column : PostColumn) (post : Post) : Post :=
  match column with
  | .whitelisted value => { post with whitelisted := value }
  | .unprocessedAudioPath value => { post with unprocessedAudioPath := value }
  | .processedAudioPath value => { post with processedAudioPath := value }
  | .output column value =>
    { post with outputs := fun c => if c = column then value else post.outputs c }

def applyPostColumns (columns : List PostColumn) (post : Post) : Post :=
  columns.foldl (fun post column => column.apply post) post

theorem applyPostColumns_id (columns : List PostColumn) (post : Post) :
    (applyPostColumns columns post).id = post.id := by
  induction columns generalizing post with
  | nil => rfl
  | cons column columns ih =>
    have hfirst : (column.apply post).id = post.id := by cases column <;> rfl
    exact (ih (column.apply post)).trans hfirst

theorem applyPostColumns_key (columns : List PostColumn) (post : Post) :
    (applyPostColumns columns post).key = post.key := by
  induction columns generalizing post with
  | nil => rfl
  | cons column columns ih =>
    have hfirst : (column.apply post).key = post.key := by cases column <;> rfl
    exact (ih (column.apply post)).trans hfirst

/-- The check of `execute_model_update` on the row under an id. -/
def withRow {ρ : Type} (id : ℕ) (row : Option ρ) (k : Outcome) : Outcome :=
  if id = 0 then .error "model id must be nonzero"
  else match row with
    | none => .error "record not found"
    | some _ => k

/-- `execute_model_update` of a `Post`. -/
def updatePost (id : ℕ) (columns : List PostColumn) (db : Database) : Outcome :=
  withRow id (db.posts.get id) (.ok { db with
    posts := db.posts.modify id (applyPostColumns columns) (applyPostColumns_id columns)
      (applyPostColumns_key columns) })

/-- A generic update writes every column of a call but its post. -/
def CallColumn.isGeneric : CallColumn → Bool
  | .postId _ => false
  | _ => true

/-- `execute_model_update` of a `ModelCall`; fields that are not registered are passed over. -/
def updateModelCall (id : ℕ) (columns : List CallColumn) (db : Database) : Outcome :=
  withRow id (db.calls.get id)
    (match setCallColumns id (columns.filter CallColumn.isGeneric) db.calls with
    | none => .error databaseError
    | some calls => .ok { db with calls })

/-- `execute_model_delete`, which deletes one row and looks for no other. -/
def deleteRow (id : ℕ) (db' : Database) : Outcome :=
  if id = 0 then .error "model id must be nonzero" else .ok db'

/-- The commands of the writer. Those on users, settings, tokens in use and columns that no other
command reads are `otherAction`; a generic create is not registered for any model. -/
inductive Command
  | job (cmd : Writer.Command)
  | cancelExistingJobs (postGuid : String) (currentJobId : Option String) (now : Writer.Time)
  | clearPostProcessingData (postId : ℕ)
  | clearPostProcessingDataKeepTranscript (postId : ℕ)
  | cleanupProcessedPost (postId : ℕ) (now : Writer.Time)
  | cleanupProcessedPostFilesOnly (postId : ℕ)
  | preparePostForAutoRetry (postId : ℕ)
  | cleanupMissingAudioPaths (disk : Writer.Disk) (now : Writer.Time)
  | deleteFeedCascade (feedId : ℕ)
  | refreshFeed (feedId : ℕ) (columns : List FeedColumn) (created : List NewPost)
      (updates : List PostUpdate) (now : Writer.Time)
  | addFeed (feed : NewFeed) (created : List NewPost) (now : Writer.Time)
  | createDevTestFeed (rssUrl title guidPrefix downloadUrlPrefix : String) (jobIds : List String)
      (now : Writer.Time)
  | ensureUserFeedMembership (feedId userId : ℕ)
  | removeUserFeedMembership (feedId userId : ℕ)
  | createFeedAccessToken (userId : ℕ) (feedId : Option ℕ)
  | whitelistPost (postId : ℕ)
  | whitelistLatestPostForFeed (feedId : ℕ)
  | toggleWhitelistAllForFeed (feedId : ℕ) (newStatus : Bool)
  | deleteUser (userId : ℕ)
  | upsertModelCall (postId : ℕ) (key : CallKey) (prompt : String)
  | upsertWhisperModelCall (postId : ℕ) (key : CallKey) (prompt : Option String)
      (resetFields : Option (List CallColumn))
  | deleteModelCallsForPostByModelName (postId : ℕ) (modelName : String)
  | startTranscriptionReplace (postId : ℕ) (modelCallId : Option ℕ)
  | insertTranscriptSegments (postId : ℕ) (data : List SegmentData)
  | finishTranscriptionReplace (postId : ℕ) (modelCallId : Option ℕ) (segmentCount : ℤ)
      (words : Option String)
  | replaceTranscription (postId : ℕ) (modelCallId : Option ℕ) (data : List SegmentData)
      (words : Option String)
  | markModelCallFailed (callId : ℕ) (status : Writer.ModelCallStatus)
      (errorMessage : Option String)
  | insertIdentifications (data : List IdentificationData)
  | replaceIdentifications (deleteIds : List ℕ) (data : List IdentificationData)
  | replaceAudioSegments (postId : ℕ) (modelCallId : Option ℕ) (data : List AudioData)
  | otherAction
  | create (model : String)
  | updatePost (id : ℕ) (columns : List PostColumn)
  | updateModelCall (id : ℕ) (columns : List CallColumn)
  | updateFeed (id : ℕ)
  | deletePost (id : ℕ)
  | deleteModelCall (id : ℕ)
  | deleteFeed (id : ℕ)

def perform (db : Database) : Command → Outcome
  | .job cmd => jobAction cmd db
  | .cancelExistingJobs postGuid currentJobId now =>
    cancelExistingJobsAction postGuid currentJobId now db
  | .clearPostProcessingData postId => clearPostProcessingDataAction postId db
  | .clearPostProcessingDataKeepTranscript postId =>
    clearPostProcessingDataKeepTranscriptAction postId db
  | .cleanupProcessedPost postId now => cleanupProcessedPostAction postId now db
  | .cleanupProcessedPostFilesOnly postId => cleanupProcessedPostFilesOnlyAction postId db
  | .preparePostForAutoRetry postId => preparePostForAutoRetryAction postId db
  | .cleanupMissingAudioPaths disk now => cleanupMissingAudioPathsAction disk now db
  | .deleteFeedCascade feedId => deleteFeedCascadeAction feedId db
  | .refreshFeed feedId columns created updates now =>
    refreshFeedAction feedId columns created updates now db
  | .addFeed feed created now => addFeedAction feed created now db
  | .createDevTestFeed rssUrl title guidPrefix downloadUrlPrefix jobIds now =>
    createDevTestFeedAction rssUrl title guidPrefix downloadUrlPrefix jobIds now db
  | .ensureUserFeedMembership feedId userId => ensureUserFeedMembershipAction feedId userId db
  | .removeUserFeedMembership feedId userId => removeUserFeedMembershipAction feedId userId db
  | .createFeedAccessToken userId feedId => createFeedAccessTokenAction userId feedId db
  | .whitelistPost postId => whitelistPostAction postId db
  | .whitelistLatestPostForFeed feedId => whitelistLatestPostForFeedAction feedId db
  | .toggleWhitelistAllForFeed feedId newStatus =>
    toggleWhitelistAllForFeedAction feedId newStatus db
  | .deleteUser userId => deleteUserAction userId db
  | .upsertModelCall postId key prompt => upsertModelCallAction postId key prompt db
  | .upsertWhisperModelCall postId key prompt resetFields =>
    upsertWhisperModelCallAction postId key prompt resetFields db
  | .deleteModelCallsForPostByModelName postId modelName =>
    deleteModelCallsForPostByModelNameAction postId modelName db
  | .startTranscriptionReplace postId modelCallId =>
    startTranscriptionReplaceAction postId modelCallId db
  | .insertTranscriptSegments postId data => insertTranscriptSegmentsAction postId data db
  | .finishTranscriptionReplace postId modelCallId segmentCount words =>
    finishTranscriptionReplaceAction postId modelCallId segmentCount words db
  | .replaceTranscription postId modelCallId data words =>
    replaceTranscriptionAction postId modelCallId data words db
  | .markModelCallFailed callId status errorMessage =>
    markModelCallFailedAction callId status errorMessage db
  | .insertIdentifications data => insertIdentificationsAction data db
  | .replaceIdentifications deleteIds data => replaceIdentificationsAction deleteIds data db
  | .replaceAudioSegments postId modelCallId data =>
    replaceAudioSegmentsAction postId modelCallId data db
  | .otherAction => .ok db
  | .create _ => .error "writer operation is not supported"
  | .updatePost id columns => updatePost id columns db
  | .updateModelCall id columns => updateModelCall id columns db
  | .updateFeed id => withRow id (db.feeds.get id) (.ok db)
  | .deletePost id => deleteRow id { db with posts := db.posts.deleteWhere (fun post => post.id = id) }
  | .deleteModelCall id =>
    deleteRow id { db with calls := db.calls.deleteWhere (fun call => call.id = id) }
  | .deleteFeed id => deleteRow id { db with feeds := db.feeds.deleteWhere (fun feed => feed.id = id) }

/-- The database after a command: committed, or rolled back. -/
def execute (db : Database) (cmd : Command) : Database :=
  match perform db cmd with
  | .ok db' => db'
  | .error _ => db

/-- No row refers to a post: no audio, segment or call by its id, and no job by its guid alone. -/
structure PostUnused (db : Database) (postId : ℕ) : Prop where
  audioSegments : ∀ audio ∈ db.audioSegments.rows, audio.postId ≠ postId
  segments : ∀ segment ∈ db.segments.table.rows, segment.postId ≠ postId
  calls : ∀ call ∈ db.calls.table.rows, call.postId ≠ postId
  jobs : ∀ job ∈ db.jobs.rows, ∃ post ∈ db.posts.table.rows, post.guid = job.postGuid ∧
    post.id ≠ postId

theorem postUnused_iff {db : Database} {postId : ℕ} : PostUnused db postId ↔
    (∀ audio ∈ db.audioSegments.rows, audio.postId ≠ postId) ∧
    (∀ segment ∈ db.segments.table.rows, segment.postId ≠ postId) ∧
    (∀ call ∈ db.calls.table.rows, call.postId ≠ postId) ∧
    ∀ job ∈ db.jobs.rows, ∃ post ∈ db.posts.table.rows, post.guid = job.postGuid ∧
      post.id ≠ postId :=
  ⟨fun h => ⟨h.audioSegments,h.segments,h.calls,h.jobs⟩,fun h => ⟨h.1,h.2.1,h.2.2.1,h.2.2.2⟩⟩

instance (db : Database) (postId : ℕ) : Decidable (PostUnused db postId) :=
  decidable_of_iff' _ postUnused_iff

/-- A command that leaves nothing dangling: what it deletes is referred to by no row that stays, and
what it adds refers to rows that are there. -/
def Command.Safe (db : Database) : Command → Prop
  | .job cmd => ∀ guid ∈ insertedGuid cmd.action, db.HasGuid guid
  | .clearPostProcessingData postId | .cleanupProcessedPost postId _ =>
    CallsUnused db (db.deleteIdentifications (fun id => id = postId))
      (fun call => call.postId = postId && !false)
  | .clearPostProcessingDataKeepTranscript postId | .preparePostForAutoRetry postId =>
    CallsUnused db (db.deleteIdentifications (fun id => id = postId))
      (fun call => call.postId = postId && !isWhisperCall call)
  | .deleteFeedCascade feedId => feedId ≠ 0 → db.feeds.get feedId ≠ none →
    (∀ audio ∈ db.audioSegments.rows, postIn db feedId audio.postId = false) ∧
      CallsUnused db (db.deleteIdentifications (postIn db feedId))
        (fun call => postIn db feedId call.postId)
  | .refreshFeed feedId _ created updates now =>
    db.feeds.get feedId ≠ none → JobsKept feedId created updates now db
  | .upsertModelCall postId _ prompt => prompt ≠ "" → db.HasPost postId
  | .upsertWhisperModelCall postId _ _ resetFields => db.HasPost postId ∧
    ∀ columns ∈ resetFields, ∀ column ∈ columns, ∀ id ∈ column.newPostId, db.HasPost id
  | .deleteModelCallsForPostByModelName postId modelName => modelName ≠ "" →
    CallsUnused db db.identifications
      (fun call => call.postId = postId && call.modelName = modelName)
  | .insertIdentifications data => ∀ new ∈ data, new.RefersTo db
  | .replaceIdentifications _ data => ∀ new ∈ data, new.RefersTo db
  | .deletePost id => id ≠ 0 → PostUnused db id
  | .deleteModelCall id => id ≠ 0 →
    ∀ row ∈ db.identifications.table.rows, row.modelCallId ≠ id
  | _ => True

section
variable {db db' : Database}

theorem withRow_eq_ok {ρ : Type} {id : ℕ} {row : Option ρ} {k : Outcome}
    (h : withRow id row k = .ok db') : k = .ok db' := by
  unfold withRow at h
  split at h
  · cases h
  · split at h
    · cases h
    · exact h

theorem deleteRow_eq_ok {id : ℕ} {next : Database} (h : deleteRow id next = .ok db') :
    id ≠ 0 ∧ db' = next := by
  unfold deleteRow at h
  split at h
  · cases h
  · rename_i hzero
    exact ⟨hzero,(Except.ok.inj h).symm⟩

/-- Clearing a post, as the actions do that clear one. -/
theorem noDangling_withPost_clearPost (h : NoDangling db) {postId : ℕ} {keepSegments : Bool}
    {keepCall : ModelCall → Bool} {keepOutput : OutputColumn → Bool}
    (hcalls : CallsUnused db (db.deleteIdentifications (fun id => id = postId))
      (fun call => call.postId = postId && !keepCall call))
    (hok : withPost postId db (fun post =>
      .ok (clearPost keepSegments keepCall keepOutput post db)) = .ok db') : NoDangling db' := by
  obtain ⟨post,hpost,hok⟩ := withPost_eq_ok hok
  obtain rfl := Except.ok.inj hok
  obtain rfl : post.id = postId := (Table.get_eq_some.mp hpost).2
  exact noDangling_clearPost h hcalls

theorem noDangling_cleanupProcessedPost (h : NoDangling db) {postId : ℕ} {now : Writer.Time}
    (hcalls : CallsUnused db (db.deleteIdentifications (fun id => id = postId))
      (fun call => call.postId = postId && !false))
    (hok : cleanupProcessedPostAction postId now db = .ok db') : NoDangling db' := by
  unfold cleanupProcessedPostAction at hok
  split at hok
  · cases hok
  · obtain ⟨post,hpost,hok⟩ := withPost_eq_ok hok
    obtain rfl := Except.ok.inj hok
    obtain rfl : post.id = postId := (Table.get_eq_some.mp hpost).2
    have hcleared : NoDangling (clearPost false (fun _ => false) (fun _ => false) post db) :=
      noDangling_clearPost h hcalls
    exact hcleared.modify_post.recount now

theorem noDangling_deleteFeedCascade (h : NoDangling db) {feedId : ℕ}
    (hsafe : (Command.deleteFeedCascade feedId).Safe db)
    (hok : deleteFeedCascadeAction feedId db = .ok db') : NoDangling db' := by
  unfold deleteFeedCascadeAction at hok
  split at hok
  · cases hok
  · rename_i hzero
    split at hok
    · exact Except.ok.inj hok ▸ h
    · rename_i feed hfeed
      obtain rfl := Except.ok.inj hok
      obtain ⟨haudio,hcalls⟩ := hsafe hzero (by rw [hfeed]; exact Option.some_ne_none feed)
      exact noDangling_deleteFeed h haudio hcalls

theorem noDangling_updateModelCall (h : NoDangling db) {id : ℕ} {columns : List CallColumn}
    (hok : updateModelCall id columns db = .ok db') : NoDangling db' := by
  have hset := withRow_eq_ok hok
  split at hset
  · cases hset
  · rename_i calls hcalls
    obtain rfl := Except.ok.inj hset
    refine noDangling_setCallColumns (fun column hmem postId hpostId => ?_) h hcalls
    have hgeneric := (List.mem_filter.mp hmem).2
    cases column with
    | postId value => cases hgeneric
    | _ => cases hpostId

theorem noDangling_deletePost (h : NoDangling db) {id : ℕ} (hunused : PostUnused db id) :
    NoDangling { db with posts := db.posts.deleteWhere (fun post => post.id = id) } := by
  have hkeep : ∀ {postId : ℕ}, postId ≠ id → ∀ post ∈ db.posts.table.rows, post.id = postId →
      (!decide (post.id = id)) = true := by
    intro postId hne post _ hid
    simp [hid,hne]
  refine { h with
    audioSegments := h.audioSegments.filter_parents
      (fun audio haudio => hkeep (hunused.audioSegments audio haudio))
    segments := h.segments.filter_parents
      (fun segment hsegment => hkeep (hunused.segments segment hsegment))
    calls := h.calls.filter_parents (fun call hcall => hkeep (hunused.calls call hcall))
    jobs := ?_ }
  rw [refers_iff]
  intro job hjob
  obtain ⟨post,hpost,hguid,hne⟩ := hunused.jobs job hjob
  exact ⟨post,Indexed.mem_deleteWhere.mpr ⟨hpost,decide_eq_false hne⟩,hguid⟩

/-- The actions that leave every reference alone. -/
theorem noDangling_of_same (h : NoDangling db) (hposts : db'.posts = db.posts)
    (hsegments : db'.segments = db.segments) (hidentifications : db'.identifications =
      db.identifications) (haudio : db'.audioSegments = db.audioSegments)
    (hcalls : db'.calls = db.calls) (hjobs : db'.jobs = db.jobs) : NoDangling db' := by
  obtain ⟨feeds,posts,segments,identifications,audio,calls,jobs,run,memberships,tokens⟩ := db'
  dsimp only at hposts hsegments hidentifications haudio hcalls hjobs
  subst hposts hsegments hidentifications haudio hcalls hjobs
  exact ⟨h.audioSegments,h.segments,h.calls,h.identified,h.answered,h.jobs⟩

theorem noDangling_ensureUserFeedMembership (h : NoDangling db) {feedId userId : ℕ}
    (hok : ensureUserFeedMembershipAction feedId userId db = .ok db') : NoDangling db' := by
  unfold ensureUserFeedMembershipAction at hok
  split at hok
  · cases hok
  · split at hok <;> obtain rfl := Except.ok.inj hok
    · exact h
    · exact noDangling_of_same h rfl rfl rfl rfl rfl rfl

theorem noDangling_removeUserFeedMembership (h : NoDangling db) {feedId userId : ℕ}
    (hok : removeUserFeedMembershipAction feedId userId db = .ok db') : NoDangling db' := by
  unfold removeUserFeedMembershipAction at hok
  split at hok
  · cases hok
  · obtain rfl := Except.ok.inj hok
    exact noDangling_of_same h rfl rfl rfl rfl rfl rfl

theorem noDangling_createFeedAccessToken (h : NoDangling db) {userId : ℕ} {feedId : Option ℕ}
    (hok : createFeedAccessTokenAction userId feedId db = .ok db') : NoDangling db' := by
  unfold createFeedAccessTokenAction at hok
  split at hok
  · cases hok
  · split at hok <;> obtain rfl := Except.ok.inj hok
    · exact h
    · exact noDangling_of_same h rfl rfl rfl rfl rfl rfl

theorem noDangling_whitelistPost (h : NoDangling db) {postId : ℕ}
    (hok : whitelistPostAction postId db = .ok db') : NoDangling db' := by
  unfold whitelistPostAction at hok
  split at hok
  · cases hok
  · obtain rfl := Except.ok.inj hok
    exact noDangling_setWhitelisted h _ _

theorem noDangling_whitelistLatestPostForFeed (h : NoDangling db) {feedId : ℕ}
    (hok : whitelistLatestPostForFeedAction feedId db = .ok db') : NoDangling db' := by
  unfold whitelistLatestPostForFeedAction at hok
  split at hok
  · cases hok
  · split at hok <;> obtain rfl := Except.ok.inj hok
    · exact h
    · exact noDangling_setWhitelisted h _ _

/-- A feed that is there is refreshed, and none else. -/
theorem noDangling_refreshKnownFeed (h : NoDangling db) {feedId : ℕ} {columns : List FeedColumn}
    {created : List NewPost} {updates : List PostUpdate} {now : Writer.Time}
    (hsafe : (Command.refreshFeed feedId columns created updates now).Safe db)
    (hok : refreshFeedAction feedId columns created updates now db = .ok db') : NoDangling db' := by
  cases hfeed : db.feeds.get feedId with
  | none => simp [refreshFeedAction,hfeed] at hok
  | some feed =>
    exact noDangling_refreshFeed h (hsafe (by rw [hfeed]; exact Option.some_ne_none feed)) hok

theorem noDangling_deleteModelCall (h : NoDangling db) {id : ℕ}
    (hunused : ∀ row ∈ db.identifications.table.rows, row.modelCallId ≠ id) :
    NoDangling { db with calls := db.calls.deleteWhere (fun call => call.id = id) } :=
  h.drop_calls (fun row hrow _ _ hid => decide_eq_false (fun he => hunused row hrow (hid.symm.trans he)))

/-- One command that is safe leaves nothing dangling. -/
theorem noDangling_perform (h : NoDangling db) {cmd : Command} (hsafe : cmd.Safe db)
    (hok : perform db cmd = .ok db') : NoDangling db' := by
  cases cmd with
  | job cmd => exact noDangling_jobAction h hsafe hok
  | cancelExistingJobs postGuid currentJobId now =>
    obtain rfl := Except.ok.inj hok
    exact noDangling_cancelExistingJobs h postGuid currentJobId now
  | clearPostProcessingData postId => exact noDangling_withPost_clearPost h hsafe hok
  | clearPostProcessingDataKeepTranscript postId => exact noDangling_withPost_clearPost h hsafe hok
  | cleanupProcessedPost postId now => exact noDangling_cleanupProcessedPost h hsafe hok
  | cleanupProcessedPostFilesOnly postId => exact noDangling_cleanupProcessedPostFilesOnly h hok
  | preparePostForAutoRetry postId => exact noDangling_preparePostForAutoRetry h hsafe hok
  | cleanupMissingAudioPaths disk now => exact noDangling_cleanupMissingAudioPaths h hok
  | deleteFeedCascade feedId => exact noDangling_deleteFeedCascade h hsafe hok
  | refreshFeed feedId columns created updates now => exact noDangling_refreshKnownFeed h hsafe hok
  | addFeed feed created now => exact noDangling_addFeed h hok
  | createDevTestFeed rssUrl title guidPrefix downloadUrlPrefix jobIds now =>
    exact noDangling_createDevTestFeed h hok
  | ensureUserFeedMembership feedId userId => exact noDangling_ensureUserFeedMembership h hok
  | removeUserFeedMembership feedId userId => exact noDangling_removeUserFeedMembership h hok
  | createFeedAccessToken userId feedId => exact noDangling_createFeedAccessToken h hok
  | whitelistPost postId => exact noDangling_whitelistPost h hok
  | whitelistLatestPostForFeed feedId => exact noDangling_whitelistLatestPostForFeed h hok
  | toggleWhitelistAllForFeed feedId newStatus =>
    obtain rfl := Except.ok.inj hok
    exact noDangling_setWhitelisted h _ _
  | deleteUser userId => exact noDangling_deleteUser h hok
  | upsertModelCall postId key prompt => exact noDangling_upsertModelCall h hsafe hok
  | upsertWhisperModelCall postId key prompt resetFields =>
    exact noDangling_upsertWhisperModelCall h hsafe.1 hsafe.2 hok
  | deleteModelCallsForPostByModelName postId modelName =>
    exact noDangling_deleteModelCallsForPostByModelName h hsafe hok
  | startTranscriptionReplace postId modelCallId => exact noDangling_startTranscriptionReplace h hok
  | insertTranscriptSegments postId data => exact noDangling_insertTranscriptSegments h hok
  | finishTranscriptionReplace postId modelCallId segmentCount words =>
    exact noDangling_finishTranscriptionReplace h hok
  | replaceTranscription postId modelCallId data words => exact noDangling_replaceTranscription h hok
  | markModelCallFailed callId status errorMessage =>
    obtain rfl := Except.ok.inj hok
    exact noDangling_modifyCall h
  | insertIdentifications data =>
    obtain rfl := Except.ok.inj hok
    exact noDangling_insertIdentifications h hsafe (fun _ hrow => hrow)
  | replaceIdentifications deleteIds data =>
    obtain rfl := Except.ok.inj hok
    exact noDangling_insertIdentifications h hsafe
      (fun _ hrow => (Indexed.mem_deleteWhere.mp hrow).1)
  | replaceAudioSegments postId modelCallId data => exact noDangling_replaceAudioSegments h hok
  | otherAction => exact Except.ok.inj hok ▸ h
  | create model => cases hok
  | updatePost id columns =>
    obtain rfl := Except.ok.inj (withRow_eq_ok hok)
    exact h.modify_post
  | updateModelCall id columns => exact noDangling_updateModelCall h hok
  | updateFeed id => exact Except.ok.inj (withRow_eq_ok hok) ▸ h
  | deletePost id =>
    obtain ⟨hzero,rfl⟩ := deleteRow_eq_ok hok
    exact noDangling_deletePost h (hsafe hzero)
  | deleteModelCall id =>
    obtain ⟨hzero,rfl⟩ := deleteRow_eq_ok hok
    exact noDangling_deleteModelCall h (hsafe hzero)
  | deleteFeed id =>
    obtain ⟨-,rfl⟩ := deleteRow_eq_ok hok
    exact noDangling_of_same h rfl rfl rfl rfl rfl rfl

theorem noDangling_execute (h : NoDangling db) {cmd : Command} (hsafe : cmd.Safe db) :
    NoDangling (execute db cmd) := by
  unfold execute
  split
  · rename_i db' hok
    exact noDangling_perform h hsafe hok
  · exact h

/-- No row waits under the id of a post that is not there, for a new post to inherit it. -/
def FreeIdsUnused (db : Database) : Prop := ∀ postId, ¬db.HasPost postId →
  (∀ segment ∈ db.segments.table.rows, segment.postId ≠ postId) ∧
  (∀ audio ∈ db.audioSegments.rows, audio.postId ≠ postId) ∧
  ∀ call ∈ db.calls.table.rows, call.postId ≠ postId

theorem NoDangling.freeIdsUnused (h : NoDangling db) : FreeIdsUnused db := by
  intro postId hnone
  have hne : ∀ post ∈ db.posts.table.rows, post.id ≠ postId := fun post hpost hid =>
    hnone ⟨post,hpost,hid⟩
  exact ⟨fun _ => h.segments.not_mem_of_forall_ne hne,
    fun _ => h.audioSegments.not_mem_of_forall_ne hne,fun _ => h.calls.not_mem_of_forall_ne hne⟩

end

/-- In every state that safe commands reach, no row dangles and no free id is inherited with rows. -/
theorem noDangling_run {cmds : List Command}
    (hsafe : AllSteps execute (fun db cmd => cmd.Safe db) Database.empty cmds) :
    NoDangling (run execute Database.empty cmds) ∧
      FreeIdsUnused (run execute Database.empty cmds) := by
  have h : NoDangling (run execute Database.empty cmds) :=
    AllSteps.invariant (I := NoDangling) (fun _ _ hsafe h => noDangling_execute h hsafe)
      noDangling_empty hsafe
  exact ⟨h,h.freeIdsUnused⟩

/-- A whitelisted episode of a feed that is added. -/
def firstEpisode : NewPost :=
  ⟨none,"ep-1","https://cdn/1.mp3","Episode 1",none,true,none,none,fun _ => none,"job-1"⟩

/-- Process an episode of a new feed and clear it. -/
def processAndClear : List Command :=
  [.addFeed ⟨none,"Show","https://show/rss"⟩ [firstEpisode] 0,
    .insertTranscriptSegments 1 [⟨0,0,5,"hello"⟩],.upsertModelCall 1 ⟨0,0,"gpt"⟩ "prompt",
    .insertIdentifications [⟨1,1,"ad",none⟩],.replaceAudioSegments 1 none [⟨0,5,"music"⟩],
    .clearPostProcessingData 1]

theorem noDangling_processAndClear :
    AllSteps execute (fun db cmd => cmd.Safe db) Database.empty processAndClear ∧
      NoDangling (run execute Database.empty processAndClear) ∧
      FreeIdsUnused (run execute Database.empty processAndClear) := by
  have hsafe : AllSteps execute (fun db cmd => cmd.Safe db) Database.empty processAndClear := by
    refine ⟨trivial,trivial,fun _ => by decide,?_,trivial,?_,trivial⟩
    · have hrefers : ∀ new ∈ [IdentificationData.mk 1 1 "ad" none],
          new.RefersTo (run execute Database.empty (processAndClear.take 3)) := by decide
      exact hrefers
    · have hunused : CallsUnused (run execute Database.empty (processAndClear.take 5))
          ((run execute Database.empty (processAndClear.take 5)).deleteIdentifications
            (fun id => id = 1)) (fun call => call.postId = 1 && !false) := by decide
      exact hunused
  exact ⟨hsafe,noDangling_run hsafe⟩

/-- Find the ads of an episode of a new feed, delete the feed and add another one. -/
def deleteAndAdd : List Command :=
  [.addFeed ⟨none,"Show","https://show/rss"⟩ [firstEpisode] 0,
    .replaceAudioSegments 1 none [⟨0,5,"music"⟩],.deleteFeedCascade 1,
    .addFeed ⟨none,"Talk","https://talk/rss"⟩
      [⟨none,"talk-1","https://cdn/2.mp3","Talk 1",none,false,none,none,fun _ => none,"job-2"⟩] 1]

/-- The audio segments of a deleted feed stay, and the next post takes them over with its id. -/
theorem not_noDangling_deleteAndAdd :
    ¬NoDangling (run execute Database.empty (deleteAndAdd.take 3)) ∧
      (run execute Database.empty deleteAndAdd).posts.table.rows.map
        (fun post => (post.id,post.guid)) = [(1,"talk-1")] ∧
      (run execute Database.empty deleteAndAdd).audioSegments.rows.map AudioSegment.postId =
        [1] := by
  refine ⟨fun h => ?_,by decide,by decide⟩
  have hmem : (⟨1,1,none,"music",0,5⟩ : AudioSegment) ∈
      (run execute Database.empty (deleteAndAdd.take 3)).audioSegments.rows := by decide
  obtain ⟨post,hpost,-⟩ := h.audioSegments.exists_parent hmem
  have hnone : (run execute Database.empty (deleteAndAdd.take 3)).posts.table.rows = [] := rfl
  rw [hnone] at hpost
  cases hpost

end Podly.Episodes
