import Mathlib.Data.Set.Function
import Podly.Feeds.Actions

/-! The conditional requests of `get_feed`: its ETag and its date, what it answers 304 to, and which
runs of the writer these validators keep up with. -/
namespace Podly.Feeds
open Store Writer

/-- The text that `_compute_feed_etag` hashes, by its parts. -/
structure EtagPayload where
  feedId : ℤ
  lastChanged : IsoText
  postCount : ℕ
  maxPostId : ℤ
deriving DecidableEq

def etagPayload (sys : System) (feed : Feed) : EtagPayload :=
  let posts := sys.posts.rows.filter (fun post => post.feedId = feed.id)
  ⟨feed.id,isoformat feed.lastChangedAt,posts.length,((posts.map Post.id).max?).getD 0⟩

/-- The tags of an `If-None-Match` header; the star matches every tag. -/
structure ETags where
  tags : List String
  star : Bool

def ETags.containsWeak (etags : ETags) (etag : String) : Bool := etags.star || etag ∈ etags.tags

/-- The validators of a request; a date has no fraction of a second. -/
structure Request where
  ifNoneMatch : Option ETags
  ifModifiedSince : Option ℤ

def clientHasCurrentVersion (request : Request) (etag : String) (lastModified : Time) : Bool :=
  match request.ifNoneMatch with
  | some etags => etags.containsWeak etag
  | none =>
    match request.ifModifiedSince with
    | some date => lastModified / 1000000 ≤ date
    | none => false

structure Response where
  document : Document
  etag : String
  lastModified : Time

section
variable (links : Links) (sha1 : EtagPayload → String)

/-- `_compute_feed_etag`. -/
def computeFeedEtag (sys : System) (feed : Feed) : String := sha1 (etagPayload sys feed)

/-- What `get_feed` answers when it does not answer 304. -/
def getFeed (sys : System) (feedId : ℤ) : Option Response :=
  (sys.feeds.get feedId).map (fun feed =>
    ⟨generateFeedXml sys links feed,computeFeedEtag sha1 sys feed,feed.lastChangedAt⟩)

end

/-- The request sends back validators of the response, and nothing else. -/
def SentBack (request : Request) (response : Response) : Prop :=
  (∀ etags ∈ request.ifNoneMatch, etags = ⟨[response.etag],false⟩) ∧
    ∀ date ∈ request.ifModifiedSince, date = response.lastModified / 1000000

/-- A changed document has another tag, and no validator of the earlier one passes for it. -/
def NeverHides (earlier later : Response) : Prop :=
  later.document ≠ earlier.document → later.etag ≠ earlier.etag ∧
    ∀ request, SentBack request earlier →
      clientHasCurrentVersion request later.etag later.lastModified = false

section
variable (links : Links) (feedId : ℤ) (sys : System) (cmd : Command)

/-- A refresh of the feed that has something to write, and commits. -/
def Refreshes : Prop :=
  (∃ updates newPosts existing, cmd.action = .refreshFeed feedId updates newPosts existing ∧
    (updates.isEmpty = false ∨ newPosts ≠ [] ∨
      0 < updatedPostsCount feedId existing sys.posts.rows)) ∧
  ∃ sys', perform sys cmd = .ok sys' ∧ sys'.UniqueGuids

/-- The command changes something that the document of the feed shows. -/
def Alters : Prop :=
  (sys.feeds.get feedId).map (feedContent sys links) ≠
    ((execute sys cmd).feeds.get feedId).map (feedContent (execute sys cmd) links)

/-- A refresh does not go back to an earlier second, and what changes the document is a refresh in a
later second than the last. -/
structure KeepsPace : Prop where
  clock : Refreshes feedId sys cmd → ∀ feed ∈ sys.feeds.get feedId,
    feed.lastChangedAt / 1000000 ≤ cmd.now / 1000000
  alters : Alters links feedId sys cmd → Refreshes feedId sys cmd ∧ ∀ feed ∈ sys.feeds.get feedId,
    feed.lastChangedAt / 1000000 < cmd.now / 1000000

end

section
variable {sys sys' : System} {now : Time}

@[simp] theorem feeds_withJobs (db : Database) : (sys.withJobs db).feeds = sys.feeds := rfl

@[simp] theorem feeds_recalculate : (sys.recalculate now).feeds = sys.feeds := rfl

@[simp] theorem feeds_updatePosts {p : Post → Bool} {f : Post → Post}
    {hf : ∀ post, (f post).id = post.id} : (sys.updatePosts p f hf).feeds = sys.feeds := rfl

@[simp] theorem feeds_unlink (paths : List String) : (sys.unlink paths).feeds = sys.feeds := rfl

@[simp] theorem feeds_clearPost (post : Post) : (clearPost sys post).feeds = sys.feeds := rfl

@[simp] theorem feeds_applyExistingPostUpdates {feedId : ℤ} (updates : List PostUpdate) :
    (applyExistingPostUpdates sys feedId updates).feeds = sys.feeds := by
  unfold applyExistingPostUpdates
  induction updates generalizing sys with
  | nil => rfl
  | cons update updates ih =>
    rw [List.foldl_cons,ih]
    rfl

theorem feeds_createPosts {newPosts : List NewPost} {jobs : List ProcessingJob}
    (h : createPosts sys newPosts jobs = .ok sys') : sys'.feeds = sys.feeds := by
  unfold createPosts at h
  split at h
  · cases h
  · split at h
    · cases h
    · cases h
      rfl

theorem feeds_withPost {postId : ℤ} {k : Post → Outcome}
    (hk : ∀ post s, k post = .ok s → s.feeds = sys.feeds)
    (h : withPost sys postId k = .ok sys') : sys'.feeds = sys.feeds := by
  unfold withPost at h
  split at h
  · cases h
  · exact hk _ _ h

/-- A feed that is there keeps its row when another one is created. -/
theorem feeds_createFeed {feed : Feed} {newPosts : List NewPost} {jobs : List ProcessingJob}
    (h : createFeed now sys feed newPosts jobs = .ok sys') {feedId : ℤ}
    (hthere : sys.feeds.get feedId ≠ none) : sys'.feeds.get feedId = sys.feeds.get feedId := by
  unfold createFeed at h
  split at h
  · cases h
  · rename_i feeds hinsert
    rw [feeds_createPosts h,Table.get_insert hinsert,if_neg]
    rintro rfl
    exact hthere (Table.insert_get_ne_none hinsert)

/-- What a refresh does to the rows of the feeds. -/
theorem feeds_refreshFeedAction {feedId : ℤ} {updates : FeedUpdates} {newPosts : List NewPost}
    {existing : List PostUpdate}
    (h : refreshFeedAction now sys feedId updates newPosts existing = .ok sys') :
    sys'.feeds = (if updates.isEmpty = false ∨ newPosts ≠ [] ∨
        0 < updatedPostsCount feedId existing sys.posts.rows then
      (sys.feeds.modify feedId updates.apply updates.apply_id).modify feedId (Feed.touch now)
        (Feed.touch_id now)
    else sys.feeds.modify feedId updates.apply updates.apply_id) := by
  unfold refreshFeedAction at h
  split at h
  · cases h
  · dsimp only at h
    split at h
    · cases h
    · rename_i created hcreated
      have hfeeds := feeds_createPosts hcreated
      have hposts : newPosts = [] → created.posts = sys.posts := by
        rintro rfl
        simp only [createPosts,List.map_nil,insertPosts] at hcreated
        split at hcreated <;> cases hcreated
        rfl
      cases h
      by_cases hwrites : updates.isEmpty = false ∨ newPosts ≠ [] ∨
          0 < updatedPostsCount feedId existing sys.posts.rows
      · have hflag : (!updates.isEmpty || decide (newPosts ≠ []) ||
            decide (updatedPostsCount feedId existing created.posts.rows > 0)) = true := by
          rcases hwrites with hupdates | hnew | hcount
          · simp [hupdates]
          · simp [hnew]
          · by_cases hnew : newPosts = []
            · simp [hposts hnew,hcount]
            · simp [hnew]
        rw [if_pos hwrites,if_pos hflag]
        simp [hfeeds]
      · obtain ⟨hupdates,hnew,hcount⟩ :
            updates.isEmpty = true ∧ newPosts = [] ∧
              updatedPostsCount feedId existing sys.posts.rows = 0 := by
          simpa [not_or] using hwrites
        rw [if_neg hwrites,if_neg (by simp [hupdates,hnew,hposts hnew,hcount])]
        simp [hfeeds]

/-- A command that is no refresh of the feed leaves its row, or deletes it. -/
theorem feeds_perform {cmd : Command} {feedId : ℤ}
    (hother : ∀ updates newPosts existing,
      cmd.action ≠ .refreshFeed feedId updates newPosts existing)
    (h : perform sys cmd = .ok sys') (hthere : sys.feeds.get feedId ≠ none)
    (hthere' : sys'.feeds.get feedId ≠ none) :
    sys'.feeds.get feedId = sys.feeds.get feedId := by
  have hsame : ∀ {s : System}, .ok s = (.ok sys' : Outcome) → s.feeds = sys.feeds →
      sys'.feeds.get feedId = sys.feeds.get feedId := by
    intro s hs hfeeds
    rw [← Except.ok.inj hs,hfeeds]
  obtain ⟨action,now⟩ := cmd
  cases action <;> simp only [perform] at h
  case jobs action =>
    split at h
    · cases h
    · exact hsame h rfl
  case refreshFeed otherId updates newPosts existing =>
    have hne : feedId ≠ otherId := by
      rintro rfl
      exact hother updates newPosts existing rfl
    rw [feeds_refreshFeedAction h]
    split <;> simp [hne]
  case addFeed feed posts =>
    unfold addFeedAction at h
    split at h
    · cases h
    · rename_i created hcreated
      cases h
      exact feeds_createFeed hcreated hthere
  case createDevTestFeed feed posts => exact feeds_createFeed h hthere
  case deleteFeedCascade otherId =>
    unfold deleteFeedCascadeAction at h
    split at h
    · cases h
    · split at h
      · exact hsame h rfl
      · cases h
        rw [Table.get_deleteWhere] at hthere' ⊢
        cases hrow : sys.feeds.get feedId with
        | none => exact absurd hrow hthere
        | some feed =>
          rw [hrow,Option.filter_some] at hthere'
          rw [Option.filter_some,if_pos]
          by_contra hselected
          exact hthere' (if_neg hselected)
  case whitelistPost postId =>
    unfold whitelistPostAction at h
    split at h
    · cases h
    · exact hsame h rfl
  case whitelistLatestPostForFeed otherId =>
    unfold whitelistLatestPostForFeedAction at h
    split at h
    · cases h
    · split at h <;> exact hsame h rfl
  case toggleWhitelistAllForFeed otherId newStatus => exact hsame h rfl
  case clearPostProcessingData postId =>
    rw [feeds_withPost (fun post s hs => by cases hs; rfl) h]
  case clearPostProcessingDataKeepTranscript postId =>
    rw [feeds_withPost (fun post s hs => by cases hs; rfl) h]
  case preparePostForAutoRetry postId =>
    rw [feeds_withPost (fun post s hs => by cases hs; rfl) h]
  case cleanupProcessedPost postId =>
    unfold cleanupProcessedPostAction at h
    split at h
    · cases h
    · rw [feeds_withPost (fun post s hs => by cases hs; rfl) h]
  case cleanupProcessedPostFilesOnly postId =>
    unfold cleanupProcessedPostFilesOnlyAction at h
    split at h
    · cases h
    · rw [feeds_withPost (fun post s hs => by cases hs; rfl) h]
  case cleanupMissingAudioPaths => exact hsame h rfl
  case updatePost postId fields =>
    unfold updatePostAction at h
    split at h
    · cases h
    · split at h
      · cases h
      · exact hsame h rfl
  case updateCombinedConfig autoprocessOnDownload => exact hsame h rfl
  case others => exact hsame h rfl
  case files disk => exact hsame h rfl

theorem execute_of_commits {cmd : Command} (h : perform sys cmd = .ok sys')
    (hunique : sys'.UniqueGuids) : execute sys cmd = sys' := by
  unfold execute
  rw [h]
  exact if_pos hunique

theorem execute_cases (sys : System) (cmd : Command) : execute sys cmd = sys ∨
    ∃ sys', perform sys cmd = .ok sys' ∧ sys'.UniqueGuids ∧ execute sys cmd = sys' := by
  unfold execute
  split
  · exact .inl rfl
  · rename_i sys' hperform
    split
    · rename_i hunique
      exact .inr ⟨sys',hperform,hunique,rfl⟩
    · exact .inl rfl

section
variable {cmd : Command} {feedId : ℤ} {feed feed' : Feed}

theorem lastChangedAt_of_refreshes (hrefresh : Refreshes feedId sys cmd)
    (hfeed' : (execute sys cmd).feeds.get feedId = some feed') :
    feed'.lastChangedAt = cmd.now := by
  obtain ⟨⟨updates,newPosts,existing,haction,hwrites⟩,sys',hperform,hunique⟩ := hrefresh
  rw [execute_of_commits hperform hunique] at hfeed'
  rw [perform,haction] at hperform
  rw [feeds_refreshFeedAction hperform,if_pos hwrites,Table.get_modify,if_pos rfl] at hfeed'
  obtain ⟨row,-,rfl⟩ := Option.map_eq_some_iff.mp hfeed'
  rfl

/-- Nothing but a refresh moves the date of a feed. -/
theorem lastChangedAt_of_not_refreshes (hrefresh : ¬Refreshes feedId sys cmd)
    (hfeed : sys.feeds.get feedId = some feed)
    (hfeed' : (execute sys cmd).feeds.get feedId = some feed') :
    feed'.lastChangedAt = feed.lastChangedAt := by
  rcases execute_cases sys cmd with hrolled | ⟨sys',hperform,hunique,hcommit⟩
  · rw [hrolled,hfeed] at hfeed'
    rw [Option.some.inj hfeed']
  · rw [hcommit] at hfeed'
    by_cases hother : ∃ updates newPosts existing,
        cmd.action = .refreshFeed feedId updates newPosts existing
    · obtain ⟨updates,newPosts,existing,haction⟩ := hother
      have hidle : ¬(updates.isEmpty = false ∨ newPosts ≠ [] ∨
          0 < updatedPostsCount feedId existing sys.posts.rows) := fun hwrites =>
        hrefresh ⟨⟨updates,newPosts,existing,haction,hwrites⟩,sys',hperform,hunique⟩
      rw [perform,haction] at hperform
      rw [feeds_refreshFeedAction hperform,if_neg hidle,Table.get_modify,if_pos rfl,hfeed] at hfeed'
      rw [← Option.some.inj hfeed']
      rfl
    · have hsame := feeds_perform (fun updates newPosts existing haction =>
        hother ⟨updates,newPosts,existing,haction⟩) hperform (by simp [hfeed]) (by simp [hfeed'])
      rw [hfeed',hfeed] at hsame
      rw [Option.some.inj hsame]

end

end

/-- Where the document of the feed has changed, its date is of a later second. -/
def DatesChange (links : Links) (feedId : ℤ) (sys sys' : System) : Prop :=
  ∀ feed ∈ sys.feeds.get feedId, ∀ feed' ∈ sys'.feeds.get feedId,
    generateFeedXml sys' links feed' ≠ generateFeedXml sys links feed →
      feed.lastChangedAt / 1000000 < feed'.lastChangedAt / 1000000

section
variable {links : Links} {feedId : ℤ} {sys sys' sys'' : System}

theorem generateFeedXml_eq_iff {feed feed' : Feed} :
    generateFeedXml sys' links feed' = generateFeedXml sys links feed ↔
      feedContent sys' links feed' = feedContent sys links feed ∧
        feed'.lastChangedAt / 1000000 = feed.lastChangedAt / 1000000 :=
  Document.mk.injEq _ _ _ _ ▸ Iff.rfl

theorem datesChange_refl (sys : System) : DatesChange links feedId sys sys := by
  intro feed hfeed feed' hfeed' hne
  obtain rfl := Option.some.inj (hfeed.symm.trans hfeed')
  exact absurd rfl hne

theorem datesChange_trans (hthere : sys'.feeds.get feedId ≠ none)
    (h : DatesChange links feedId sys sys') (h' : DatesChange links feedId sys' sys'') :
    DatesChange links feedId sys sys'' := by
  intro feed hfeed feed'' hfeed'' hne
  obtain ⟨feed',hfeed'⟩ := Option.ne_none_iff_exists'.mp hthere
  by_cases hfirst : generateFeedXml sys' links feed' = generateFeedXml sys links feed
  · rw [← (generateFeedXml_eq_iff.mp hfirst).2]
    exact h' feed' hfeed' feed'' hfeed'' (fun he => hne (he.trans hfirst))
  · have hlt := h feed hfeed feed' hfeed' hfirst
    by_cases hsecond : generateFeedXml sys'' links feed'' = generateFeedXml sys' links feed'
    · rwa [(generateFeedXml_eq_iff.mp hsecond).2]
    · exact hlt.trans (h' feed' hfeed' feed'' hfeed'' hsecond)

/-- One command dates its changes exactly when it keeps pace. -/
theorem datesChange_execute_iff {cmd : Command} (hthere : sys.feeds.get feedId ≠ none)
    (hthere' : (execute sys cmd).feeds.get feedId ≠ none) :
    DatesChange links feedId sys (execute sys cmd) ↔ KeepsPace links feedId sys cmd := by
  obtain ⟨feed,hfeed⟩ := Option.ne_none_iff_exists'.mp hthere
  obtain ⟨feed',hfeed'⟩ := Option.ne_none_iff_exists'.mp hthere'
  have hdates : DatesChange links feedId sys (execute sys cmd) ↔
      (generateFeedXml (execute sys cmd) links feed' ≠ generateFeedXml sys links feed →
        feed.lastChangedAt / 1000000 < feed'.lastChangedAt / 1000000) := by
    simp only [DatesChange,hfeed,hfeed',Option.mem_some_iff,forall_eq']
  have halters : Alters links feedId sys cmd ↔
      feedContent (execute sys cmd) links feed' ≠ feedContent sys links feed := by
    rw [Alters,hfeed,hfeed',Option.map_some,Option.map_some,ne_eq,Option.some_inj,eq_comm]
  rw [hdates,ne_eq,generateFeedXml_eq_iff]
  by_cases hrefresh : Refreshes feedId sys cmd
  · rw [lastChangedAt_of_refreshes hrefresh hfeed']
    constructor
    · intro h
      refine ⟨fun _ => ?_,fun halter => ⟨hrefresh,?_⟩⟩
      · intro row hrow
        obtain rfl := Option.some.inj (hfeed.symm.trans hrow)
        by_contra hlater
        exact hlater (h (fun he => hlater he.2.ge)).le
      · intro row hrow
        obtain rfl := Option.some.inj (hfeed.symm.trans hrow)
        exact h (fun he => halters.mp halter he.1)
    · rintro ⟨hclock,hlater⟩ hne
      have hle := hclock hrefresh feed hfeed
      by_cases hcontent : feedContent (execute sys cmd) links feed' = feedContent sys links feed
      · exact lt_of_le_of_ne hle (fun he => hne ⟨hcontent,he.symm⟩)
      · exact (hlater (halters.mpr hcontent)).2 feed hfeed
  · rw [lastChangedAt_of_not_refreshes hrefresh hfeed hfeed']
    constructor
    · intro h
      refine ⟨fun hcontra => absurd hcontra hrefresh,fun halter => ?_⟩
      exact absurd (h (fun he => halters.mp halter he.1)) (lt_irrefl _)
    · rintro ⟨-,hlater⟩ hne
      by_cases hcontent : feedContent (execute sys cmd) links feed' = feedContent sys links feed
      · exact absurd ⟨hcontent,rfl⟩ hne
      · exact absurd (hlater (halters.mpr hcontent)).1 hrefresh

end

section
variable {links : Links} {sha1 : EtagPayload → String} {feedId : ℤ} {sys sys' : System}

/-- The payload tells the date to the microsecond. -/
theorem isoformat_injective : Function.Injective isoformat := by
  intro t u h
  have hsecond : t / 1000000 = u / 1000000 := congrArg IsoText.second h
  have hrest : t % 1000000 = u % 1000000 := by
    have hfraction := congrArg IsoText.fraction h
    simp only [isoformat] at hfraction
    split at hfraction <;> split at hfraction
    · rename_i ht hu
      exact ht.trans hu.symm
    · cases hfraction
    · cases hfraction
    · exact Option.some.inj hfraction
  rw [← Int.mul_ediv_add_emod t 1000000,← Int.mul_ediv_add_emod u 1000000,hsecond,hrest]

/-- Responses never hide a change exactly when it shows in the second of their dates. -/
theorem neverHides_iff (hsha1 : ∀ feed ∈ sys.feeds.get feedId, ∀ feed' ∈ sys'.feeds.get feedId,
    sha1 (etagPayload sys' feed') = sha1 (etagPayload sys feed) →
      etagPayload sys' feed' = etagPayload sys feed) :
    (∀ earlier ∈ getFeed links sha1 sys feedId, ∀ later ∈ getFeed links sha1 sys' feedId,
      NeverHides earlier later) ↔ DatesChange links feedId sys sys' := by
  simp only [getFeed,Option.mem_def,Option.map_eq_some_iff,forall_exists_index,and_imp,
    forall_apply_eq_imp_iff₂]
  constructor
  · intro h feed hfeed feed' hfeed' hne
    have hdate := (h feed hfeed feed' hfeed' hne).2
      ⟨none,some (feed.lastChangedAt / 1000000)⟩
      ⟨fun _ htags => (Option.not_mem_none _ htags).elim,fun _ hdate => (Option.some.inj hdate).symm⟩
    simpa [clientHasCurrentVersion] using hdate
  · intro h feed hfeed feed' hfeed' hne
    have hlt := h feed hfeed feed' hfeed' hne
    have htag : computeFeedEtag sha1 sys' feed' ≠ computeFeedEtag sha1 sys feed := by
      intro he
      have hpayload := hsha1 feed hfeed feed' hfeed' he
      have hdate := isoformat_injective (congrArg EtagPayload.lastChanged hpayload)
      rw [hdate] at hlt
      exact absurd hlt (lt_irrefl _)
    refine ⟨htag,?_⟩
    rintro ⟨ifNoneMatch,ifModifiedSince⟩ ⟨htags,hdate⟩
    cases ifNoneMatch with
    | some etags =>
      obtain rfl := htags etags rfl
      simp [clientHasCurrentVersion,ETags.containsWeak,htag]
    | none =>
      cases ifModifiedSince with
      | none => rfl
      | some date =>
        obtain rfl := hdate date rfl
        simpa [clientHasCurrentVersion] using hlt

end

/-- What the ETags of a feed are made from in the course of a run. -/
def payloads (feedId : ℤ) (sys : System) (cmds : List Command) : Set EtagPayload :=
  {payload | ∃ before, before <+: cmds ∧ ∃ feed ∈ (run execute sys before).feeds.get feedId,
    payload = etagPayload (run execute sys before) feed}

/-- The local addresses without a token. -/
def localLinks : Links :=
  ⟨fun id => "http://localhost:5001/feed/" ++ toString id,
    fun guid => "http://localhost:5001/post/" ++ guid ++ ".mp3",
    fun guid => "http://localhost:5001/post/" ++ guid ++ "/chapters.json"⟩

/-- A feed of New Year 2026 with one episode that is not processed yet. -/
def newYearSystem : System :=
  { feeds := ⟨[⟨1,"Show",none,none,1767225600000000⟩],by decide⟩
    posts := ⟨[⟨1,1,"guid-1","Ep 1",none,none,none,none,true,none,none,none⟩],by decide⟩
    jobs := Table.empty
    run := none
    disk := ⟨"srv",id,fun path => if path = "srv/Show/Ep 1.mp3" then some 1000 else none,
      fun path => path = "srv/Show/Ep 1.mp3"⟩
    autoprocessOnDownload := true }

/-- SHA-1 of the two texts that the examples hash. -/
def newYearSha1 (payload : EtagPayload) : String :=
  if payload = ⟨1,⟨1767225600,none⟩,1,1⟩ then "0d514f6a350c52e2410a28c41e1eaa8ade93ea6f"
  else if payload = ⟨1,⟨1767229200,none⟩,1,1⟩ then "fdd528d5e63481c3bb6972283763c74cb18266cc"
  else ""

/-- An hour later the feed has an image. -/
def imageRefresh : Command :=
  ⟨.refreshFeed 1 ⟨none,none,some (some "cover.png"),false⟩ [] [],1767229200000000⟩

/-- The pipeline stores the path of the processed episode. -/
def storeProcessed : Command :=
  ⟨.updatePost 1 ⟨none,some (some "srv/Show/Ep 1.mp3"),none,none,none⟩,1767229200000000⟩

end Podly.Feeds
