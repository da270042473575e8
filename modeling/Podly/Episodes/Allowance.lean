import Podly.Episodes.Runs

/-! The feed allowance of a user: the requests that join, add and leave feeds, with each read of the
database and each command of the writer a step of its own. -/
namespace Podly.Episodes.Allowance
open Store

structure User where
  id : ℕ
  role : String
  manualFeedAllowance : Option ℤ
  feedAllowance : Option ℤ

/-- The manual allowance if there is one, else that of the plan. -/
def User.allowance (user : User) : ℤ :=
  match user.manualFeedAllowance with
  | some allowance => allowance
  | none => user.feedAllowance.getD 0

def userFeedCount (db : Database) (userId : ℕ) : ℕ :=
  db.memberships.table.rows.countP (fun row => row.userId = userId)

def isMember (db : Database) (feedId userId : ℕ) : Bool :=
  (db.memberships.find (feedId,userId)).isSome

/-- The check of both routes: at capacity, and the membership missing. -/
def limitReached (user : User) (count : ℕ) (existingMembership : Bool) : Bool :=
  user.role ≠ "admin" && 0 < user.allowance && user.allowance ≤ (count : ℤ) && !existingMembership

/-- What a request does next. -/
inductive Phase
  | joinCalled (feedId : ℕ)
  | joinFound (feedId : ℕ)
  | joinChecked (feedId : ℕ) (existingMembership : Bool)
  | addCalled (url : String)
  | addFound (url : String) (existingFeed : Option ℕ)
  | addChecked (url : String) (existingMembership : Bool)
  | adding (url : String)
  | refreshing (feedId : ℕ)
  | creating
  | creatingTest (url : String)
  | ensuring (feedId : ℕ)
  | leaveCalled (feedId : ℕ)
  | leaving (feedId : ℕ)
  | finished
deriving DecidableEq

structure Request where
  id : ℕ
  phase : Phase

namespace Request

def goTo (p : Phase) (r : Request) : Request := { r with phase := p }

theorem goTo_id (p : Phase) (r : Request) : (r.goTo p).id = r.id := rfl

end Request

/-- `developer_mode`, and what `validators.url` accepts. -/
structure Site where
  developerMode : Bool
  validUrl : String → Bool

structure State where
  db : Database
  requests : Table Request.id

def start (db : Database) : State := ⟨db,Table.empty⟩

namespace State

def phase (s : State) (id : ℕ) : Option Phase := (s.requests.get id).map Request.phase

def goTo (s : State) (id : ℕ) (p : Phase) : State :=
  { s with requests := s.requests.modify id (Request.goTo p) (Request.goTo_id p) }

/-- Send a command to the writer and go on, or end with its error. -/
def send (s : State) (id : ℕ) (cmd : Command) (p : Database → Phase) : State :=
  match perform s.db cmd with
  | .ok db => { s.goTo id (p db) with db }
  | .error _ => s.goTo id .finished

end State

/-! The reads of a request -/

/-- The first look of a request: the feed of its path, the kind of its URL, or the feed under it. -/
def lookUp (site : Site) (user : User) (s : State) (id : ℕ) : State :=
  match s.phase id with
  | some (.joinCalled feedId) =>
    s.goTo id (if (s.db.feeds.get feedId).isSome then .joinFound feedId else .finished)
  | some (.leaveCalled feedId) =>
    s.goTo id (if (s.db.feeds.get feedId).isSome then .leaving feedId else .finished)
  | some (.addCalled url) =>
    s.goTo id
      (if site.developerMode && "http://test-feed/".isPrefixOf url then .creatingTest url
      else if site.validUrl url then
        if user.role = "admin" then .adding url
        else .addFound url ((s.db.feeds.find url).map Feed.id)
      else .finished)
  | _ => s

/-- `existing_membership`. -/
def readMembership (user : User) (s : State) (id : ℕ) : State :=
  match s.phase id with
  | some (.joinFound feedId) => s.goTo id (.joinChecked feedId (isMember s.db feedId user.id))
  | some (.addFound url existingFeed) =>
    s.goTo id (.addChecked url (existingFeed.any (fun feedId => isMember s.db feedId user.id)))
  | _ => s

/-- `user_feed_count`, and what the route decides by it. -/
def readCount (user : User) (s : State) (id : ℕ) : State :=
  match s.phase id with
  | some (.joinChecked feedId existingMembership) =>
    s.goTo id
      (if limitReached user (userFeedCount s.db user.id) existingMembership then .finished
      else if existingMembership then .finished
      else .ensuring feedId)
  | some (.addChecked url existingMembership) =>
    s.goTo id
      (if limitReached user (userFeedCount s.db user.id) existingMembership then .finished
      else .adding url)
  | _ => s

/-- `add_or_refresh_feed`, once the feed has been fetched. -/
def addOrRefresh (s : State) (id : ℕ) : State :=
  match s.phase id with
  | some (.adding url) =>
    s.goTo id (match s.db.feeds.find url with
      | some feed => .refreshing feed.id
      | none => .creating)
  | _ => s

/-! The commands of a request -/

/-- `refresh_feed`, which may find nothing to send. -/
def refresh (s : State) (id : ℕ) (columns : List FeedColumn)
    (plan : Option (List NewPost × List PostUpdate)) (now : Writer.Time) : State :=
  match s.phase id,plan with
  | some (.refreshing feedId),some (created,updates) =>
    s.send id (.refreshFeed feedId columns created updates now) (fun _ => .ensuring feedId)
  | some (.refreshing feedId),none => s.goTo id (.ensuring feedId)
  | _,_ => s

/-- `add_feed`; `href` is the URL after redirects. -/
def create (s : State) (id : ℕ) (title href : String) (created : List NewPost)
    (now : Writer.Time) : State :=
  if s.phase id = some .creating then
    s.send id (.addFeed ⟨none,title,href⟩ created now)
      (fun _ => .ensuring s.db.feeds.table.nextKey)
  else s

/-- What follows the last slash of a URL. -/
def lastPart (url : String) : String := (url.splitOn "/").getLast?.getD url

/-- `handle_developer_mode_feed`, which makes no check. -/
def createTest (s : State) (id : ℕ) (jobIds : List String) (now : Writer.Time) : State :=
  match s.phase id with
  | some (.creatingTest url) =>
    s.send id (.createDevTestFeed url ("Test Feed " ++ lastPart url) ("test-guid-" ++ lastPart url)
        ("http://test-feed/" ++ lastPart url) jobIds now)
      (fun db => match db.feeds.find url with
        | some feed => .ensuring feed.id
        | none => .finished)
  | _ => s

/-- `ensure_user_feed_membership`; what the request does after it leaves the memberships alone. -/
def ensure (user : User) (s : State) (id : ℕ) : State :=
  match s.phase id with
  | some (.ensuring feedId) =>
    if user.id = 0 then s.goTo id .finished
    else s.send id (.ensureUserFeedMembership feedId user.id) (fun _ => .finished)
  | _ => s

/-- `remove_user_feed_membership`. -/
def remove (user : User) (s : State) (id : ℕ) : State :=
  match s.phase id with
  | some (.leaving feedId) =>
    s.send id (.removeUserFeedMembership feedId user.id) (fun _ => .finished)
  | _ => s

/-- A request of the user, or a step of one; any of them may fail at any point. -/
inductive Label
  | join (feedId : ℕ)
  | add (url : String)
  | leave (feedId : ℕ)
  | lookUp (id : ℕ)
  | readMembership (id : ℕ)
  | readCount (id : ℕ)
  | addOrRefresh (id : ℕ)
  | refresh (id : ℕ) (columns : List FeedColumn) (plan : Option (List NewPost × List PostUpdate))
      (now : Writer.Time)
  | create (id : ℕ) (title href : String) (created : List NewPost) (now : Writer.Time)
  | createTest (id : ℕ) (jobIds : List String) (now : Writer.Time)
  | ensure (id : ℕ)
  | remove (id : ℕ)
  | fail (id : ℕ)

def newRequest (p : Phase) (id : ℕ) : Request := ⟨id,p⟩

theorem newRequest_id (p : Phase) (id : ℕ) : (newRequest p id).id = id := rfl

def request (s : State) (p : Phase) : State :=
  { s with requests := s.requests.append (newRequest p) (newRequest_id p) }

def step (site : Site) (user : User) (s : State) : Label → State
  | .join feedId => request s (.joinCalled feedId)
  | .add url => request s (.addCalled url)
  | .leave feedId => request s (.leaveCalled feedId)
  | .lookUp id => Allowance.lookUp site user s id
  | .readMembership id => Allowance.readMembership user s id
  | .readCount id => Allowance.readCount user s id
  | .addOrRefresh id => Allowance.addOrRefresh s id
  | .refresh id columns plan now => Allowance.refresh s id columns plan now
  | .create id title href created now => Allowance.create s id title href created now
  | .createTest id jobIds now => Allowance.createTest s id jobIds now
  | .ensure id => Allowance.ensure user s id
  | .remove id => Allowance.remove user s id
  | .fail id => s.goTo id .finished

/-- A request that is about to write a membership still passes the check of its route. -/
def StillAllowed (user : User) (s : State) : Label → Prop
  | .ensure id => ∀ feedId, s.phase id = some (.ensuring feedId) → feedId ≠ 0 → user.id ≠ 0 →
    limitReached user (userFeedCount s.db user.id) (isMember s.db feedId user.id) = false
  | _ => True

/-! What the commands do to the memberships -/

section
variable {db db' : Database}

theorem memberships_createPosts {feedId : ℕ} {created : List NewPost}
    {newJobs : List Writer.ProcessingJob} (h : createPosts feedId created newJobs db = some db') :
    db'.memberships = db.memberships := by
  unfold createPosts at h
  split at h
  · cases h
  · split at h
    · cases h
    · exact (congrArg Database.memberships (Option.some.inj h)).symm

theorem memberships_insertFeed {new : NewFeed} {feedId : ℕ}
    (h : insertFeed new db = some (feedId,db')) : db'.memberships = db.memberships := by
  obtain ⟨feeds,rfl⟩ := insertFeed_eq_some h
  rfl

theorem memberships_refreshFeed {feedId : ℕ} {columns : List FeedColumn} {created : List NewPost}
    {updates : List PostUpdate} {now : Writer.Time}
    (h : perform db (.refreshFeed feedId columns created updates now) = .ok db') :
    db'.memberships = db.memberships := by
  simp only [perform,refreshFeedAction] at h
  split at h
  · cases h
  · split at h
    · rename_i hcreate
      split at h
      · cases h
      · have hmemberships := memberships_createPosts hcreate
        rw [← Except.ok.inj h]
        exact hmemberships
    · cases h

theorem memberships_addFeed {feed : NewFeed} {created : List NewPost} {now : Writer.Time}
    (h : perform db (.addFeed feed created now) = .ok db') : db'.memberships = db.memberships := by
  simp only [perform,addFeedAction] at h
  split at h
  · cases h
  · rename_i hinsert
    split at h
    · cases h
    · rename_i hcreate
      rw [← Except.ok.inj h]
      exact (memberships_createPosts hcreate).trans (memberships_insertFeed hinsert)

theorem memberships_createDevTestFeed {rssUrl title guidPrefix downloadUrlPrefix : String}
    {jobIds : List String} {now : Writer.Time}
    (h : perform db (.createDevTestFeed rssUrl title guidPrefix downloadUrlPrefix jobIds now) =
      .ok db') : db'.memberships = db.memberships := by
  simp only [perform,createDevTestFeedAction] at h
  split at h
  · cases h
  · split at h
    · rw [← Except.ok.inj h]
    · split at h
      · cases h
      · rename_i hinsert
        split at h
        · cases h
        · rename_i hcreate
          rw [← Except.ok.inj h]
          exact (memberships_createPosts hcreate).trans (memberships_insertFeed hinsert)

/-- A membership is inserted unless it is there. -/
theorem count_ensureUserFeedMembership {feedId userId : ℕ} (hfeed : feedId ≠ 0) (huser : userId ≠ 0)
    (h : perform db (.ensureUserFeedMembership feedId userId) = .ok db') :
    userFeedCount db' userId =
      userFeedCount db userId + if isMember db feedId userId then 0 else 1 := by
  simp only [perform,ensureUserFeedMembershipAction,hfeed,huser,or_self,if_false] at h
  cases hfind : db.memberships.find (feedId,userId) with
  | none =>
    have hkey : db.memberships.get db.memberships.table.nextKey = none :=
      Table.get_nextKey db.memberships.table
    split at h
    · rename_i hinsert
      simp only [Indexed.insert,UserFeed.key,hkey,hfind,dite_true] at hinsert
      cases hinsert
    · rename_i memberships hinsert
      rw [← Except.ok.inj h,isMember,hfind]
      simp [userFeedCount,Indexed.rows_insert hinsert]
  | some row =>
    split at h
    · rw [← Except.ok.inj h,isMember,hfind]
      rfl
    · rename_i memberships hinsert
      unfold Indexed.insert at hinsert
      simp only [UserFeed.key,hfind] at hinsert
      split at hinsert <;> cases hinsert

theorem count_removeUserFeedMembership {feedId userId : ℕ}
    (h : perform db (.removeUserFeedMembership feedId userId) = .ok db') :
    userFeedCount db' userId ≤ userFeedCount db userId := by
  simp only [perform,removeUserFeedMembershipAction] at h
  split at h
  · cases h
  · rw [← Except.ok.inj h]
    exact List.filter_sublist.countP_le

end

/-! What the steps do to the count -/

section
variable {site : Site} {user : User} {s : State}

/-- A command was committed, or the database is as before. -/
theorem send_db (s : State) (id : ℕ) (cmd : Command) (p : Database → Phase) :
    (s.send id cmd p).db = s.db ∨ perform s.db cmd = .ok (s.send id cmd p).db := by
  unfold State.send
  split
  · rename_i h
    exact Or.inr h
  · exact Or.inl rfl

/-- A command that keeps the memberships keeps the count. -/
theorem userFeedCount_send {id : ℕ} {cmd : Command} {p : Database → Phase}
    (h : ∀ db, perform s.db cmd = .ok db → db.memberships = s.db.memberships) :
    userFeedCount (s.send id cmd p).db user.id = userFeedCount s.db user.id := by
  rcases send_db s id cmd p with hdb | hdb
  · rw [hdb]
  · rw [userFeedCount,h _ hdb]
    rfl

theorem db_lookUp (id : ℕ) : (lookUp site user s id).db = s.db := by
  unfold lookUp
  split <;> rfl

theorem db_readMembership (id : ℕ) : (readMembership user s id).db = s.db := by
  unfold readMembership
  split <;> rfl

theorem db_readCount (id : ℕ) : (readCount user s id).db = s.db := by
  unfold readCount
  split <;> rfl

theorem db_addOrRefresh (id : ℕ) : (addOrRefresh s id).db = s.db := by
  unfold addOrRefresh
  split <;> rfl

theorem userFeedCount_refresh (id : ℕ) (columns : List FeedColumn)
    (plan : Option (List NewPost × List PostUpdate)) (now : Writer.Time) :
    userFeedCount (refresh s id columns plan now).db user.id = userFeedCount s.db user.id := by
  unfold refresh
  split
  · exact userFeedCount_send (fun _ h => memberships_refreshFeed h)
  · rfl
  · rfl

theorem userFeedCount_create (id : ℕ) (title href : String) (created : List NewPost)
    (now : Writer.Time) : userFeedCount (create s id title href created now).db user.id =
      userFeedCount s.db user.id := by
  unfold create
  split
  · exact userFeedCount_send (fun _ h => memberships_addFeed h)
  · rfl

theorem userFeedCount_createTest (id : ℕ) (jobIds : List String) (now : Writer.Time) :
    userFeedCount (createTest s id jobIds now).db user.id = userFeedCount s.db user.id := by
  unfold createTest
  split
  · exact userFeedCount_send (fun _ h => memberships_createDevTestFeed h)
  · rfl

theorem userFeedCount_remove (id : ℕ) :
    userFeedCount (remove user s id).db user.id ≤ userFeedCount s.db user.id := by
  unfold remove
  split
  · rename_i feedId _
    rcases send_db s id (.removeUserFeedMembership feedId user.id) (fun _ => .finished) with h | h
    · rw [h]
    · exact count_removeUserFeedMembership h
  · exact le_rfl

/-- Only a write of a membership can raise the count. -/
theorem userFeedCount_step_le {l : Label} (hl : ∀ id, l ≠ .ensure id) :
    userFeedCount (step site user s l).db user.id ≤ userFeedCount s.db user.id := by
  cases l with
  | join feedId => exact le_rfl
  | add url => exact le_rfl
  | leave feedId => exact le_rfl
  | lookUp id => exact (congrArg (fun db => userFeedCount db user.id) (db_lookUp id)).le
  | readMembership id =>
    exact (congrArg (fun db => userFeedCount db user.id) (db_readMembership id)).le
  | readCount id => exact (congrArg (fun db => userFeedCount db user.id) (db_readCount id)).le
  | addOrRefresh id => exact (congrArg (fun db => userFeedCount db user.id) (db_addOrRefresh id)).le
  | refresh id columns plan now => exact (userFeedCount_refresh id columns plan now).le
  | create id title href created now => exact (userFeedCount_create id title href created now).le
  | createTest id jobIds now => exact (userFeedCount_createTest id jobIds now).le
  | ensure id => exact absurd rfl (hl id)
  | remove id => exact userFeedCount_remove id
  | fail id => exact le_rfl

/-- A write of a membership adds one unless the user is a member. -/
theorem userFeedCount_ensure {id feedId : ℕ} (hid : s.phase id = some (.ensuring feedId))
    (hfeed : feedId ≠ 0) (huser : user.id ≠ 0) : userFeedCount (ensure user s id).db user.id =
      userFeedCount s.db user.id + if isMember s.db feedId user.id then 0 else 1 := by
  have hstep : ensure user s id =
      s.send id (.ensureUserFeedMembership feedId user.id) (fun _ => .finished) := by
    simp only [ensure,hid,huser,if_false]
  rw [hstep]
  have hok : ∃ db, perform s.db (.ensureUserFeedMembership feedId user.id) = .ok db := by
    simp only [perform,ensureUserFeedMembershipAction,hfeed,huser,or_self,if_false]
    split
    · exact ⟨_,rfl⟩
    · exact ⟨_,rfl⟩
  obtain ⟨db,hdb⟩ := hok
  simp only [State.send,hdb]
  exact count_ensureUserFeedMembership hfeed huser hdb

/-- A write without a feed or without a user is refused. -/
theorem db_ensure_of_zero {id feedId : ℕ} (hid : s.phase id = some (.ensuring feedId))
    (h : feedId = 0 ∨ user.id = 0) : (ensure user s id).db = s.db := by
  unfold ensure
  rw [hid]
  dsimp only
  split
  · rfl
  · simp only [State.send,perform,ensureUserFeedMembershipAction,h,if_true]
    rfl

/-- The count of the user is within the allowance. -/
def WithinAllowance (user : User) (s : State) : Prop :=
  (userFeedCount s.db user.id : ℤ) ≤ user.allowance

/-- A step keeps the allowance exactly when its write is still allowed. -/
theorem withinAllowance_step_iff (hrole : user.role ≠ "admin") (hallowance : 0 < user.allowance)
    (hs : WithinAllowance user s) (l : Label) :
    WithinAllowance user (step site user s l) ↔ StillAllowed user s l := by
  unfold WithinAllowance at hs ⊢
  by_cases hensure : ∃ id, l = .ensure id
  · obtain ⟨id,rfl⟩ := hensure
    change (userFeedCount (ensure user s id).db user.id : ℤ) ≤ _ ↔ _
    by_cases hphase : ∃ feedId, s.phase id = some (.ensuring feedId)
    · obtain ⟨feedId,hid⟩ := hphase
      have hallowed : StillAllowed user s (.ensure id) ↔ (feedId ≠ 0 → user.id ≠ 0 →
          limitReached user (userFeedCount s.db user.id) (isMember s.db feedId user.id) =
            false) := by
        simp [StillAllowed,hid]
      rw [hallowed]
      by_cases hzero : feedId = 0 ∨ user.id = 0
      · rw [db_ensure_of_zero hid hzero]
        exact iff_of_true hs (fun hfeed huser => absurd hzero (not_or.mpr ⟨hfeed,huser⟩))
      · obtain ⟨hfeed,huser⟩ := not_or.mp hzero
        rw [userFeedCount_ensure hid hfeed huser]
        simp only [limitReached,hfeed,huser,hrole,hallowance,ne_eq,not_false_eq_true,forall_const,
          decide_true,Bool.true_and]
        cases isMember s.db feedId user.id
        · simp only [Bool.not_false,Bool.and_true,decide_eq_false_iff_not,Bool.false_eq_true,
            if_false]
          omega
        · simpa using hs
    · have hdb : (ensure user s id).db = s.db := by
        unfold ensure
        split
        · rename_i feedId hid
          exact absurd ⟨feedId,hid⟩ hphase
        · rfl
      rw [hdb]
      exact iff_of_true hs (fun feedId hid => absurd ⟨feedId,hid⟩ hphase)
  · have hle : userFeedCount (step site user s l).db user.id ≤ userFeedCount s.db user.id :=
      userFeedCount_step_le (fun id he => hensure ⟨id,he⟩)
    refine iff_of_true (by omega) ?_
    cases l with
    | ensure id => exact absurd ⟨id,rfl⟩ hensure
    | _ => trivial

end

/-- In a run of requests of one user the allowance is kept throughout exactly when every membership
is written while the check of its route would still pass. -/
theorem withinAllowance_iff (site : Site) (user : User) (hrole : user.role ≠ "admin")
    (hallowance : 0 < user.allowance) (db : Database) (hdb : WithinAllowance user (start db))
    (ls : List Label) : (∀ before, before <+: ls →
      WithinAllowance user (run (step site user) (start db) before)) ↔
    AllSteps (step site user) (StillAllowed user) (start db) ls :=
  forall_prefix_iff (I := fun _ => True) (J := WithinAllowance user) (Q := fun _ => True)
    (fun _ _ _ _ => trivial)
    (fun _ l _ _ hs => withinAllowance_step_iff hrole hallowance hs l) trivial hdb
    (fun _ _ => trivial)

/-! Two joins of a user with one place left -/

instance (user : User) (s : State) : Decidable (WithinAllowance user s) :=
  inferInstanceAs (Decidable (_ ≤ _))

def oneFeedUser : User := ⟨1,"user",some 1,none⟩

def anySite : Site := ⟨false,fun _ => true⟩

def twoFeeds : Database :=
  { Database.empty with feeds := ⟨⟨[⟨1,"A","a"⟩,⟨2,"B","b"⟩],by decide⟩,by decide⟩ }

/-- Two joins of which the one that counts late is refused. -/
def oneAfterTheOther : List Label :=
  [.join 1,.join 2,.lookUp 1,.lookUp 2,.readMembership 1,.readMembership 2,.readCount 1,.ensure 1,
    .readCount 2,.ensure 2]

theorem withinAllowance_oneAfterTheOther : WithinAllowance oneFeedUser
    (run (step anySite oneFeedUser) (start twoFeeds) oneAfterTheOther) := by
  refine (withinAllowance_iff anySite oneFeedUser (by decide) (by decide) twoFeeds (by decide)
    oneAfterTheOther).mpr ⟨trivial,trivial,trivial,trivial,trivial,trivial,trivial,?_,trivial,?_,trivial⟩
    _ (List.prefix_refl _)
  · intro feedId hid _ _
    have hphase : (run (step anySite oneFeedUser) (start twoFeeds)
        (oneAfterTheOther.take 7)).phase 1 = some (.ensuring 1) := by decide
    obtain rfl : 1 = feedId := Phase.ensuring.inj (Option.some.inj (hphase.symm.trans hid))
    decide
  · intro feedId hid
    have hphase : (run (step anySite oneFeedUser) (start twoFeeds)
        (oneAfterTheOther.take 9)).phase 2 = some .finished := by decide
    cases hphase.symm.trans hid

/-- Two joins that both count before either writes. -/
theorem not_withinAllowance_joinTwice : ¬ (∀ site user, user.role ≠ "admin" → 0 < user.allowance →
    ∀ db, WithinAllowance user (start db) → ∀ ls,
      WithinAllowance user (run (step site user) (start db) ls)) := by
  intro h
  have hrun := h anySite oneFeedUser (by decide) (by decide) twoFeeds (by decide)
    [.join 1,.join 2,.lookUp 1,.lookUp 2,.readMembership 1,.readMembership 2,.readCount 1,
      .readCount 2,.ensure 1,.ensure 2]
  exact absurd hrun (by decide)

end Podly.Episodes.Allowance
