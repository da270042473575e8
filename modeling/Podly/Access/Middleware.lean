import Podly.Access.FeedTokens

/-! The way of a request without a session: the guard in front of every route, the router, and the
handlers that give out feeds and files of posts. -/
namespace Podly.Access
open Strings

/-- `_PUBLIC_PATHS`. -/
def publicPaths : List Text :=
  ["/","/health","/robots.txt","/manifest.json","/favicon.ico","/api/auth/login",
    "/api/auth/status","/api/auth/discord/status","/api/auth/discord/login",
    "/api/auth/discord/callback","/api/landing/status","/api/billing/stripe-webhook"].map
      String.toList

/-- `_PUBLIC_PREFIXES`. -/
def publicPrefixes : List Text :=
  ["/static/","/assets/","/images/","/fonts/","/.well-known/"].map String.toList

/-- `_PUBLIC_EXTENSIONS`. -/
def publicExtensions : List Text :=
  [".js",".css",".map",".png",".jpg",".jpeg",".gif",".svg",".ico",".webp",".txt"].map String.toList

def isPublicRequest (path : Text) : Bool :=
  path ∈ publicPaths || publicPrefixes.any (fun p => p <+: path) ||
    publicExtensions.any (fun e => e <:+ path)

/-- A prefix, and one segment behind it. -/
def oneSegment (pre path : Text) : Bool :=
  match after pre path with
  | none => false
  | some rest => rest ≠ [] && '/' ∉ rest

/-- A prefix, some text on one line, and one of the suffixes; the `$` of a pattern also matches in
front of a final newline. -/
def someText (pre : Text) (sufs : List Text) (path : Text) : Bool :=
  match after pre path with
  | none => false
  | some rest =>
    [rest,(before ['\n'] rest).getD rest].any (fun r => sufs.any (fun suf =>
      match before suf r with
      | none => false
      | some text => text ≠ [] && '\n' ∉ text))

/-- The endpoints under `/api/posts/` that give out something of a post. -/
inductive ApiKind
  | audio
  | chapters
  | download
  | original

def ApiKind.suffix : ApiKind → Text
  | .audio => "/audio".toList
  | .chapters => "/chapters".toList
  | .download => "/download".toList
  | .original => "/download/original".toList

/-- The endpoints under `/post/`. -/
inductive PostKind
  | mp3
  | original
  | chapters

def PostKind.suffix : PostKind → Text
  | .mp3 => mp3Suffix
  | .original => originalSuffix
  | .chapters => chaptersSuffix

/-- `_is_token_protected_endpoint`: the four patterns. -/
def isTokenProtectedEndpoint (path : Text) : Bool :=
  oneSegment feedPrefix path || oneSegment userPrefix path ||
    someText apiPrefix [ApiKind.audio.suffix,ApiKind.download.suffix,ApiKind.original.suffix] path ||
    someText postPrefix [mp3Suffix,originalSuffix,chaptersSuffix] path

/-- The token of a query. -/
structure Query where
  feedToken : Option String
  feedSecret : Option String

section
variable (hash : String → String) (catalog : Catalog) (accounts : Accounts)

/-- `_authenticate_feed_token_from_query`. -/
def authenticateFeedTokenFromQuery (query : Query) (path : Text) :
    Option (FeedAccessToken × User) :=
  match query.feedToken, query.feedSecret with
  | some tokenId, some secret =>
    if tokenId = "" ∨ secret = "" then none
    else authenticateFeedToken catalog accounts hash tokenId secret path
  | _, _ => none

/-- Whether `enforce_authentication` lets a GET request without a session through. -/
def enforceAuthentication (query : Query) (path : Text) : Bool :=
  isPublicRequest path || isTokenProtectedEndpoint path &&
    (authenticateFeedTokenFromQuery hash catalog accounts query path).isSome

end

/-- The endpoint of a GET request, with the variables of its rule. -/
inductive Endpoint
  | feed (feedId : ℤ)
  | api (guid : Text) (kind : ApiKind)
  | post (guid : Text) (kind : PostKind)
  | rssUrl (somethingOrRss : Text)
  | other

/-- A path variable matches slashes, but is not empty and does not begin with one. -/
def PathVariable (text : Text) : Prop := ∃ c cs, text = c::cs ∧ c ≠ '/'

/-- The path is an instance of the rule of the endpoint. -/
def Endpoint.Matches (path : Text) : Endpoint → Prop
  | .feed feedId => ∃ digits, path = feedPrefix ++ digits ∧ digits ≠ [] ∧
      (∀ c ∈ digits, (digitValue c).isSome) ∧ pyInt digits = some feedId
  | .api guid kind => PathVariable guid ∧ path = apiPrefix ++ (guid ++ kind.suffix)
  | .post guid kind => PathVariable guid ∧ path = postPrefix ++ (guid ++ kind.suffix)
  | .rssUrl text => PathVariable text ∧ path = '/'::text
  | .other => True

/-- The router of the framework. Of the two rules that match `/post/<guid>/original.mp3` it takes
the one with more fixed text. -/
structure Router where
  route : Text → Endpoint
  route_matches : ∀ path, (route path).Matches path
  route_original : ∀ path guid, PathVariable guid →
    route path ≠ .post (guid ++ "/original".toList) .mp3

section
variable (catalog : Catalog)

/-- `ensure_whitelisted_for_download` lets the request go on. -/
def mayDownload (post : Post) : Bool := post.whitelisted || catalog.autoprocessOnDownload

def fileThere (path : Option String) : Bool :=
  match path with
  | none => false
  | some path => path ≠ "" && catalog.pathExists path

/-- The handlers under `/api/posts/` give out a file or the chapters of the post. -/
def apiServes (post : Post) : ApiKind → Bool
  | .audio | .chapters | .download =>
    mayDownload catalog post && fileThere catalog post.processedAudioPath
  | .original => post.whitelisted && fileThere catalog post.unprocessedAudioPath

/-- The handlers under `/post/`: two of them call those above. -/
def postServes (post : Post) : PostKind → Bool
  | .mp3 => apiServes catalog post .audio
  | .original => apiServes catalog post .original
  | .chapters => mayDownload catalog post

/-- The feed whose document, or a file of one of whose posts, a handler gives out. -/
def servedFeed : Endpoint → Option ℤ
  | .feed feedId => (catalog.feeds.find? (fun feed => feed.id = feedId)).map Feed.id
  | .api guid kind => ((findPost catalog guid).filter (apiServes catalog · kind)).map Post.feedId
  | .post guid kind => ((findPost catalog guid).filter (postServes catalog · kind)).map Post.feedId
  | .rssUrl text =>
    if catalog.isStatic text then none
    else (catalog.feeds.find? (fun feed => feed.rssUrl = text)).map Feed.id
  | .other => none

end

/-- The query carries an unrevoked token with the right secret, of a user who is an admin or a
member of the feed, or the feed is the first one, and the scope of the token allows the feed. -/
def Entitled (hash : String → String) (accounts : Accounts) (query : Query) (feedId : ℤ) : Prop :=
  ∃ token ∈ accounts.tokens, ∃ user ∈ accounts.users,
    query.feedToken = some token.tokenId ∧ token.revoked = false ∧
    (∃ secret, query.feedSecret = some secret ∧ token.tokenHash = hash secret) ∧
    token.userId = user.id ∧
    (user.role = "admin" ∨ ⟨user.id,feedId⟩ ∈ accounts.memberships ∨ feedId = 1) ∧
    ∀ scope ∈ token.feedId, scope = feedId

/-- Whatever a request is given belongs to a feed that its token is entitled to. -/
def NoForeignAccess (router : Router) (hash : String → String) (catalog : Catalog)
    (accounts : Accounts) (query : Query) (path : Text) : Prop :=
  enforceAuthentication hash catalog accounts query path = true →
    ∀ feedId ∈ servedFeed catalog (router.route path), Entitled hash accounts query feedId

/-- The token check has read a feed from the path: the one that is served, or none where that is
the first feed. -/
def Reads (read : Option ℤ) (feedId : ℤ) : Prop := read = some feedId ∨ read = none ∧ feedId = 1

/-- Under `/api/posts/` the first segment of the guid is the guid of a post of the same feed. The
route for RSS URLs is not public, and the check reads its feed from the path. -/
def ReadsAlike (router : Router) (catalog : Catalog) (path : Text) : Prop :=
  match router.route path with
  | .api guid kind => ∀ feedId ∈ servedFeed catalog (.api guid kind),
      isTokenProtectedEndpoint path = true → Reads (feedOfPost catalog (firstPart '/' guid)) feedId
  | .rssUrl text => ∀ feedId ∈ servedFeed catalog (.rssUrl text),
      isPublicRequest path = false ∧
        (isTokenProtectedEndpoint path = true → Reads (resolveFeedId catalog path) feedId)
  | _ => True

section
variable {path : Text}

/-- A path with this beginning and this end is not public. -/
theorem not_public {pre suf : Text} (hpre : pre <+: path) (hsuf : suf <:+ path)
    (hpaths : ∀ p ∈ publicPaths, ¬pre <+: p)
    (hprefixes : ∀ p ∈ publicPrefixes, ¬pre <+: p ∧ ¬p <+: pre)
    (hextensions : ∀ e ∈ publicExtensions, ¬suf <:+ e ∧ ¬e <:+ suf) :
    isPublicRequest path = false := by
  have hpath : path ∉ publicPaths := fun hmem => hpaths path hmem hpre
  have hpublic : publicPrefixes.any (fun p => p <+: path) = false := by
    rw [List.any_eq_false]
    intro p hp
    rw [decide_eq_true_eq]
    exact not_prefix_of_append hpre (hprefixes p hp).1 (hprefixes p hp).2
  have hextension : publicExtensions.any (fun e => e <:+ path) = false := by
    rw [List.any_eq_false]
    intro e he
    rw [decide_eq_true_eq]
    exact not_suffix_of_append hsuf (hextensions e he).1 (hextensions e he).2
  rw [isPublicRequest,hpublic,hextension,decide_eq_false hpath]
  rfl

theorem not_public_api {guid : Text} {kind : ApiKind}
    (h : path = apiPrefix ++ (guid ++ kind.suffix)) : isPublicRequest path = false := by
  subst h
  have hsuf : kind.suffix <:+ apiPrefix ++ (guid ++ kind.suffix) :=
    (List.suffix_append guid _).trans (List.suffix_append _ _)
  apply not_public (List.prefix_append apiPrefix _) hsuf
  · decide
  · decide
  · cases kind <;> decide

theorem not_public_post {guid : Text} {kind : PostKind}
    (h : path = postPrefix ++ (guid ++ kind.suffix)) : isPublicRequest path = false := by
  subst h
  have hsuf : kind.suffix <:+ postPrefix ++ (guid ++ kind.suffix) :=
    (List.suffix_append guid _).trans (List.suffix_append _ _)
  apply not_public (List.prefix_append postPrefix _) hsuf
  · decide
  · decide
  · cases kind <;> decide

theorem digit_ne_slash {digits : Text} (h : ∀ c ∈ digits, (digitValue c).isSome) :
    '/' ∉ digits := by
  intro hmem
  exact absurd (h '/' hmem) (by decide)

theorem not_public_feed {digits : Text} (hne : digits ≠ [])
    (hdigits : ∀ c ∈ digits, (digitValue c).isSome) (h : path = feedPrefix ++ digits) :
    isPublicRequest path = false := by
  subst h
  have hlast : [digits.getLast hne] <:+ feedPrefix ++ digits := by
    refine (?_ : [digits.getLast hne] <:+ digits).trans (List.suffix_append _ _)
    exact ⟨digits.dropLast,List.dropLast_append_getLast hne⟩
  apply not_public (List.prefix_append feedPrefix _) hlast
  · decide
  · decide
  · have hends : ∀ e ∈ publicExtensions, 2 ≤ e.length ∧ e.getLast?.bind digitValue = none := by
      decide
    intro e he
    obtain ⟨hlength,hend⟩ := hends e he
    constructor
    · rintro ⟨front,rfl⟩
      have hnone : digitValue (digits.getLast hne) = none := by simpa using hend
      have hsome := hdigits _ (List.getLast_mem hne)
      rw [hnone] at hsome
      exact absurd hsome (by decide)
    · intro hsuf
      have hle := hsuf.length_le
      rw [List.length_singleton] at hle
      omega

end

theorem firstPart_of_not_mem {c : Char} {text : Text} (h : c ∉ text) : firstPart c text = text := by
  unfold firstPart
  induction text with
  | nil => rfl
  | cons d text ih =>
    rw [List.mem_cons,not_or] at h
    rw [List.takeWhile_cons,if_pos (decide_eq_true (Ne.symm h.1)),ih h.2]

theorem firstPart_append (c : Char) (text rest : Text) :
    firstPart c (text ++ c::rest) = firstPart c text := by
  unfold firstPart
  induction text with
  | nil => simp
  | cons d text ih =>
    rw [List.cons_append,List.takeWhile_cons,List.takeWhile_cons,ih]

section
variable {catalog : Catalog} {path : Text}

theorem resolveFeedId_feed (rest : Text) :
    resolveFeedId catalog (feedPrefix ++ rest) = pyInt (firstPart '/' rest) := by
  rw [resolveFeedId,after_append]

theorem resolveFeedId_api (rest : Text) :
    resolveFeedId catalog (apiPrefix ++ rest) = feedOfPost catalog (firstPart '/' rest) := by
  have hfeed : after feedPrefix (apiPrefix ++ rest) = none :=
    after_eq_none.mpr (not_prefix_of_append (List.prefix_append _ _) (by decide)
      (by decide))
  rw [resolveFeedId,hfeed,after_append]

theorem resolveFeedId_post (rest : Text) :
    resolveFeedId catalog (postPrefix ++ rest) = feedOfPost catalog (guidOfPostPath rest) := by
  have hfeed : after feedPrefix (postPrefix ++ rest) = none :=
    after_eq_none.mpr (not_prefix_of_append (List.prefix_append _ _) (by decide)
      (by decide))
  have hapi : after apiPrefix (postPrefix ++ rest) = none :=
    after_eq_none.mpr (not_prefix_of_append (List.prefix_append _ _) (by decide)
      (by decide))
  rw [resolveFeedId,hfeed,hapi,after_append]

/-- The path of an aggregate feed is no path of a feed. -/
theorem resolveFeedId_user {userId : ℤ} (h : resolveUserIdFromFeedPath path = some userId) :
    resolveFeedId catalog path = none := by
  obtain ⟨rest,hrest,-⟩ := Option.bind_eq_some_iff.mp h
  have hpublic : userPrefix = feedPrefix ++ ("user".toList ++ ['/']) := by decide
  have hpath : path = feedPrefix ++ ("user".toList ++ '/'::rest) := by
    rw [after_eq_some.mp hrest,hpublic]
    simp only [List.append_assoc,List.singleton_append]
  rw [hpath,resolveFeedId_feed,firstPart_append]
  decide

theorem guidOfPostPath_suffix {guid : Text} {kind : PostKind}
    (h : ¬"/original".toList <:+ guid ∨ kind ≠ .mp3) :
    guidOfPostPath (guid ++ kind.suffix) = guid := by
  have hother : ∀ suf suf' : Text, ¬suf <:+ suf' → ¬suf' <:+ suf →
      before suf' (guid ++ suf) = none := fun suf suf' hne hne' =>
    before_eq_none.mpr (not_suffix_of_append (List.suffix_append guid suf) hne hne')
  cases kind with
  | original => rw [guidOfPostPath,PostKind.suffix,before_append]
  | chapters =>
    rw [guidOfPostPath,PostKind.suffix,hother _ originalSuffix (by decide)
      (by decide),before_append]
  | mp3 =>
    have horiginal : before originalSuffix (guid ++ mp3Suffix) = none := by
      have hparts : originalSuffix = "/original".toList ++ mp3Suffix := by decide
      rw [before_eq_none,hparts,append_suffix_append_iff]
      exact h.resolve_right (fun hne => hne rfl)
    rw [guidOfPostPath,PostKind.suffix,horiginal,hother _ chaptersSuffix (by decide)
      (by decide),before_append]

end

section
variable {hash : String → String} {catalog : Catalog} {accounts : Accounts} {query : Query}
  {path : Text} {feedId : ℤ}

theorem verifySubscription_iff {user : User} :
    verifySubscription accounts user feedId = true ↔
      user.role = "admin" ∨ ⟨user.id,feedId⟩ ∈ accounts.memberships ∨ feedId = 1 := by
  simp only [verifySubscription,Bool.or_eq_true,decide_eq_true_eq]
  tauto

/-- What a token that passes has shown. -/
theorem authenticate_eq_some {token : FeedAccessToken} {user : User}
    (h : authenticateFeedTokenFromQuery hash catalog accounts query path = some (token,user)) :
    token ∈ accounts.tokens ∧ user ∈ accounts.users ∧ query.feedToken = some token.tokenId ∧
      token.revoked = false ∧ (∃ secret, query.feedSecret = some secret ∧
        token.tokenHash = hash secret) ∧ token.userId = user.id ∧
      validateTokenAccess catalog accounts token user path = true := by
  obtain ⟨feedToken,feedSecret⟩ := query
  cases feedToken with
  | none => cases h
  | some tokenId =>
    cases feedSecret with
    | none => cases h
    | some secret =>
      simp only [authenticateFeedTokenFromQuery] at h
      split at h
      · cases h
      · unfold authenticateFeedToken at h
        split at h
        · cases h
        · rename_i row hrow
          split at h
          · cases h
          · rename_i hhash
            split at h
            · cases h
            · rename_i account haccount
              split at h
              · rename_i hvalid
                cases h
                have htoken := List.find?_some hrow
                have huser := List.find?_some haccount
                simp only [Bool.and_eq_true,decide_eq_true_eq,Bool.not_eq_true'] at htoken huser
                exact ⟨List.mem_of_find?_eq_some hrow,List.mem_of_find?_eq_some haccount,
                  congrArg some htoken.1.symm,htoken.2,⟨secret,rfl,not_not.mp hhash⟩,huser.symm,
                  hvalid⟩
              · cases h

/-- A token that passes for the path is entitled to the feed that the check reads from it. -/
theorem entitled_of_reads (hpublic : isPublicRequest path = false)
    (hreads : isTokenProtectedEndpoint path = true → Reads (resolveFeedId catalog path) feedId)
    (h : enforceAuthentication hash catalog accounts query path = true) :
    Entitled hash accounts query feedId := by
  rw [enforceAuthentication,hpublic,Bool.false_or,Bool.and_eq_true] at h
  obtain ⟨hprotected,hsome⟩ := h
  obtain ⟨⟨token,user⟩,hauth⟩ := Option.isSome_iff_exists.mp hsome
  obtain ⟨htoken,huser,hid,hrevoked,hsecret,howner,hvalid⟩ := authenticate_eq_some hauth
  refine ⟨token,htoken,user,huser,hid,hrevoked,hsecret,howner,?_⟩
  have hreads := hreads hprotected
  unfold validateTokenAccess at hvalid
  cases hscope : token.feedId with
  | some scope =>
    rw [hscope] at hvalid
    rcases hreads with hread | ⟨hread,-⟩
    · simp only [hread,Bool.and_eq_true,decide_eq_true_eq] at hvalid
      obtain ⟨rfl,hsubscribed⟩ := hvalid
      refine ⟨verifySubscription_iff.mp hsubscribed,?_⟩
      rintro other hother
      exact (Option.some.inj hother).symm
    · simp [hread] at hvalid
  | none =>
    refine ⟨?_,fun _ hnone => (Option.not_mem_none _ hnone).elim⟩
    rw [hscope] at hvalid
    rcases hreads with hread | ⟨-,hfirst⟩
    · have huserPath : resolveUserIdFromFeedPath path = none := by
        cases hrequested : resolveUserIdFromFeedPath path with
        | none => rfl
        | some userId =>
          rw [resolveFeedId_user hrequested] at hread
          cases hread
      simp only [huserPath,hread] at hvalid
      exact verifySubscription_iff.mp hvalid
    · exact .inr (.inr hfirst)

end

/-- One user, who is no admin, with one token. -/
def oneAccount (hash : String → String) (userId : ℤ) (scope : Option ℤ)
    (memberships : List UserFeed) : Accounts :=
  ⟨[⟨userId,"user"⟩],memberships,[⟨"token",hash "secret",scope,userId,false⟩]⟩

def tokenQuery : Query := ⟨some "token",some "secret"⟩

section
variable {hash : String → String} {catalog : Catalog} {path : Text} {feedId userId : ℤ}
  {scope : Option ℤ} {memberships : List UserFeed}

theorem enforceAuthentication_oneAccount (hprotected : isTokenProtectedEndpoint path = true)
    (hvalid : validateTokenAccess catalog (oneAccount hash userId scope memberships)
      ⟨"token",hash "secret",scope,userId,false⟩ ⟨userId,"user"⟩ path = true) :
    enforceAuthentication hash catalog (oneAccount hash userId scope memberships) tokenQuery path =
      true := by
  have hauth : authenticateFeedTokenFromQuery hash catalog
      (oneAccount hash userId scope memberships) tokenQuery path =
        some (⟨"token",hash "secret",scope,userId,false⟩,⟨userId,"user"⟩) := by
    simp only [authenticateFeedTokenFromQuery,tokenQuery,authenticateFeedToken,oneAccount] at hvalid ⊢
    simp [hvalid]
  rw [enforceAuthentication,hprotected,hauth]
  simp

theorem entitled_oneAccount
    (h : Entitled hash (oneAccount hash userId scope memberships) tokenQuery feedId) :
    (⟨userId,feedId⟩ ∈ memberships ∨ feedId = 1) ∧ ∀ s ∈ scope, s = feedId := by
  obtain ⟨token,htoken,user,huser,-,-,-,-,haccess,hscope⟩ := h
  rw [oneAccount,List.mem_singleton] at htoken huser
  subst htoken huser
  exact ⟨haccess.resolve_left (by simp),hscope⟩

/-- Where every token that passes is entitled to a feed, the check reads that feed. -/
theorem reads_of_entitled
    (h : ∀ accounts query, enforceAuthentication hash catalog accounts query path = true →
      Entitled hash accounts query feedId) :
    isPublicRequest path = false ∧
      (isTokenProtectedEndpoint path = true → Reads (resolveFeedId catalog path) feedId) := by
  constructor
  · by_contra hpublic
    rw [Bool.not_eq_false] at hpublic
    obtain ⟨token,htoken,-⟩ := h ⟨[],[],[]⟩ ⟨none,none⟩ (by rw [enforceAuthentication,hpublic]; rfl)
    cases htoken
  · intro hprotected
    cases hread : resolveFeedId catalog path with
    | none =>
      -- an aggregate token passes without a subscription
      refine .inr ⟨rfl,?_⟩
      have hpasses := h (oneAccount hash ((resolveUserIdFromFeedPath path).getD 0) none []) tokenQuery
        (enforceAuthentication_oneAccount hprotected (by
          cases hrequested : resolveUserIdFromFeedPath path <;>
            simp [validateTokenAccess,hrequested,hread]))
      exact (entitled_oneAccount hpasses).1.resolve_left List.not_mem_nil
    | some other =>
      -- a token for the feed that is read passes
      have hpasses := h (oneAccount hash 0 (some other) [⟨0,other⟩]) tokenQuery
        (enforceAuthentication_oneAccount hprotected (by
          simp [validateTokenAccess,hread,verifySubscription,oneAccount]))
      exact .inl (congrArg some ((entitled_oneAccount hpasses).2 other rfl))

end

theorem not_original_of_route {router : Router} {path guid : Text} {kind : PostKind}
    (hroute : router.route path = .post guid kind) (hguid : PathVariable guid) :
    ¬"/original".toList <:+ guid ∨ kind ≠ .mp3 := by
  by_cases hkind : kind = .mp3
  · subst hkind
    left
    rintro ⟨front,rfl⟩
    obtain ⟨c,cs,hcons,hc⟩ := hguid
    cases front with
    | nil =>
      have hslash : "/original".toList = '/'::"original".toList := by decide
      rw [List.nil_append,hslash] at hcons
      exact hc (List.cons.inj hcons).1.symm
    | cons d front =>
      refine router.route_original path (d::front) ⟨d,front,rfl,?_⟩ hroute
      rw [(List.cons.inj hcons).1]
      exact hc
  · exact .inr hkind

/-- The check reads the feeds of these paths as the router does. -/
theorem resolveFeedId_route {router : Router} {catalog : Catalog} {path : Text} {feedId : ℤ}
    (hplain : (∃ f, router.route path = .feed f) ∨ ∃ guid kind, router.route path = .post guid kind)
    (hserved : feedId ∈ servedFeed catalog (router.route path)) :
    isPublicRequest path = false ∧ resolveFeedId catalog path = some feedId := by
  have hmatches := router.route_matches path
  rcases hplain with ⟨f,hroute⟩ | ⟨guid,kind,hroute⟩
  · rw [hroute] at hmatches hserved
    obtain ⟨digits,rfl,hne,hdigits,hint⟩ := hmatches
    refine ⟨not_public_feed hne hdigits rfl,?_⟩
    obtain ⟨feed,hfeed,rfl⟩ := Option.map_eq_some_iff.mp hserved
    have hid : feed.id = f := by simpa using List.find?_some hfeed
    rw [resolveFeedId_feed,firstPart_of_not_mem (digit_ne_slash hdigits),hint,hid]
  · rw [hroute] at hmatches hserved
    obtain ⟨hguid,rfl⟩ := hmatches
    have hnotOriginal := not_original_of_route hroute hguid
    refine ⟨not_public_post rfl,?_⟩
    obtain ⟨post,hpost,rfl⟩ := Option.map_eq_some_iff.mp hserved
    rw [resolveFeedId_post,guidOfPostPath_suffix hnotOriginal,feedOfPost,
      (Option.filter_eq_some_iff.mp hpost).1,Option.map_some]

/-- No token, whoever holds it, opens a foreign feed through a path exactly when the check reads the
path as the handler does. -/
theorem noForeignAccess_iff (router : Router) (hash : String → String) (catalog : Catalog)
    (path : Text) :
    (∀ accounts query, NoForeignAccess router hash catalog accounts query path) ↔
      ReadsAlike router catalog path := by
  have hfeed : (∀ accounts query, NoForeignAccess router hash catalog accounts query path) ↔
      ∀ feedId ∈ servedFeed catalog (router.route path), isPublicRequest path = false ∧
        (isTokenProtectedEndpoint path = true → Reads (resolveFeedId catalog path) feedId) := by
    constructor
    · intro h feedId hserved
      exact reads_of_entitled (fun accounts query henforce =>
        h accounts query henforce feedId hserved)
    · intro h accounts query henforce feedId hserved
      obtain ⟨hpublic,hreads⟩ := h feedId hserved
      exact entitled_of_reads hpublic hreads henforce
  rw [hfeed,ReadsAlike]
  have hmatches := router.route_matches path
  cases hroute : router.route path with
  | feed f =>
    refine iff_of_true (fun feedId hserved => ?_) trivial
    obtain ⟨hpublic,hread⟩ := resolveFeedId_route (.inl ⟨f,hroute⟩) (hroute ▸ hserved)
    exact ⟨hpublic,fun _ => .inl hread⟩
  | post guid kind =>
    refine iff_of_true (fun feedId hserved => ?_) trivial
    obtain ⟨hpublic,hread⟩ := resolveFeedId_route (.inr ⟨guid,kind,hroute⟩) (hroute ▸ hserved)
    exact ⟨hpublic,fun _ => .inl hread⟩
  | api guid kind =>
    rw [hroute] at hmatches
    have hfirst : ∃ rest, kind.suffix = '/'::rest := by cases kind <;> exact ⟨_,rfl⟩
    obtain ⟨rest,hrest⟩ := hfirst
    have hread : resolveFeedId catalog path = feedOfPost catalog (firstPart '/' guid) := by
      rw [hmatches.2,resolveFeedId_api,hrest,firstPart_append]
    rw [hread,not_public_api hmatches.2]
    simp only [true_and]
  | rssUrl text => rfl
  | other => exact iff_of_true (fun _ hnone => (Option.not_mem_none _ hnone).elim) trivial

/-- A guid without a slash is read as the router reads it. -/
theorem readsAlike_of_plain_guid {router : Router} {catalog : Catalog} {path guid : Text}
    {kind : ApiKind} (hroute : router.route path = .api guid kind) (hplain : '/' ∉ guid) :
    ReadsAlike router catalog path := by
  rw [ReadsAlike,hroute]
  intro feedId hserved _
  obtain ⟨post,hpost,rfl⟩ := Option.map_eq_some_iff.mp hserved
  rw [firstPart_of_not_mem hplain,feedOfPost,(Option.filter_eq_some_iff.mp hpost).1]
  exact .inl rfl

/-- A router that knows the audio of one guid. -/
def audioRouter (known : Text) (hknown : PathVariable known) : Router where
  route path := if path = apiPrefix ++ (known ++ ApiKind.audio.suffix) then .api known .audio
    else .other
  route_matches path := by
    split
    · rename_i hpath
      exact ⟨hknown,hpath⟩
    · trivial
  route_original path guid _ h := by
    split at h <;> cases h

/-- A guid that has a slash. -/
def slashedGuid : Text := "season/episode".toList

theorem slashedGuid_pathVariable : PathVariable slashedGuid := ⟨'s',_,rfl,by decide⟩

/-- Feed 2 has one episode, with this guid. -/
def slashedCatalog : Catalog :=
  ⟨[⟨2,"https://example.com/rss".toList⟩],
    [⟨2,slashedGuid,true,none,some "srv/Show/Ep 1.mp3"⟩],fun _ => true,fun _ => false,true⟩

/-- SHA-256 of the one secret that is hashed. -/
def secretDigest (_ : String) : String :=
  "2bb80d537b1da3e38bd30361aa855686bde0eacd7162fef6a25fe97bf527a25b"

/-- The aggregate token of a user without subscriptions opens the episode: the check looks for the
guid `season`, finds no post, and lets the token pass. -/
theorem noForeignAccess_fails_slashedGuid :
    ¬NoForeignAccess (audioRouter slashedGuid slashedGuid_pathVariable) secretDigest
      slashedCatalog (oneAccount secretDigest 7 none []) tokenQuery
      "/api/posts/season/episode/audio".toList := by
  intro h
  have hserved : (2 : ℤ) ∈ servedFeed slashedCatalog
      ((audioRouter slashedGuid slashedGuid_pathVariable).route
        "/api/posts/season/episode/audio".toList) := by decide
  have hpasses := h (by decide) 2 hserved
  exact absurd (entitled_oneAccount hpasses).1 (by decide)

end Podly.Access
