import Podly.Strings.Affixes
import Podly.Writer.ProcessedPaths

/-! Feed tokens: which token a request presents, and to what it gives access by the path alone. -/
namespace Podly.Access
open Strings Writer

/-- A decoded path or a part of it, by its characters. -/
abbrev Text := List Char

structure User where
  id : ℤ
  role : String

/-- A row of `feed_access_token`; without a feed it is an aggregate token. -/
structure FeedAccessToken where
  tokenId : String
  tokenHash : String
  feedId : Option ℤ
  userId : ℤ
  revoked : Bool

structure UserFeed where
  userId : ℤ
  feedId : ℤ
deriving DecidableEq

structure Accounts where
  users : List User
  memberships : List UserFeed
  tokens : List FeedAccessToken

structure Feed where
  id : ℤ
  rssUrl : Text

/-- A row of `post`: what the handlers read of it. A guid is unique in its feed only. -/
structure Post where
  feedId : ℤ
  guid : Text
  whitelisted : Bool
  unprocessedAudioPath : Option String
  processedAudioPath : Option String

structure Catalog where
  feeds : List Feed
  posts : List Post
  pathExists : String → Bool
  /-- whether a path names a file of the static folder -/
  isStatic : Text → Bool
  autoprocessOnDownload : Bool

/-- The code points of the decimal zeros; the other digits follow each of them. -/
def zeros : List ℕ :=
  [0x30,0x660,0x6f0,0x7c0,0x966,0x9e6,0xa66,0xae6,0xb66,0xbe6,0xc66,0xce6,0xd66,0xde6,0xe50,0xed0,
    0xf20,0x1040,0x1090,0x17e0,0x1810,0x1946,0x19d0,0x1a80,0x1a90,0x1b50,0x1bb0,0x1c40,0x1c50,
    0xa620,0xa8d0,0xa900,0xa9d0,0xa9f0,0xaa50,0xabf0,0xff10,0x104a0,0x10d30,0x10d40,0x11066,
    0x110f0,0x11136,0x111d0,0x112f0,0x11450,0x114d0,0x11650,0x116c0,0x116d0,0x116da,0x11730,
    0x118e0,0x11950,0x11bf0,0x11c50,0x11d50,0x11da0,0x11f50,0x16130,0x16a60,0x16ac0,0x16b50,
    0x16d70,0x1ccf0,0x1d7ce,0x1d7d8,0x1d7e2,0x1d7ec,0x1d7f6,0x1e140,0x1e2f0,0x1e4f0,0x1e5f1,
    0x1e950,0x1fbf0]

def digitValue (c : Char) : Option ℕ :=
  (zeros.find? (fun first => first ≤ c.toNat && c.toNat < first + 10)).map
    (fun first => c.toNat - first)

/-- The digits behind a first one; a single underscore may stand between two digits. -/
def digitsFrom (value : ℕ) : Text → Option ℕ
  | [] => some value
  | '_'::c::cs => (digitValue c).bind (fun d => digitsFrom (value * 10 + d) cs)
  | c::cs => (digitValue c).bind (fun d => digitsFrom (value * 10 + d) cs)

def parseDigits : Text → Option ℕ
  | [] => none
  | c::cs => (digitValue c).bind (fun d => digitsFrom d cs)

/-- `int(text)`; `none` is its `ValueError`. -/
def pyInt (text : Text) : Option ℤ :=
  match strip text with
  | '-'::cs => (parseDigits cs).map (fun n => -(n : ℤ))
  | '+'::cs => (parseDigits cs).map Nat.cast
  | cs => (parseDigits cs).map Nat.cast

/-- `text.split(separator, 1)[0]`. -/
def firstPart (separator : Char) (text : Text) : Text := text.takeWhile (· ≠ separator)

section
variable (catalog : Catalog) (accounts : Accounts)

/-- `Post.query.filter_by(guid=guid).first()`. -/
def findPost (guid : Text) : Option Post := catalog.posts.find? (fun post => post.guid = guid)

def feedOfPost (guid : Text) : Option ℤ := (findPost catalog guid).map Post.feedId

def feedPrefix : Text := "/feed/".toList
def userPrefix : Text := "/feed/user/".toList
def apiPrefix : Text := "/api/posts/".toList
def postPrefix : Text := "/post/".toList
def mp3Suffix : Text := ".mp3".toList
def originalSuffix : Text := "/original.mp3".toList
def chaptersSuffix : Text := "/chapters.json".toList

/-- `_resolve_user_id_from_feed_path`. -/
def resolveUserIdFromFeedPath (path : Text) : Option ℤ :=
  (after userPrefix path).bind (fun rest => pyInt (firstPart '/' rest))

/-- The guid of a path behind `/post/`. -/
def guidOfPostPath (rest : Text) : Text :=
  match before originalSuffix rest, before chaptersSuffix rest, before mp3Suffix rest with
  | some guid, _, _ => guid
  | none, some guid, _ => guid
  | none, none, some guid => guid
  | none, none, none => firstPart '.' (firstPart '/' rest)

/-- `_resolve_feed_id`. Under `/api/posts/` the guid is `path.split("/")[3]`. -/
def resolveFeedId (path : Text) : Option ℤ :=
  match after feedPrefix path, after apiPrefix path, after postPrefix path with
  | some rest, _, _ => pyInt (firstPart '/' rest)
  | none, some rest, _ => feedOfPost catalog (firstPart '/' rest)
  | none, none, some rest => feedOfPost catalog (guidOfPostPath rest)
  | none, none, none => none

/-- `_verify_subscription`. -/
def verifySubscription (user : User) (feedId : ℤ) : Bool :=
  user.role = "admin" || feedId = 1 || ⟨user.id,feedId⟩ ∈ accounts.memberships

/-- `_validate_token_access`. -/
def validateTokenAccess (token : FeedAccessToken) (user : User) (path : Text) : Bool :=
  match token.feedId with
  | none =>
    match resolveUserIdFromFeedPath path, resolveFeedId catalog path with
    | some requestedUserId, _ => requestedUserId = user.id
    | none, some feedId => verifySubscription accounts user feedId
    | none, none => true
  | some scope =>
    match resolveFeedId catalog path with
    | none => false
    | some feedId => feedId = scope && verifySubscription accounts user scope

/-- `authenticate_feed_token`; `hash` is the hex digest of SHA-256. -/
def authenticateFeedToken (hash : String → String) (tokenId secret : String) (path : Text) :
    Option (FeedAccessToken × User) :=
  match accounts.tokens.find? (fun token => token.tokenId = tokenId && !token.revoked) with
  | none => none
  | some token =>
    if token.tokenHash ≠ hash secret then none
    else match accounts.users.find? (fun user => user.id = token.userId) with
      | none => none
      | some user =>
        if validateTokenAccess catalog accounts token user path then some (token,user) else none

end

end Podly.Access
