import Podly.AdBlocks.AudioWindows
import Podly.Strings.Order

/-! The plan of a feed refresh, as the application and as the sidecar make it from the posts of the
feed and the entries of its document. -/
namespace Podly.Refresh
open AdBlocks Strings

/-- A release date in UTC: the day and the time of day, each written with a fixed number of
digits, so that the order of the texts is that of the times. -/
structure ReleaseDate where
  date : String
  clock : String
  date_length : date.length = 10
deriving DecidableEq

/-- The column as SQLite holds it. -/
def ReleaseDate.column (released : ReleaseDate) : List Char :=
  released.date.toList ++ ' '::released.clock.toList

/-- A row of `post` of one feed. -/
structure Post where
  id : ℕ
  guid : String
  downloadUrl : String
  title : String
  description : Option String
  imageUrl : Option String
  processedAudioPath : Option String
  duration : Option ℤ
  releaseDate : Option ReleaseDate
  whitelisted : Bool

structure Feed where
  id : ℕ
  imageUrl : Option String

/-- An entry of a parsed document, with the image of its own. The parsers leave no white space around
a title. -/
structure Entry where
  guid : String
  title : String
  title_strip : strip title = title
  description : String
  audioUrl : String
  releaseDate : Option ReleaseDate
  duration : Option ℤ
  imageUrl : Option String

structure NewPost where
  guid : String
  title : String
  description : String
  downloadUrl : String
  releaseDate : Option ReleaseDate
  duration : Option ℤ
  imageUrl : Option String
  whitelisted : Bool
  feedId : ℕ
deriving DecidableEq

/-- The columns that an update writes. -/
structure PostUpdate where
  postId : ℕ
  guid : Option String
  title : Option String
  description : Option String
  imageUrl : Option (Option String)
  duration : Option ℤ
deriving DecidableEq

/-- An update that would write nothing. -/
def PostUpdate.isEmpty (u : PostUpdate) : Bool :=
  u.guid.isNone && u.title.isNone && u.description.isNone && u.imageUrl.isNone && u.duration.isNone

/-- `updates` holds a new image of the feed or nothing. -/
structure Plan where
  updates : Option String
  newPosts : List NewPost
  existingPostUpdates : List PostUpdate
deriving DecidableEq

/-- What a document is parsed into. -/
structure Document where
  channelImage : Option String
  entries : List Entry

section
variable (feed : Feed) (posts : List Post)

/-- The image of the channel, if it is not the one of the feed. -/
def imageUpdate (channelImage : Option String) : Option String :=
  channelImage.filter (fun image => feed.imageUrl ≠ some image)

/-- The image of an entry, or the one of the feed. -/
def episodeImageUrl (e : Entry) : Option String := e.imageUrl.or feed.imageUrl

/-- A new value, unless it is the stored one. -/
def changed {α : Type*} [DecidableEq α] (stored new : α) : Option α :=
  if stored = new then none else some new

/-- A new value for a column that may be missing. -/
def changedValue {α : Type*} [DecidableEq α] (stored : Option α) (new : α) : Option α :=
  if stored = some new then none else some new

/-- A title that is not empty. -/
def updatedTitle (title : String) : Option String :=
  if title = "" then none else some title

/-- A duration is written to posts that are not processed. -/
def updatedDuration (post : Post) (e : Entry) : Option ℤ :=
  if post.processedAudioPath = none then e.duration else none

/-- An update with the guid, the title and the description it would write. -/
def postUpdate (post : Post) (e : Entry) (repairedGuid title description : Option String) :
    Option PostUpdate :=
  let u : PostUpdate := {
    postId := post.id
    guid := repairedGuid
    title := title.bind (changed post.title)
    description := description
    imageUrl := changed post.imageUrl (episodeImageUrl feed e)
    duration := (updatedDuration post e).bind (changedValue post.duration) }
  if u.isEmpty then none else some u

def newPost (e : Entry) (whitelisted : Bool) : NewPost :=
  ⟨e.guid,e.title,e.description,e.audioUrl,e.releaseDate,e.duration,episodeImageUrl feed e,
    whitelisted,feed.id⟩

/-- The post of an entry by its guid, or by a URL that is looked up, and then the guid it is given. -/
def matchPost (byUrl : Option String) (e : Entry) : Option (Post × Option String) :=
  match posts.find? (fun post => post.guid = e.guid) with
  | some post => some (post,none)
  | none =>
    match byUrl.bind (fun url => posts.find? (fun post => post.downloadUrl = url)) with
    | some post => some (post,if post.guid ≠ e.guid then some e.guid else none)
    | none => none

/-! The planner of the application -/

/-- An empty URL is not looked up. -/
def existingPost (e : Entry) : Option (Post × Option String) :=
  matchPost posts ((some e.audioUrl).filter (fun url => url ≠ "")) e

def existingPostRefreshPayload (post : Post) (e : Entry) (repairedGuid : Option String) :
    Option PostUpdate :=
  postUpdate feed post e repairedGuid (updatedTitle (strip e.title))
    (changedValue post.description e.description)

/-- The release date of `oldest_post`. -/
def oldestPost : Option ReleaseDate :=
  leastBy ReleaseDate.column (posts.filterMap Post.releaseDate)

/-- An entry from a day before the oldest post. -/
def isBackcatalog (e : Entry) : Bool :=
  match oldestPost posts,e.releaseDate with
  | some oldest,some released => textLt released.date.toList oldest.date.toList
  | _,_ => false

def newPostRefreshPayload (autoWhitelist : Bool) (e : Entry) : NewPost :=
  newPost feed e (autoWhitelist && !isBackcatalog posts e)

/-- `_build_refresh_feed_payload`. -/
def buildRefreshFeedPayload (autoWhitelist : Bool) (doc : Document) : Plan where
  updates := imageUpdate feed doc.channelImage
  newPosts := (doc.entries.filter (fun e => (existingPost posts e).isNone)).map
    (newPostRefreshPayload feed posts autoWhitelist)
  existingPostUpdates := doc.entries.filterMap (fun e =>
    (existingPost posts e).bind (fun found => existingPostRefreshPayload feed found.1 e found.2))

/-! The planner of the sidecar -/

/-- `posts_by_guid` and `posts_by_url`. -/
def existing (e : Entry) : Option (Post × Option String) := matchPost posts (some e.audioUrl) e

/-- A description that is missing counts as empty. -/
def existingPostRefreshUpdate (post : Post) (e : Entry) (repairedGuid : Option String) :
    Option PostUpdate :=
  postUpdate feed post e repairedGuid (updatedTitle e.title)
    (changed (post.description.getD "") e.description)

/-- The least of the columns. -/
def oldestReleaseDate : Option (List Char) :=
  leastBy id (posts.filterMap (fun post => post.releaseDate.map ReleaseDate.column))

/-- `release_date_prefix` of the column is the whole of it, for it holds no `T`. -/
def isArchive (e : Entry) : Bool :=
  match oldestReleaseDate posts,e.releaseDate with
  | some oldest,some released => textLt released.date.toList oldest
  | _,_ => false

def newPostValue (autoWhitelist : Bool) (e : Entry) : NewPost :=
  newPost feed e (autoWhitelist && !isArchive posts e)

/-- `plan_feed_refresh`. -/
def planFeedRefresh (autoWhitelist : Bool) (doc : Document) : Plan where
  updates := imageUpdate feed doc.channelImage
  newPosts := (doc.entries.filter (fun e => (existing posts e).isNone)).map
    (newPostValue feed posts autoWhitelist)
  existingPostUpdates := doc.entries.filterMap (fun e =>
    (existing posts e).bind (fun found => existingPostRefreshUpdate feed found.1 e found.2))

end

end Podly.Refresh
