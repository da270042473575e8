import Mathlib.Data.Prod.Lex
import Mathlib.Data.Rat.Floor
import Podly.Writer.PostActions

/-! The feed that a reader gets: `generate_feed_xml`, as the texts of the elements that it writes. -/
namespace Podly.Feeds
open Store Intervals Writer

/-- A row of `feed`: the columns the document shows. -/
structure Feed where
  id : ℤ
  title : String
  description : Option String
  imageUrl : Option String
  lastChangedAt : Time
deriving DecidableEq

/-- An entry of a chapter list. -/
structure Chapter where
  title : String
  startTime : ℚ
deriving DecidableEq

/-- The decoded `chapter_data`. -/
structure ChapterData where
  chaptersForOutput : List Chapter
  chaptersKept : List Chapter
deriving DecidableEq

/-- A row of `post`: what the document shows and what decides whether it is shown. -/
structure Post where
  id : ℤ
  feedId : ℤ
  guid : String
  title : String
  description : Option String
  releaseDate : Option Time
  duration : Option ℚ
  imageUrl : Option String
  whitelisted : Bool
  unprocessedAudioPath : Option String
  processedAudioPath : Option String
  chapterData : Option ChapterData
deriving DecidableEq

/-- The tables the document is made from, the disk, and `autoprocess_on_download`. -/
structure System where
  feeds : Table Feed.id
  posts : Table Post.id
  jobs : JobTable
  run : Option JobsManagerRun
  disk : Disk
  autoprocessOnDownload : Bool

/-- The URLs of one base URL and one token. -/
structure Links where
  feed : ℤ → String
  audio : String → String
  chapters : String → String

/-- `_FEED_TEXT_NORMALIZE_TABLE`, on one character. -/
def normalizeChar (c : Char) : Option Char :=
  if c.toNat = 0xA0 then some ' '
  else if c.toNat ∈ [0x200B,0x200C,0x200D,0x2060,0xFEFF] then none
  else some c

/-- `_normalize_feed_text`. -/
def normalizeFeedText (value : Option String) : String :=
  String.ofList ((value.getD "").toList.filterMap normalizeChar)

/-- `html.escape` on one character. -/
def escapeChar (c : Char) : String :=
  match c with
  | '&' => "&amp;"
  | '<' => "&lt;"
  | '>' => "&gt;"
  | '"' => "&quot;"
  | '\'' => "&#x27;"
  | c => String.singleton c

def twoDigits (n : ℕ) : String := if n < 10 then "0" ++ toString n else toString n

/-- `_format_itunes_duration` and `_format_chapter_timestamp`, on whole seconds. -/
def formatSeconds (totalSeconds : ℕ) : String :=
  let hours := totalSeconds / 3600
  let minutes := totalSeconds % 3600 / 60
  let seconds := totalSeconds % 60
  if hours = 0 then twoDigits minutes ++ ":" ++ twoDigits seconds
  else toString hours ++ ":" ++ twoDigits minutes ++ ":" ++ twoDigits seconds

/-- `_parse_duration_seconds`, on the values the column holds. -/
def parseDurationSeconds (value : Option ℚ) : Option ℕ :=
  match value with
  | none => none
  | some value => if value < 0 then none else some value.floor.toNat

def feedChapters (post : Post) : List (ℚ × String) :=
  match post.chapterData with
  | none => []
  | some data =>
    let chapters :=
      if data.chaptersForOutput = [] then data.chaptersKept else data.chaptersForOutput
    let named := chapters.map (fun c => (max 0 c.startTime,String.ofList (strip c.title.toList)))
    sortByKey Prod.fst (named.filter (fun c => c.2 ≠ ""))

/-- `_render_podly_chapters_html`. -/
def renderPodlyChaptersHtml (post : Post) : String :=
  let chapters := feedChapters post
  if chapters = [] then ""
  else
    let items := chapters.map (fun c => "<li>" ++ formatSeconds c.1.floor.toNat ++ " " ++
      String.join (c.2.toList.map escapeChar) ++ "</li>")
    "<p><strong>Podly Chapters</strong></p><ul>" ++ String.join items ++ "</ul>"

def buildPostFeedDescriptionHtml (post : Post) : String :=
  let description := if truthy post.description then [normalizeFeedText post.description] else []
  let chapters := renderPodlyChaptersHtml post
  "\n".intercalate (description ++ if chapters = "" then [] else [chapters])

/-- `Post.audio_len_bytes`. -/
def audioLenBytes (disk : Disk) (post : Post) : ℕ :=
  match post.processedAudioPath with
  | none => 0
  | some path => (disk.fileSize path).getD 0

/-- The texts of an item. A date is shown by the second. -/
structure Item where
  title : String
  audioUrl : String
  length : ℕ
  description : String
  guid : String
  pubDate : Option ℤ
  image : Option String
  duration : Option String
  chaptersUrl : Option String
deriving DecidableEq

def feedItem (links : Links) (disk : Disk) (post : Post) : Item :=
  { title := post.title
    audioUrl := links.audio post.guid
    length := audioLenBytes disk post
    description := buildPostFeedDescriptionHtml post
    guid := post.guid
    pubDate := post.releaseDate.map (fun t => t / 1000000)
    image := if truthy post.imageUrl then post.imageUrl else none
    duration := match parseDurationSeconds post.duration with
      | none => none
      | some seconds => if seconds = 0 then none else some (formatSeconds seconds)
    chaptersUrl := if feedChapters post = [] then none else some (links.chapters post.guid) }

/-- `order_by(Post.release_date.desc().nullslast(), Post.id.desc())`. -/
def newestFirst (posts : List Post) : List Post :=
  sortByKey (fun post => OrderDual.toDual (toLex (nullsFirst post.releaseDate,post.id))) posts

section
variable (sys : System)

def hasActiveJob (guid : String) : Bool :=
  sys.jobs.rows.any (fun job => job.postGuid = guid && job.status.IsActive)

/-- The conditions of the post query. -/
def isShown (post : Post) : Bool :=
  if sys.autoprocessOnDownload then post.processedAudioPath.isSome || !hasActiveJob sys post.guid
  else post.whitelisted && post.processedAudioPath.isSome

def shownPosts (feedId : ℤ) : List Post :=
  newestFirst (sys.posts.rows.filter (fun post => post.feedId = feedId && isShown sys post))

/-- The texts of the channel besides its build date. -/
structure Content where
  title : String
  link : String
  description : String
  imageUrl : Option String
  imageTitle : String
  items : List Item
deriving DecidableEq

structure Document where
  content : Content
  lastBuildDate : ℤ
deriving DecidableEq

def feedContent (links : Links) (feed : Feed) : Content :=
  { title := "[podly] " ++ feed.title
    link := links.feed feed.id
    description := normalizeFeedText feed.description
    imageUrl := feed.imageUrl
    imageTitle := feed.title
    items := (shownPosts sys feed.id).map (feedItem links sys.disk) }

def generateFeedXml (links : Links) (feed : Feed) : Document :=
  ⟨feedContent sys links feed,feed.lastChangedAt / 1000000⟩

end

end Podly.Feeds
