import Podly.Writer.Rows

/-! Where the processed audio of a post may lie: `shared/processing_paths.py`, over a disk given by
the answers it gives. -/
namespace Podly.Writer

/-- What the code asks of the file system. -/
structure Disk where
  srvRoot : String
  /-- `Path.resolve`; the path itself where that raises an `OSError` -/
  resolve : String → String
  /-- the size of the regular file at a path, if one is there -/
  fileSize : String → Option ℕ
  pathExists : String → Bool

/-- `str.isspace` on one character, which is also what `\s` matches. -/
def isSpace (c : Char) : Bool :=
  let n := c.toNat
  (9 ≤ n && n ≤ 13) || (28 ≤ n && n ≤ 32) || n = 0x85 || n = 0xA0 || n = 0x1680 ||
    (0x2000 ≤ n && n ≤ 0x200A) || n = 0x2028 || n = 0x2029 || n = 0x202F || n = 0x205F ||
    n = 0x3000

/-- `str.strip`. -/
def strip (s : List Char) : List Char :=
  ((s.dropWhile isSpace).reverse.dropWhile isSpace).reverse

/-- `_sanitize_post_title_for_filename`. -/
def sanitizePostTitleForFilename (title : String) : String :=
  String.ofList (title.toList.filter (fun c => c.isAlphanum || isSpace c))

/-- `_sanitize_feed_title_legacy`. -/
def sanitizeFeedTitleLegacy (title : String) : String :=
  String.ofList (title.toList.filter (fun c => c.isAlphanum || isSpace c))

/-- `re.sub(r"\s+", "_", ...)`; the flag says that the last character was a space. -/
def joinSpaces (inSpace : Bool) : List Char → List Char
  | [] => []
  | c::cs =>
    if isSpace c then if inSpace then joinSpaces true cs else '_'::joinSpaces true cs
    else c::joinSpaces false cs

/-- `_sanitize_feed_title_modern`. -/
def sanitizeFeedTitleModern (title : String) : String :=
  let kept := title.toList.filter
    (fun c => c.isAlphanum || isSpace c || c = '_' || c = '.' || c = '-')
  let stripped := ((strip kept).reverse.dropWhile (· = '.')).reverse
  String.ofList (joinSpaces false stripped)

/-- `Path(p) / q`. -/
def joinPath (p q : String) : String :=
  if q.startsWith "/" then q else if q = "" then p else p ++ "/" ++ q

/-- `Path(p).name`. -/
def fileName (p : String) : String :=
  ((p.splitOn "/").filter (fun part => part ≠ "" ∧ part ≠ ".")).getLastD ""

/-- `get_processed_audio_path_candidates`. -/
def getProcessedAudioPathCandidates (disk : Disk)
    (processedAudioPath unprocessedAudioPath feedTitle : Option String) (postTitle : String) :
    List String :=
  let stored := match processedAudioPath with
    | some path => if path = "" then [] else [path]
    | none => []
  let derived := match unprocessedAudioPath, feedTitle with
    | some path, some title =>
      if path = "" ∨ title = "" then []
      else [joinPath (joinPath disk.srvRoot (sanitizeFeedTitleModern title)) (fileName path)]
    | _, _ => []
  let titled := match feedTitle with
    | some title =>
      let name := sanitizePostTitleForFilename postTitle
      if title = "" ∨ name = "" then []
      else [joinPath (joinPath disk.srvRoot (sanitizeFeedTitleLegacy title)) (name ++ ".mp3"),
        joinPath (joinPath disk.srvRoot (sanitizeFeedTitleModern title)) (name ++ ".mp3")]
    | none => []
  ((stored ++ derived ++ titled).map disk.resolve).eraseDups

/-- `find_existing_processed_audio_path`: the first candidate that is a nonempty file. -/
def findExistingProcessedAudioPath (disk : Disk)
    (processedAudioPath unprocessedAudioPath feedTitle : Option String) (postTitle : String) :
    Option String :=
  (getProcessedAudioPathCandidates disk processedAudioPath unprocessedAudioPath feedTitle
    postTitle).find? (fun path => match disk.fileSize path with
      | some size => size > 0
      | none => false)

end Podly.Writer
