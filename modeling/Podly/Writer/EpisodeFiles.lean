import Mathlib.Data.List.DropRight
import Podly.Strings.Separated
import Podly.Writer.ProcessedPaths

/-! Which processed files an episode takes for its own. The pipeline stores the output of an episode
under a directory and a name made from titles; the candidates of another episode come from the same
titles by other rules. -/
namespace Podly.Writer
open Strings

/-- `get_job_unprocessed_path`. -/
def getJobUnprocessedPath (inRoot postGuid jobId postTitle : String) : String :=
  let sanitizedTitle := String.ofList (strip (sanitizePostTitleForFilename postTitle).toList)
  joinPath (joinPath (joinPath (joinPath inRoot "jobs") postGuid) jobId) (sanitizedTitle ++ ".mp3")

/-- `paths_from_unprocessed_path`. -/
def pathsFromUnprocessedPath (disk : Disk) (unprocessedPath feedTitle : String) : String :=
  joinPath (joinPath disk.srvRoot (sanitizeFeedTitleModern feedTitle)) (fileName unprocessedPath)

/-- The path of `_simulate_developer_processing`; `sanitize_title` is the legacy sanitization. -/
def developerProcessedPath (disk : Disk) (feedTitle postTitle : String) : String :=
  joinPath (joinPath disk.srvRoot (sanitizeFeedTitleLegacy feedTitle))
    (sanitizePostTitleForFilename postTitle ++ ".mp3")

/-- A download of the pipeline: its job, and the title the episode had then. -/
structure Download where
  jobId : String
  postTitle : String

/-- An output of the pipeline, made in a run or in developer mode, and the titles of then. -/
inductive Output
  | processed (feedTitle : String) (download : Download)
  | developer (feedTitle postTitle : String)

/-- A post with its feed, whose stored paths were produced by the pipeline. The titles may have
changed since. -/
structure Episode where
  guid : String
  title : String
  feedTitle : Option String
  download : Option Download
  output : Option Output

section
variable (disk : Disk) (inRoot : String)

def Download.path (guid : String) (download : Download) : String :=
  getJobUnprocessedPath inRoot guid download.jobId download.postTitle

/-- Where the pipeline stores an output. -/
def Output.path (guid : String) : Output → String
  | .processed feedTitle download =>
    pathsFromUnprocessedPath disk (download.path inRoot guid) feedTitle
  | .developer feedTitle postTitle => developerProcessedPath disk feedTitle postTitle

def Episode.unprocessedAudioPath (p : Episode) : Option String :=
  p.download.map (Download.path inRoot p.guid)

def Episode.processedAudioPath (p : Episode) : Option String :=
  p.output.map (Output.path disk inRoot p.guid)

/-- The candidates of an episode. -/
def Episode.candidates (p : Episode) : List String :=
  getProcessedAudioPathCandidates disk (p.processedAudioPath disk inRoot)
    (p.unprocessedAudioPath inRoot) p.feedTitle p.title

/-- What `_check_existing_processed_audio`, the job manager and the missing-path repair adopt. -/
def Episode.adopted (p : Episode) : Option String :=
  findExistingProcessedAudioPath disk (p.processedAudioPath disk inRoot)
    (p.unprocessedAudioPath inRoot) p.feedTitle p.title

/-- What `prepare_post_for_auto_retry_action` deletes. -/
def Episode.deletedForRetry (p : Episode) : List String :=
  (p.candidates disk inRoot).filter (fun path => (disk.fileSize path).isSome)

/-- `get_post_processed_audio_path_cached`: the path that `process` takes for done if it is there. -/
def Episode.workingPath (p : Episode) : Option String :=
  match p.unprocessedAudioPath inRoot, p.feedTitle with
  | some path, some title =>
    if path = "" ∨ title = "" then none else some (pathsFromUnprocessedPath disk path title)
  | _, _ => none

end

/-- A directory below the root of the outputs, and a file name without its extension. -/
@[ext] structure Location where
  directory : String
  name : String
deriving DecidableEq

/-- Where the pipeline puts an episode, by its titles. -/
def pipelineLocation (feedTitle postTitle : String) : Location :=
  ⟨sanitizeFeedTitleModern feedTitle,
    String.ofList (strip (sanitizePostTitleForFilename postTitle).toList)⟩

def Output.location : Output → Location
  | .processed feedTitle download => pipelineLocation feedTitle download.postTitle
  | .developer feedTitle postTitle =>
    ⟨sanitizeFeedTitleLegacy feedTitle,sanitizePostTitleForFilename postTitle⟩

def Location.path (disk : Disk) (location : Location) : String :=
  joinPath (joinPath disk.srvRoot location.directory) (location.name ++ ".mp3")

/-- Neither part has a separator, and the directory does not lead back up. -/
structure Location.Plain (location : Location) : Prop where
  directory : '/' ∉ location.directory.toList
  name : '/' ∉ location.name.toList
  notDots : location.directory ∉ [".",".."]

/-- No links lead from one place below the root to another. -/
def Disk.Unlinked (disk : Disk) : Prop :=
  ∀ a b : Location, a.Plain → b.Plain → disk.resolve (a.path disk) = disk.resolve (b.path disk) →
    a.path disk = b.path disk

section
variable {p q : String}

theorem joinPath_plain (h : '/' ∉ q.toList) :
    joinPath p q = if q = "" then p else p ++ "/" ++ q := by
  have hstart : q.startsWith "/" = false := by
    rw [String.startsWith_string_eq_false_iff]
    intro hpre
    exact h (hpre.subset (by decide))
  simp [joinPath,hstart]

theorem mp3_ne (name : String) : name ++ ".mp3" ≠ "" ∧ name ++ ".mp3" ≠ "." := by
  constructor <;> intro h <;> replace h := congrArg String.length h <;>
    rw [String.length_append] at h
  · exact absurd h (by simp)
  · have hdot : (".mp3" : String).length = 4 := rfl
    have hone : ("." : String).length = 1 := rfl
    omega

theorem mp3_plain {name : String} (h : '/' ∉ name.toList) : '/' ∉ (name ++ ".mp3").toList := by
  rw [String.toList_append,List.mem_append,not_or]
  exact ⟨h,by decide⟩

theorem joinPath_mp3_ne {name : String} (h : '/' ∉ name.toList) :
    joinPath p (name ++ ".mp3") ≠ "" := by
  rw [joinPath_plain (mp3_plain h),if_neg (mp3_ne name).1]
  simp

/-- The name of a file is the last part of its path. -/
theorem fileName_joinPath {name : String} (h : '/' ∉ name.toList) :
    fileName (joinPath p (name ++ ".mp3")) = name ++ ".mp3" := by
  rw [joinPath_plain (mp3_plain h),if_neg (mp3_ne name).1,fileName]
  have hsplit := splitOn_append_separator p (mp3_plain h)
  have hslash : String.ofList ['/'] = "/" := rfl
  rw [hslash] at hsplit
  rw [hsplit,List.filter_append]
  simp [mp3_ne name]

end

section
variable {disk : Disk} {a b : Location}

theorem Location.path_eq (h : a.Plain) : a.path disk =
    disk.srvRoot ++ "/" ++ (if a.directory = "" then a.name ++ ".mp3"
      else a.directory ++ "/" ++ (a.name ++ ".mp3")) := by
  rw [Location.path,joinPath_plain (mp3_plain h.name),if_neg (mp3_ne a.name).1,
    joinPath_plain h.directory]
  split
  · rfl
  · simp only [String.append_assoc]

/-- A path tells the directory and the name. -/
theorem Location.path_inj (ha : a.Plain) (hb : b.Plain) :
    a.path disk = b.path disk ↔ a = b := by
  constructor
  · intro h
    rw [Location.path_eq ha,Location.path_eq hb,String.append_right_inj] at h
    have hslash : ∀ s t : String, '/' ∈ (s ++ "/" ++ t).toList := by
      intro s t
      simp
    apply Location.ext_iff.mpr
    by_cases hadir : a.directory = "" <;> by_cases hbdir : b.directory = ""
    · rw [if_pos hadir,if_pos hbdir,String.append_left_inj] at h
      exact ⟨hadir.trans hbdir.symm,h⟩
    · rw [if_pos hadir,if_neg hbdir] at h
      exact absurd (hslash b.directory _) (h ▸ mp3_plain ha.name)
    · rw [if_neg hadir,if_pos hbdir] at h
      exact absurd (hslash a.directory _) (h ▸ mp3_plain hb.name)
    · rw [if_neg hadir,if_neg hbdir] at h
      obtain ⟨hdir,hname⟩ := (append_separator_inj ha.directory hb.directory).mp h
      exact ⟨hdir,(String.append_left_inj _).mp hname⟩
  · rintro rfl
    rfl

end

section
variable {cs : List Char}

theorem mem_dropWhile_end {keep : Char → Bool} {c : Char}
    (h : c ∈ (cs.reverse.dropWhile keep).reverse) : c ∈ cs := by
  rw [List.mem_reverse] at h
  exact List.mem_reverse.mp ((List.dropWhile_sublist keep).subset h)

theorem mem_strip {c : Char} (h : c ∈ strip cs) : c ∈ cs :=
  (List.dropWhile_sublist isSpace).subset (mem_dropWhile_end h)

theorem joinSpaces_plain (h : '/' ∉ cs) (inSpace : Bool) : '/' ∉ joinSpaces inSpace cs := by
  induction cs generalizing inSpace with
  | nil => exact h
  | cons c cs ih =>
    rw [List.mem_cons,not_or] at h
    unfold joinSpaces
    split
    · split
      · exact ih h.2 true
      · rw [List.mem_cons,not_or]
        exact ⟨by decide,ih h.2 true⟩
    · rw [List.mem_cons,not_or]
      exact ⟨h.1,ih h.2 false⟩

end

/-- The sanitized texts have no separator. -/
theorem filter_plain {keep : Char → Bool} (h : keep '/' = false) (cs : List Char) :
    '/' ∉ cs.filter keep := by
  intro hmem
  rw [List.mem_filter,h] at hmem
  exact absurd hmem.2 (by decide)

theorem sanitizePostTitleForFilename_plain (title : String) :
    '/' ∉ (sanitizePostTitleForFilename title).toList := by
  rw [sanitizePostTitleForFilename,String.toList_ofList]
  exact filter_plain (by decide) _

theorem sanitizeFeedTitleLegacy_plain (title : String) :
    '/' ∉ (sanitizeFeedTitleLegacy title).toList := by
  rw [sanitizeFeedTitleLegacy,String.toList_ofList]
  exact filter_plain (by decide) _

theorem sanitizeFeedTitleModern_plain (title : String) :
    '/' ∉ (sanitizeFeedTitleModern title).toList := by
  rw [sanitizeFeedTitleModern,String.toList_ofList]
  apply joinSpaces_plain
  exact fun h => filter_plain (by decide) _ (mem_strip (mem_dropWhile_end h))

theorem sanitizeFeedTitleLegacy_notDots (title : String) :
    sanitizeFeedTitleLegacy title ∉ [".",".."] := by
  have hdot : '.' ∉ (sanitizeFeedTitleLegacy title).toList := by
    rw [sanitizeFeedTitleLegacy,String.toList_ofList,List.mem_filter]
    exact fun h => absurd h.2 (by decide)
  rw [List.mem_cons,List.mem_singleton]
  rintro (h | h) <;> rw [h] at hdot <;> exact hdot (by decide)

theorem joinSpaces_eq_dots {n : ℕ} {cs : List Char}
    (h : joinSpaces false cs = List.replicate n '.') : cs = List.replicate n '.' := by
  induction n generalizing cs with
  | zero =>
    cases cs with
    | nil => rfl
    | cons c cs =>
      simp only [joinSpaces] at h
      split at h <;> cases h
  | succ n ih =>
    cases cs with
    | nil => cases h
    | cons c cs =>
      rw [List.replicate_succ] at h ⊢
      simp only [joinSpaces] at h
      split at h
      · exact absurd (List.cons.inj h).1 (by decide)
      · obtain ⟨hc,hcs⟩ := List.cons.inj h
        rw [hc,ih hcs]

/-- The modern sanitization strips the dots at the end. -/
theorem sanitizeFeedTitleModern_notDots (title : String) :
    sanitizeFeedTitleModern title ∉ [".",".."] := by
  have hdots : ∀ n : ℕ, sanitizeFeedTitleModern title = String.ofList (List.replicate n '.') →
      n = 0 := by
    intro n h
    have hcs := joinSpaces_eq_dots (String.ofList_injective h)
    rw [List.reverse_eq_iff,List.reverse_replicate] at hcs
    have hdrop := congrArg (List.dropWhile (· = '.')) hcs
    rw [List.dropWhile_idempotent,hcs,List.dropWhile_replicate] at hdrop
    simpa using hdrop
  rw [List.mem_cons,List.mem_singleton]
  rintro (h | h)
  · exact absurd (hdots 1 h) (by decide)
  · exact absurd (hdots 2 h) (by decide)

theorem pipelineLocation_plain (feedTitle postTitle : String) :
    (pipelineLocation feedTitle postTitle).Plain := by
  refine ⟨sanitizeFeedTitleModern_plain feedTitle,?_,sanitizeFeedTitleModern_notDots feedTitle⟩
  rw [pipelineLocation,String.toList_ofList]
  exact fun h => sanitizePostTitleForFilename_plain postTitle (mem_strip h)

section
variable {disk : Disk} {inRoot : String}

theorem pathsFromUnprocessedPath_eq (guid feedTitle : String) (download : Download) :
    pathsFromUnprocessedPath disk (download.path inRoot guid) feedTitle =
      (pipelineLocation feedTitle download.postTitle).path disk := by
  have hplain := (pipelineLocation_plain feedTitle download.postTitle).name
  rw [pathsFromUnprocessedPath,Download.path,getJobUnprocessedPath]
  exact congrArg (joinPath _) (fileName_joinPath hplain)

theorem Output.path_eq (guid : String) (out : Output) :
    out.path disk inRoot guid = out.location.path disk := by
  cases out with
  | processed feedTitle download => exact pathsFromUnprocessedPath_eq guid feedTitle download
  | developer feedTitle postTitle => rfl

theorem Output.location_plain (out : Output) : out.location.Plain := by
  cases out with
  | processed feedTitle download => exact pipelineLocation_plain feedTitle download.postTitle
  | developer feedTitle postTitle =>
    exact ⟨sanitizeFeedTitleLegacy_plain feedTitle,sanitizePostTitleForFilename_plain postTitle,
      sanitizeFeedTitleLegacy_notDots feedTitle⟩

end

/-- The places where an episode looks for its processed audio. -/
def Episode.locations (p : Episode) : List Location :=
  let stored := (p.output.map Output.location).toList
  let titled :=
    match p.feedTitle with
    | none => []
    | some feedTitle =>
      if feedTitle = "" then []
      else
        let derived := (p.download.map
          (fun d => pipelineLocation feedTitle d.postTitle)).toList
        let name := sanitizePostTitleForFilename p.title
        derived ++ if name = "" then [] else
          [⟨sanitizeFeedTitleLegacy feedTitle,name⟩,⟨sanitizeFeedTitleModern feedTitle,name⟩]
  stored ++ titled

section
variable {disk : Disk} {inRoot : String} {p : Episode}

theorem Episode.locations_plain {a : Location} (h : a ∈ p.locations) : a.Plain := by
  obtain ⟨guid,title,feedTitle,download,output⟩ := p
  rw [Episode.locations,List.mem_append] at h
  rcases h with h | h
  · obtain ⟨out,-,rfl⟩ := Option.map_eq_some_iff.mp (Option.mem_toList.mp h)
    exact out.location_plain
  · cases feedTitle with
    | none => cases h
    | some feedTitle =>
      simp only at h
      split at h
      · cases h
      · rw [List.mem_append] at h
        rcases h with h | h
        · obtain ⟨d,-,rfl⟩ := Option.map_eq_some_iff.mp (Option.mem_toList.mp h)
          exact pipelineLocation_plain feedTitle d.postTitle
        · split at h
          · cases h
          · have hname := sanitizePostTitleForFilename_plain title
            simp only [List.mem_cons,List.not_mem_nil,or_false] at h
            rcases h with rfl | rfl
            · exact ⟨sanitizeFeedTitleLegacy_plain feedTitle,hname,
                sanitizeFeedTitleLegacy_notDots feedTitle⟩
            · exact ⟨sanitizeFeedTitleModern_plain feedTitle,hname,
                sanitizeFeedTitleModern_notDots feedTitle⟩

/-- The candidates are the paths of these places. -/
theorem Episode.candidates_eq : p.candidates disk inRoot =
    ((p.locations.map (Location.path disk)).map disk.resolve).eraseDups := by
  obtain ⟨guid,title,feedTitle,download,output⟩ := p
  have hout : ∀ out : Output, out.location.path disk ≠ "" := fun out =>
    joinPath_mp3_ne out.location_plain.name
  have hdownload : ∀ d : Download, d.path inRoot guid ≠ "" := by
    intro d
    rw [Download.path,getJobUnprocessedPath]
    exact joinPath_mp3_ne (pipelineLocation_plain "" d.postTitle).name
  have htitled : ∀ directory name : String, joinPath (joinPath disk.srvRoot directory)
      (name ++ ".mp3") = (⟨directory,name⟩ : Location).path disk := fun _ _ => rfl
  unfold Episode.candidates getProcessedAudioPathCandidates Episode.processedAudioPath
    Episode.unprocessedAudioPath Episode.locations
  cases feedTitle with
  | none => cases output <;> cases download <;> simp [hout,Output.path_eq]
  | some feedTitle =>
    by_cases hfeed : feedTitle = ""
    · cases output <;> cases download <;> simp [hfeed,hout,Output.path_eq]
    · have hderived := fun d => @pathsFromUnprocessedPath_eq disk inRoot guid feedTitle d
      simp only [pathsFromUnprocessedPath] at hderived
      by_cases hname : sanitizePostTitleForFilename title = "" <;> cases output <;>
        cases download <;>
        simp [hfeed,hout,hdownload,hderived,hname,htitled,Output.path_eq]

/-- No place of the episode is the one that is taken: not the one it was stored under, nor the one
its download leads to, nor those of its title as it is now. -/
def Episode.Avoids (p : Episode) (taken : Location) : Prop :=
  (∀ out ∈ p.output, out.location ≠ taken) ∧
  ∀ feedTitle ∈ p.feedTitle, feedTitle ≠ "" →
    (∀ d ∈ p.download, pipelineLocation feedTitle d.postTitle ≠ taken) ∧
    (sanitizePostTitleForFilename p.title ≠ "" →
      sanitizePostTitleForFilename p.title = taken.name →
      sanitizeFeedTitleLegacy feedTitle ≠ taken.directory ∧
        sanitizeFeedTitleModern feedTitle ≠ taken.directory)

theorem Episode.avoids_iff {taken : Location} : taken ∉ p.locations ↔ p.Avoids taken := by
  obtain ⟨guid,title,feedTitle,download,output⟩ := p
  rw [Episode.locations,List.mem_append,not_or,Episode.Avoids]
  have hdownload : ∀ feedTitle, (taken ∉ (download.map
      (fun d => pipelineLocation feedTitle d.postTitle)).toList ↔
      ∀ d ∈ download, pipelineLocation feedTitle d.postTitle ≠ taken) := by
    intro feedTitle
    rw [Option.mem_toList,Option.map_eq_some_iff,not_exists]
    exact forall_congr' (fun d => not_and)
  apply and_congr
  · rw [Option.mem_toList,Option.map_eq_some_iff,not_exists]
    exact forall_congr' (fun out => not_and)
  · cases feedTitle with
    | none => simp
    | some feedTitle =>
      by_cases hfeed : feedTitle = ""
      · simp [hfeed]
      · simp only [Option.mem_some_iff,forall_eq',if_neg hfeed,List.mem_append,not_or]
        rw [hdownload,imp_iff_right hfeed]
        apply and_congr Iff.rfl
        by_cases hname : sanitizePostTitleForFilename title = ""
        · simp [hname]
        · rw [if_neg hname,imp_iff_right hname]
          simp only [List.mem_cons,List.not_mem_nil,or_false,Location.ext_iff,not_or]
          constructor
          · rintro ⟨hlegacy,hmodern⟩ hsame
            exact ⟨fun h => hlegacy ⟨h.symm,hsame.symm⟩,fun h => hmodern ⟨h.symm,hsame.symm⟩⟩
          · intro h
            exact ⟨fun ⟨hdir,hsame⟩ => (h hsame.symm).1 hdir.symm,
              fun ⟨hdir,hsame⟩ => (h hsame.symm).2 hdir.symm⟩

end

/-- Nothing an episode takes for its own is where the pipeline stores the audio of another: no
candidate, no path that is adopted or deleted, and not the path that `process` looks at. -/
structure KeepsApart (disk : Disk) (inRoot : String) (p : Episode) (file : String) : Prop where
  candidates : file ∉ p.candidates disk inRoot
  adopted : ∀ path ∈ p.adopted disk inRoot, path ≠ file
  deleted : file ∉ p.deletedForRetry disk inRoot
  working : ∀ path ∈ p.workingPath disk inRoot, disk.resolve path ≠ file

section
variable {disk : Disk} {inRoot : String} {p : Episode}

theorem Episode.adopted_mem {path : String} (h : path ∈ p.adopted disk inRoot) :
    path ∈ p.candidates disk inRoot := List.mem_of_find?_eq_some h

theorem Episode.workingPath_mem {path : String} (h : path ∈ p.workingPath disk inRoot) :
    disk.resolve path ∈ p.candidates disk inRoot := by
  obtain ⟨guid,title,feedTitle,download,output⟩ := p
  rw [Episode.candidates_eq,List.mem_eraseDups]
  apply List.mem_map_of_mem
  cases download with
  | none => cases h
  | some download =>
    cases feedTitle with
    | none => cases h
    | some feedTitle =>
      by_cases hfeed : feedTitle = ""
      · simp [Episode.workingPath,Episode.unprocessedAudioPath,hfeed] at h
      · have hpath : path = (pipelineLocation feedTitle download.postTitle).path disk := by
          rw [← @pathsFromUnprocessedPath_eq _ inRoot guid]
          simp only [Episode.workingPath,Episode.unprocessedAudioPath,Option.map_some,hfeed,
            or_false] at h
          split at h
          · cases h
          · exact (Option.some.inj h).symm
        rw [hpath]
        apply List.mem_map_of_mem
        simp [Episode.locations,hfeed]

end

/-- An episode keeps away from the stored audio of another exactly when its sanitized titles do. -/
theorem keepsApart_iff (disk : Disk) (hdisk : disk.Unlinked) (inRoot : String) (p q : Episode) :
    (∀ out ∈ q.output, KeepsApart disk inRoot p
      (disk.resolve (out.path disk inRoot q.guid))) ↔
    ∀ out ∈ q.output, p.Avoids out.location := by
  apply forall₂_congr
  intro out _
  have hcandidates : disk.resolve (out.path disk inRoot q.guid) ∉ p.candidates disk inRoot ↔
      p.Avoids out.location := by
    rw [← Episode.avoids_iff,not_iff_not,Episode.candidates_eq,List.mem_eraseDups,
      out.path_eq,List.map_map,List.mem_map]
    constructor
    · rintro ⟨a,ha,he⟩
      have hplain := Episode.locations_plain ha
      have hpath := hdisk a out.location hplain out.location_plain he
      rwa [← (Location.path_inj hplain out.location_plain).mp hpath]
    · exact fun h => ⟨out.location,h,rfl⟩
  rw [← hcandidates]
  constructor
  · exact fun h => h.candidates
  · intro h
    refine ⟨h,?_,fun hdeleted => h (List.mem_of_mem_filter hdeleted),?_⟩
    · rintro path hpath rfl
      exact h (Episode.adopted_mem hpath)
    · intro path hpath he
      exact h (he ▸ Episode.workingPath_mem hpath)

/-- An episode of the feed `Show` that the pipeline has downloaded. -/
def downloadedEpisode (guid title : String) : Episode :=
  ⟨guid,title,some "Show",some ⟨"job",title⟩,none⟩

def processedEpisode (guid title : String) : Episode :=
  { downloadedEpisode guid title with output := some (.processed "Show" ⟨"job",title⟩) }

/-- A disk without links that holds the given file only. -/
def singleFileDisk (file : String) : Disk :=
  ⟨"srv",id,fun path => if path = file then some 1 else none,fun path => path = file⟩

theorem singleFileDisk_unlinked (file : String) : (singleFileDisk file).Unlinked :=
  fun _ _ _ _ h => h

theorem keepsApart_otherTitle : (singleFileDisk "srv/Show/Ep 2.mp3").Unlinked ∧
    ∀ out ∈ (processedEpisode "guid-2" "Ep 2").output,
      KeepsApart (singleFileDisk "srv/Show/Ep 2.mp3") "in" (downloadedEpisode "guid-1" "Ep 1")
        ((singleFileDisk "srv/Show/Ep 2.mp3").resolve
          (out.path (singleFileDisk "srv/Show/Ep 2.mp3") "in" "guid-2")) := by
  refine ⟨singleFileDisk_unlinked _,(keepsApart_iff _ (singleFileDisk_unlinked _) "in"
    (downloadedEpisode "guid-1" "Ep 1") (processedEpisode "guid-2" "Ep 2")).mpr ?_⟩
  rintro out hout
  rw [← Option.some.inj hout,← Episode.avoids_iff]
  decide

/-- The titles `Ep. 1` and `Ep 1` share a file: the second episode adopts the audio of the first. -/
theorem keepsApart_fails_punctuation : ¬∀ out ∈ (processedEpisode "guid-1" "Ep. 1").output,
    KeepsApart (singleFileDisk "srv/Show/Ep 1.mp3") "in" (downloadedEpisode "guid-2" "Ep 1")
      ((singleFileDisk "srv/Show/Ep 1.mp3").resolve
        (out.path (singleFileDisk "srv/Show/Ep 1.mp3") "in" "guid-1")) := by
  intro h
  apply (h _ rfl).adopted "srv/Show/Ep 1.mp3"
  · have hcandidates := @Episode.candidates_eq (singleFileDisk "srv/Show/Ep 1.mp3") "in"
      (downloadedEpisode "guid-2" "Ep 1")
    rw [Episode.candidates] at hcandidates
    rw [Episode.adopted,findExistingProcessedAudioPath,hcandidates]
    decide +kernel
  · rw [Output.path_eq]
    decide +kernel

end Podly.Writer
