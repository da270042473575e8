import Podly.Paths.Lexical
import Podly.Strings.Trimmed
import Podly.Writer.ProcessedPaths

/-! Where the downloads of the jobs are kept: what the guid of a feed does to the path, and which
downloads keep out of each other's way. -/
namespace Podly.Downloads
open Paths

/-- The parts of a path between its slashes, as `pathlib` keeps them. -/
def components (text : List Char) : List (List Char) :=
  (text.splitOn '/').filter (fun part => part ≠ [] ∧ part ≠ ['.'])

def isAbsolute (text : List Char) : Bool := text.head? = some '/'

/-- `path / text`; an absolute text takes the place of the whole path. -/
def join (path : List (List Char)) (text : List Char) : List (List Char) :=
  if isAbsolute text then components text else path ++ components text

def toStep (part : List Char) : Step (List Char) := if part = ['.','.'] then .up else .name part

/-- `Path.resolve` of an absolute path without symbolic links. -/
def resolve (path : List (List Char)) : List (List Char) := walk [] (path.map toStep)

/-- The name of the file: the letters, digits and blanks of the title. -/
def fileName (postTitle : String) : List Char :=
  Writer.strip (Writer.sanitizePostTitleForFilename postTitle).toList ++ ".mp3".toList

/-- `get_job_unprocessed_path`, from the absolute path of the root for downloads. -/
def getJobUnprocessedPath (inRoot : List (List Char)) (postGuid jobId : List Char)
    (postTitle : String) : List (List Char) :=
  join (join (join (join inRoot "jobs".toList) postGuid) jobId) (fileName postTitle)

/-- The text of a generated job id. -/
def GeneratedId (jobId : List Char) : Prop :=
  jobId ≠ [] ∧ ∀ c ∈ jobId, c ∈ "0123456789abcdef-".toList

instance (jobId : List Char) : Decidable (GeneratedId jobId) :=
  @instDecidableAnd _ _ inferInstance
    (List.decidableBAll (fun c => c ∈ "0123456789abcdef-".toList) jobId)

/-- The download of an episode by a job. -/
structure Download where
  postGuid : List Char
  jobId : List Char
  postTitle : String

variable (inRoot : List (List Char))

/-- The directory of all downloads by jobs. -/
def jobsDir : List (List Char) := resolve (join inRoot "jobs".toList)

/-- Where the guid leads from there. -/
def place (postGuid : List Char) : List (List Char) :=
  resolve (join (join inRoot "jobs".toList) postGuid)

namespace Download

def path (d : Download) : List (List Char) :=
  resolve (getJobUnprocessedPath inRoot d.postGuid d.jobId d.postTitle)

def directory (d : Download) : List (List Char) := (d.path inRoot).dropLast

/-- The file lies under the directory of the downloads. -/
def Under (d : Download) : Prop := jobsDir inRoot <+: d.path inRoot ∧ d.path inRoot ≠ jobsDir inRoot

/-- Two downloads keep out of each other's way. -/
structure Separate (d e : Download) : Prop where
  directories : d.directory inRoot ≠ e.directory inRoot
  files : d.path inRoot ≠ e.path inRoot
  first : ¬d.path inRoot <+: e.directory inRoot
  second : ¬e.path inRoot <+: d.directory inRoot

end Download

/-- The guid stays in the directory of the downloads: it enters again what it climbs out of, and all
of it if it is absolute. -/
def Contained (postGuid : List Char) : Prop :=
  let reduced := reduce ((components postGuid).map toStep)
  let climbs := if isAbsolute postGuid then (jobsDir inRoot).length else reduced.climbs
  (jobsDir inRoot).drop ((jobsDir inRoot).length - climbs) <+: reduced.names

instance (postGuid : List Char) : Decidable (Contained inRoot postGuid) :=
  inferInstanceAs (Decidable (_ <+: _))

section Names
variable {inRoot} {path : List (List Char)} {name jobId : List Char}

/-- A text that is one part and leads to a name. -/
structure IsName (name : List Char) : Prop where
  nonempty : name ≠ []
  plain : '/' ∉ name
  here : name ≠ ['.']
  above : name ≠ ['.','.']

theorem IsName.components_eq (h : IsName name) : components name = [name] := by
  rw [components,List.splitOn_eq_singleton h.plain,List.filter_singleton]
  simp [h.nonempty,h.here]

theorem IsName.isAbsolute_eq (h : IsName name) : isAbsolute name = false := by
  unfold isAbsolute
  rw [decide_eq_false_iff_not]
  intro hhead
  exact h.plain (List.mem_of_mem_head? hhead)

theorem IsName.join_eq (h : IsName name) : join path name = path ++ [name] := by
  rw [join,h.isAbsolute_eq,h.components_eq]
  rfl

theorem IsName.resolve_concat (h : IsName name) : resolve (path ++ [name]) = resolve path ++ [name] := by
  have hstep : toStep name = .name name := if_neg h.above
  rw [resolve,List.map_append,List.map_singleton,walk_concat,hstep]
  rfl

theorem isName_jobs : IsName "jobs".toList := ⟨by decide,by decide,by decide,by decide⟩

theorem GeneratedId.isName (h : GeneratedId jobId) : IsName jobId := by
  have hnot : ∀ c : Char, c ∉ "0123456789abcdef-".toList → c ∉ jobId :=
    fun c hc hmem => hc (h.2 c hmem)
  have hdot : '.' ∉ jobId := hnot '.' (by decide)
  refine ⟨h.1,hnot '/' (by decide),?_,?_⟩
  · rintro rfl
    exact hdot (by decide)
  · rintro rfl
    exact hdot (by decide)

theorem mem_fileName {c : Char} {postTitle : String} (hc : c ∈ fileName postTitle) :
    c.isAlphanum = true ∨ Writer.isSpace c = true ∨ c = '.' := by
  rw [fileName,List.mem_append] at hc
  rcases hc with hc | hc
  · have htitle : c ∈ (Writer.sanitizePostTitleForFilename postTitle).toList :=
      Strings.mem_of_mem_trimmed (p := Writer.isSpace) hc
    rw [Writer.sanitizePostTitleForFilename,String.toList_ofList,List.mem_filter,
      Bool.or_eq_true] at htitle
    exact htitle.2.imp id .inl
  · have hext : ".mp3".toList.all (fun c => c.isAlphanum || Writer.isSpace c || c = '.') := by
      decide
    simpa [or_assoc] using List.all_eq_true.mp hext c hc

theorem isName_fileName (postTitle : String) : IsName (fileName postTitle) := by
  have hlength : 4 ≤ (fileName postTitle).length := by
    rw [fileName,List.length_append]
    exact Nat.le_add_left 4 _
  refine ⟨?_,?_,?_,?_⟩
  · intro h
    rw [h] at hlength
    exact absurd hlength (by decide)
  · intro h
    exact absurd (mem_fileName h) (by decide)
  · intro h
    rw [h] at hlength
    exact absurd hlength (by decide)
  · intro h
    rw [h] at hlength
    exact absurd hlength (by decide)

theorem dot_mem_fileName (postTitle : String) : '.' ∈ fileName postTitle :=
  List.mem_append_right _ (by decide)

theorem fileName_ne_of_dot (postTitle : String) (h : '.' ∉ name) : fileName postTitle ≠ name := by
  rintro rfl
  exact h (dot_mem_fileName postTitle)

theorem GeneratedId.dot_notMem (h : GeneratedId jobId) : '.' ∉ jobId :=
  fun hdot => absurd (h.2 '.' hdot) (by decide)

theorem jobsDir_eq (inRoot : List (List Char)) :
    jobsDir inRoot = resolve inRoot ++ ["jobs".toList] := by
  rw [jobsDir,isName_jobs.join_eq,isName_jobs.resolve_concat]

end Names

section Places
variable {inRoot} {d e : Download}

theorem Download.path_eq (hd : GeneratedId d.jobId) :
    d.path inRoot = place inRoot d.postGuid ++ [d.jobId,fileName d.postTitle] := by
  have hfile := isName_fileName d.postTitle
  rw [Download.path,getJobUnprocessedPath,hfile.join_eq,hfile.resolve_concat,hd.isName.join_eq,
    hd.isName.resolve_concat,List.append_assoc]
  rfl

theorem Download.directory_eq (hd : GeneratedId d.jobId) :
    d.directory inRoot = place inRoot d.postGuid ++ [d.jobId] := by
  rw [Download.directory,Download.path_eq hd,List.dropLast_append_of_ne_nil (List.cons_ne_nil _ _)]
  rfl

/-- Where a guid leads by its reduced form. -/
theorem prefix_place_iff (postGuid : List Char) :
    jobsDir inRoot <+: place inRoot postGuid ↔ Contained inRoot postGuid := by
  rw [place,join,Contained]
  by_cases habs : isAbsolute postGuid
  · rw [if_pos habs,if_pos habs,Nat.sub_self,List.drop_zero,resolve,walk_eq]
    simp
  · rw [if_neg habs,if_neg habs,← prefix_walk_iff,resolve,List.map_append,walk_append]
    rfl

/-- The file lies under the directory of the downloads exactly if the guid stays in it. -/
theorem Download.under_iff (hd : GeneratedId d.jobId) :
    d.Under inRoot ↔ Contained inRoot d.postGuid := by
  have hjobs : ("jobs".toList : List Char) ≠ d.jobId := by
    intro h
    have hs := hd.2 's' (h ▸ by decide)
    exact absurd hs (by decide)
  have hfile : ("jobs".toList : List Char) ≠ fileName d.postTitle :=
    (fileName_ne_of_dot d.postTitle (by decide)).symm
  have hne : ∀ (path : List (List Char)) (name : List Char), "jobs".toList ≠ name →
      jobsDir inRoot ≠ path ++ [name] := by
    intro path name hname h
    rw [jobsDir_eq] at h
    exact hname (List.append_inj_right' h rfl |> List.cons.inj |>.1)
  have hsplit : d.path inRoot =
      (place inRoot d.postGuid ++ [d.jobId]) ++ [fileName d.postTitle] := by
    rw [Download.path_eq hd,List.append_assoc]
    rfl
  rw [← prefix_place_iff,Download.Under,hsplit,List.prefix_concat_iff,List.prefix_concat_iff]
  constructor
  · rintro ⟨(h | h | h),-⟩
    · exact absurd h (hne _ _ hfile)
    · exact absurd h (hne _ _ hjobs)
    · exact h
  · intro h
    exact ⟨.inr (.inr h),(hne _ _ hfile).symm⟩

/-- A directory leads through a file exactly if its guid does. -/
theorem Download.path_prefix_iff (hd : GeneratedId d.jobId) (he : GeneratedId e.jobId) :
    d.path inRoot <+: e.directory inRoot ↔
      place inRoot d.postGuid ++ [d.jobId,fileName d.postTitle] <+: place inRoot e.postGuid := by
  rw [Download.path_eq hd,Download.directory_eq he,List.prefix_concat_iff]
  constructor
  · rintro (h | h)
    · have hends := congrArg List.getLast? h
      have hlast : fileName d.postTitle = e.jobId := by simpa using hends
      exact absurd hlast (fileName_ne_of_dot d.postTitle he.dot_notMem)
    · exact h
  · exact .inr

theorem Download.directory_inj (hd : GeneratedId d.jobId) (he : GeneratedId e.jobId) :
    d.directory inRoot = e.directory inRoot ↔
      place inRoot d.postGuid = place inRoot e.postGuid ∧ d.jobId = e.jobId := by
  rw [Download.directory_eq hd,Download.directory_eq he]
  constructor
  · intro h
    exact ⟨List.append_inj_left' h rfl,(List.cons.inj (List.append_inj_right' h rfl)).1⟩
  · rintro ⟨hplace,hid⟩
    rw [hplace,hid]

/-- Two downloads keep out of each other's way exactly if their guids and job ids do not name one
directory and neither guid leads through the file of the other. -/
theorem Download.separate_iff (hd : GeneratedId d.jobId) (he : GeneratedId e.jobId) :
    Download.Separate inRoot d e ↔
      ¬(place inRoot d.postGuid = place inRoot e.postGuid ∧ d.jobId = e.jobId) ∧
      ¬place inRoot d.postGuid ++ [d.jobId,fileName d.postTitle] <+: place inRoot e.postGuid ∧
      ¬place inRoot e.postGuid ++ [e.jobId,fileName e.postTitle] <+: place inRoot d.postGuid := by
  rw [← Download.directory_inj hd he,← Download.path_prefix_iff hd he,
    ← Download.path_prefix_iff he hd]
  constructor
  · rintro ⟨hdirectories,-,hfirst,hsecond⟩
    exact ⟨hdirectories,hfirst,hsecond⟩
  · rintro ⟨hdirectories,hfirst,hsecond⟩
    exact ⟨hdirectories,fun h => hdirectories (congrArg List.dropLast h),hfirst,hsecond⟩

end Places

/-- Two downloads lie under the directory of the downloads and keep out of each other's way exactly if
their guids stay in it, do not name one directory with one job id, and neither leads through the file
of the other. -/
theorem downloads_separate_iff (inRoot : List (List Char)) (d e : Download)
    (hd : GeneratedId d.jobId) (he : GeneratedId e.jobId) :
    (d.Under inRoot ∧ e.Under inRoot ∧ Download.Separate inRoot d e) ↔
      (Contained inRoot d.postGuid ∧ Contained inRoot e.postGuid) ∧
      ¬(place inRoot d.postGuid = place inRoot e.postGuid ∧ d.jobId = e.jobId) ∧
      ¬place inRoot d.postGuid ++ [d.jobId,fileName d.postTitle] <+: place inRoot e.postGuid ∧
      ¬place inRoot e.postGuid ++ [e.jobId,fileName e.postTitle] <+: place inRoot d.postGuid := by
  rw [Download.under_iff hd,Download.under_iff he,Download.separate_iff hd he,and_assoc]

/-- Where a guid leads that is one name. -/
theorem place_of_isName {inRoot : List (List Char)} {postGuid : List Char} (h : IsName postGuid) :
    place inRoot postGuid = jobsDir inRoot ++ [postGuid] := by
  rw [place,h.join_eq,h.resolve_concat]
  rfl

/-- Guids that are one name each keep their downloads apart. -/
theorem downloads_separate_of_isName {inRoot : List (List Char)} {d e : Download}
    (hd : GeneratedId d.jobId) (he : GeneratedId e.jobId) (hdGuid : IsName d.postGuid)
    (heGuid : IsName e.postGuid) (hne : (d.postGuid,d.jobId) ≠ (e.postGuid,e.jobId)) :
    d.Under inRoot ∧ e.Under inRoot ∧ Download.Separate inRoot d e := by
  have hcontained : ∀ {postGuid}, IsName postGuid → Contained inRoot postGuid := by
    intro postGuid h
    rw [← prefix_place_iff,place_of_isName h]
    exact List.prefix_append _ _
  have hlong : ∀ {g g' : List Char} {rest : List (List Char)}, 2 ≤ rest.length → IsName g →
      IsName g' → ¬place inRoot g ++ rest <+: place inRoot g' := by
    intro g g' rest hrest hg hg' hprefix
    have hlength := hprefix.length_le
    rw [place_of_isName hg,place_of_isName hg'] at hlength
    simp only [List.length_append,List.length_singleton] at hlength
    omega
  refine ⟨(Download.under_iff hd).mpr (hcontained hdGuid),
    (Download.under_iff he).mpr (hcontained heGuid),(Download.separate_iff hd he).mpr ⟨?_,
      hlong (by simp) hdGuid heGuid,hlong (by simp) heGuid hdGuid⟩⟩
  rintro ⟨hplace,hid⟩
  rw [place_of_isName hdGuid,place_of_isName heGuid] at hplace
  have hguid := (List.cons.inj (List.append_inj_right' hplace rfl)).1
  exact hne (by rw [hguid,hid])

/-- The root for downloads in the container. -/
def dataIn : List (List Char) :=
  ["app".toList,"src".toList,"instance".toList,"data".toList,"in".toList]

def firstJob : List Char := "3b1f8a1e-0c5d-4e57-9b1a-2f6d1c0a7e11".toList

def secondJob : List Char := "c90d2f44-7a10-4b3e-8e02-5d1b7f9a6c38".toList

theorem downloads_separate_dotted :
    Download.Under dataIn ⟨"a/../b".toList,firstJob,"One"⟩ ∧
      Download.Under dataIn ⟨"c".toList,secondJob,"Two"⟩ ∧
      Download.Separate dataIn ⟨"a/../b".toList,firstJob,"One"⟩ ⟨"c".toList,secondJob,"Two"⟩ := by
  refine (downloads_separate_iff dataIn ⟨"a/../b".toList,firstJob,"One"⟩
    ⟨"c".toList,secondJob,"Two"⟩ (by decide +kernel) (by decide +kernel)).mpr ?_
  decide +kernel

/-- A guid that climbs puts the file outside, another writing of a guid names the same directory, and
a guid may name a directory in the place of another download. -/
theorem not_separate_dots :
    ¬Download.Under dataIn ⟨"../../srv".toList,firstJob,"One"⟩ ∧
      ¬Download.Separate dataIn ⟨"a".toList,firstJob,"One"⟩ ⟨"a/.".toList,firstJob,"Two"⟩ ∧
      ¬Download.Separate dataIn ⟨[],firstJob,"One"⟩
        ⟨firstJob ++ "/One.mp3".toList,secondJob,"Two"⟩ := by
  refine ⟨?_,?_,?_⟩
  · rintro ⟨hunder,-⟩
    revert hunder
    decide +kernel
  · rintro ⟨hdirectories,-,-,-⟩
    revert hdirectories
    decide +kernel
  · rintro ⟨-,-,hfirst,-⟩
    revert hfirst
    decide +kernel

end Podly.Downloads
