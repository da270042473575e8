import Podly.Intervals.Coalesce
import Podly.WordTimestamps.Column

/-! The one-off job that compresses the word timestamps of old posts, one request after the other, while
other clients go on writing. -/
namespace Podly.WordTimestamps
open Store

variable {V : Type} (G : Gzip) (P : Python V)

/-- SQLite's `length` of a text, which ends before a null character. -/
def sqlLength (text : String) : ℕ := (text.toList.takeWhile (· ≠ '\x00')).length

/-- The condition of the job's query. -/
def isCandidate : Stored → Bool
  | .text json => minCompressBytes ≤ sqlLength json && json ≠ "null"
  | _ => false

/-- The posts the job's query selects, in the order of their ids; a limit that is not positive is
none. -/
def candidates (limit : Option ℤ) (posts : Posts) : List ℤ :=
  let ids := (Intervals.sortByKey Post.id
    (posts.rows.filter (fun post => isCandidate post.words))).map Post.id
  if 0 < limit.getD 0 then ids.take (limit.getD 0).toNat else ids

/-- What `compress_word_timestamps` returns. -/
structure JobResult where
  candidates : ℕ
  compressed : ℕ
  unchanged : ℕ
  failed : ℕ
deriving DecidableEq

/-- What happens around the request for one post: the commands of other clients before it, the writer
that serves it, and whether it is committed and answered. -/
structure Turn where
  before : List (Command × Bool)
  side : Side
  commits : Bool
  answers : Bool

def Turn.cmds (turn : Turn) (postId : ℤ) : List (Command × Bool) :=
  turn.before ++ [(.compress turn.side postId,turn.commits)]

/-- The answer `compressed` of the action. -/
def compresses (side : Side) (posts : Posts) (postId : ℤ) : Bool :=
  match posts.get postId with
  | some post => (side.compressed G post.words).isSome
  | none => false

/-- One round of the job. -/
def jobRound (postId : ℤ) (turn : Turn) (s : Posts × JobResult) : Posts × JobResult :=
  let posts := run (step G P) s.1 turn.before
  let r := s.2
  (step G P posts (.compress turn.side postId,turn.commits),
    if turn.commits && turn.answers then
      if compresses G turn.side posts postId then { r with compressed := r.compressed + 1 }
      else { r with unchanged := r.unchanged + 1 }
    else { r with failed := r.failed + 1 })

def jobRounds (turn : ℤ → Turn) (ids : List ℤ) (s : Posts × JobResult) : Posts × JobResult :=
  ids.foldl (fun s postId => jobRound G P postId (turn postId) s) s

/-- `compress_word_timestamps` -/
def compressWordTimestamps (apply : Bool) (limit : Option ℤ) (turn : ℤ → Turn) (posts : Posts) :
    Posts × JobResult :=
  let ids := candidates limit posts
  let s := (posts,(⟨ids.length,0,0,0⟩ : JobResult))
  if apply then jobRounds G P turn ids s else s

section
variable {G} {P} {posts : Posts} {stored : Stored} {postId : ℤ} {post : Post}

theorem sqlLength_le (text : String) : sqlLength text ≤ text.length := by
  rw [sqlLength,← String.length_toList]
  exact (List.takeWhile_sublist _).length_le

theorem isCandidate_ofText {text : String} (h : text.length < minCompressBytes) :
    isCandidate (.ofText text) = false := by
  have hshort : sqlLength text < minCompressBytes := (sqlLength_le text).trans_lt h
  unfold Stored.ofText
  split
  · rfl
  · simp [isCandidate,Nat.not_le.mpr hshort]

theorem isCandidate_enc (side : Side) (text : String) : isCandidate (side.enc G text) = false := by
  rcases enc_cases G side text with ⟨hshort,henc⟩ | ⟨bytes,henc,-⟩
  · rw [henc,isCandidate_ofText hshort]
  · rw [henc]
    rfl

/-- No candidate withstands a compression. -/
theorem compressed_of_isCandidate (side : Side) (h : isCandidate stored) :
    ∃ bytes, side.compressed G stored = some bytes := by
  unfold isCandidate at h
  split at h
  · rename_i json
    simp only [Bool.and_eq_true,decide_eq_true_eq] at h
    rcases enc_cases G side json with ⟨hshort,-⟩ | ⟨bytes,henc,-⟩
    · exact absurd (h.1.trans (sqlLength_le json)) (Nat.not_le.mpr hshort)
    · refine ⟨bytes,?_⟩
      rw [compressed_eq]
      exact compressStored_eq_some.mpr ⟨json,rfl,by simpa using h.2,henc⟩
  · cases h

theorem isCandidate_compress (side : Side) (stored : Stored) :
    isCandidate (compress G side stored) = false := by
  rw [Bool.eq_false_iff]
  intro h
  cases hcompressed : side.compressed G stored with
  | some bytes =>
    simp only [compress,hcompressed] at h
    cases h
  | none =>
    simp only [compress,hcompressed] at h
    obtain ⟨bytes,hbytes⟩ := compressed_of_isCandidate (G := G) side h
    rw [hcompressed] at hbytes
    cases hbytes

/-- An assignment makes no candidate. -/
theorem assign_of_isCandidate {side : Side} {text : String}
    (h : isCandidate (assign G P side text stored)) : assign G P side text stored = stored := by
  have hrust : isCandidate (encode G text) = false := isCandidate_enc .rust text
  have hpython : isCandidate (compressJsonText G text) = false := isCandidate_enc .python text
  cases side with
  | rust =>
    change isCandidate (encode G text) = true at h
    rw [hrust] at h
    cases h
  | python =>
    change isCandidate (assignPython G P text stored) = true at h
    change assignPython G P text stored = stored
    unfold assignPython at h ⊢
    split
    · rfl
    · rename_i words hwords
      simp only [hwords] at h
      split
      · rfl
      · rename_i hchanged
        rw [if_neg hchanged,hpython] at h
        cases h

theorem get_setWords {f : Stored → Stored} (hf : ∀ stored, isCandidate (f stored) → f stored = stored)
    {postId' : ℤ} (hpost : (setWords posts postId f).get postId' = some post)
    (h : isCandidate post.words) : posts.get postId' = some post := by
  rw [setWords,Table.get_modify] at hpost
  split at hpost
  · rename_i hid
    obtain ⟨post',hget,rfl⟩ := Option.map_eq_some_iff.mp hpost
    rw [hid,hget]
    simp only [hf post'.words h]
  · exact hpost

/-- A candidate after a command is the row that was there before. -/
theorem candidate_step {cmd : Command × Bool} (hpost : (step G P posts cmd).get postId = some post)
    (h : isCandidate post.words) : posts.get postId = some post := by
  obtain ⟨cmd,commits⟩ := cmd
  cases commits with
  | false => exact hpost
  | true =>
  cases cmd with
  | create side postId' words =>
    simp only [step] at hpost
    cases hinsert : posts.insert ⟨postId',(words.map (side.enc G)).getD .null⟩ with
    | none =>
      rw [hinsert,Option.getD_none] at hpost
      exact hpost
    | some posts' =>
      rw [hinsert,Option.getD_some,Table.get_insert hinsert] at hpost
      split at hpost
      · cases hpost
        cases words with
        | none => cases h
        | some text =>
          have hnot : isCandidate (side.enc G text) = false := isCandidate_enc side text
          change isCandidate (side.enc G text) = true at h
          rw [hnot] at h
          cases h
      · exact hpost
  | assign side postId' text => exact get_setWords (fun _ => assign_of_isCandidate) hpost h
  | compress side postId' =>
    refine get_setWords (fun stored hstored => ?_) hpost h
    rw [isCandidate_compress] at hstored
    cases hstored
  | delete postId' =>
    change (posts.deleteWhere _).get postId = some post at hpost
    rw [Table.get_deleteWhere] at hpost
    exact (Option.filter_eq_some_iff.mp hpost).1

theorem candidate_run {cmds : List (Command × Bool)}
    (hpost : (run (step G P) posts cmds).get postId = some post) (h : isCandidate post.words) :
    posts.get postId = some post := by
  induction cmds generalizing posts with
  | nil => exact hpost
  | cons cmd cmds ih => exact candidate_step (ih hpost) h

theorem mem_candidates_none : postId ∈ candidates none posts ↔
    ∃ post, posts.get postId = some post ∧ isCandidate post.words := by
  simp only [candidates,Option.getD_none,lt_irrefl,if_false,List.mem_map,Intervals.mem_sortByKey,
    List.mem_filter]
  constructor
  · rintro ⟨post,⟨hpost,h⟩,rfl⟩
    exact ⟨post,Table.get_eq_some.mpr ⟨hpost,rfl⟩,h⟩
  · rintro ⟨post,hpost,h⟩
    exact ⟨post,⟨(Table.get_eq_some.mp hpost).1,h⟩,(Table.get_eq_some.mp hpost).2⟩

theorem jobRounds_cons (turn : ℤ → Turn) (postId : ℤ) (ids : List ℤ) (s : Posts × JobResult) :
    jobRounds G P turn (postId::ids) s = jobRounds G P turn ids (jobRound G P postId (turn postId) s) :=
  rfl

/-- The job is a run of commands. -/
theorem jobRound_fst (turn : Turn) (s : Posts × JobResult) :
    (jobRound G P postId turn s).1 = run (step G P) s.1 (turn.cmds postId) := by
  rw [Turn.cmds,run_append]
  rfl

theorem jobRounds_fst (turn : ℤ → Turn) (ids : List ℤ) (s : Posts × JobResult) :
    (jobRounds G P turn ids s).1 =
      run (step G P) s.1 (ids.flatMap (fun postId => (turn postId).cmds postId)) := by
  induction ids generalizing s with
  | nil => rfl
  | cons postId ids ih => rw [jobRounds_cons,ih,jobRound_fst,List.flatMap_cons,run_append]

def JobResult.answered (r : JobResult) : ℕ := r.compressed + r.unchanged + r.failed

/-- Each round counts once. -/
theorem jobRound_answered (postId : ℤ) (turn : Turn) (s : Posts × JobResult) :
    (jobRound G P postId turn s).2.answered = s.2.answered + 1 ∧
      (jobRound G P postId turn s).2.candidates = s.2.candidates := by
  simp only [jobRound]
  split_ifs
  all_goals
    simp only [JobResult.answered,and_true]
    omega

theorem jobRounds_answered (turn : ℤ → Turn) (ids : List ℤ) (s : Posts × JobResult) :
    (jobRounds G P turn ids s).2.answered = s.2.answered + ids.length ∧
      (jobRounds G P turn ids s).2.candidates = s.2.candidates := by
  induction ids generalizing s with
  | nil => exact ⟨rfl,rfl⟩
  | cons postId ids ih =>
    obtain ⟨hanswered,hcandidates⟩ := jobRound_answered (G := G) (P := P) postId
      (turn postId) s
    obtain ⟨ihAnswered,ihCandidates⟩ := ih (jobRound G P postId (turn postId) s)
    rw [hanswered] at ihAnswered
    rw [hcandidates] at ihCandidates
    refine ⟨?_,ihCandidates⟩
    rw [jobRounds_cons,ihAnswered,List.length_cons]
    omega

/-- A round whose request is committed leaves no candidate in its row. -/
theorem not_candidate_jobRound {turn : Turn} {s : Posts × JobResult} (hcommits : turn.commits)
    (hpost : (jobRound G P postId turn s).1.get postId = some post) : isCandidate post.words = false := by
  simp only [jobRound,hcommits,step,setWords,Table.get_modify] at hpost
  obtain ⟨post',-,rfl⟩ := Option.map_eq_some_iff.mp hpost
  exact isCandidate_compress turn.side post'.words

theorem not_candidate_jobRounds {turn : ℤ → Turn} {ids : List ℤ} {s : Posts × JobResult}
    (hmem : postId ∈ ids) (hcommits : (turn postId).commits)
    (hpost : (jobRounds G P turn ids s).1.get postId = some post) : isCandidate post.words = false := by
  induction ids generalizing s with
  | nil => cases hmem
  | cons postId' ids ih =>
    rw [jobRounds_cons] at hpost
    rcases List.mem_cons.mp hmem with rfl | hmem'
    · rw [jobRounds_fst] at hpost
      rw [Bool.eq_false_iff]
      intro h
      have hnot := not_candidate_jobRound hcommits (candidate_run hpost h)
      rw [hnot] at h
      cases h
    · exact ih hmem' hpost

/-- Nothing else goes on around the request, which is committed and answered. -/
def Turn.Undisturbed (turn : Turn) : Prop := turn.before = [] ∧ turn.commits ∧ turn.answers

/-- An undisturbed round of a candidate compresses it and leaves the other rows. -/
theorem jobRound_undisturbed {turn : Turn} {s : Posts × JobResult} (h : turn.Undisturbed)
    (hpost : s.1.get postId = some post) (hcandidate : isCandidate post.words) :
    (jobRound G P postId turn s).2 = { s.2 with compressed := s.2.compressed + 1 } ∧
      ∀ postId' ≠ postId, (jobRound G P postId turn s).1.get postId' = s.1.get postId' := by
  obtain ⟨hbefore,hcommits,hanswers⟩ := h
  obtain ⟨bytes,hbytes⟩ := compressed_of_isCandidate (G := G) turn.side hcandidate
  have hcompresses : compresses G turn.side s.1 postId = true := by
    simp only [compresses,hpost,hbytes,Option.isSome_some]
  simp only [jobRound,hbefore,run_nil,hcommits,hanswers,hcompresses,Bool.and_true,if_true,true_and]
  intro postId' hne
  rw [step,setWords,Table.get_modify,if_neg hne]

theorem jobRounds_undisturbed {turn : ℤ → Turn} {ids : List ℤ} {s : Posts × JobResult}
    (hnodup : ids.Nodup) (h : ∀ postId ∈ ids, (turn postId).Undisturbed)
    (hcandidates : ∀ postId ∈ ids, ∃ post, s.1.get postId = some post ∧ isCandidate post.words) :
    (jobRounds G P turn ids s).2 = { s.2 with compressed := s.2.compressed + ids.length } := by
  induction ids generalizing s with
  | nil => rfl
  | cons postId ids ih =>
    obtain ⟨hnotMem,hnodup'⟩ := List.nodup_cons.mp hnodup
    obtain ⟨post,hpost,hcandidate⟩ := hcandidates postId (by simp)
    obtain ⟨hresult,hrest⟩ := jobRound_undisturbed (G := G) (P := P) (h postId (by simp)) hpost
      hcandidate
    rw [jobRounds_cons,ih hnodup' (fun id hid => h id (by simp [hid])),hresult,List.length_cons]
    · simp only [JobResult.mk.injEq,true_and,and_true]
      omega
    · intro id hid
      rw [hrest id (fun heq => hnotMem (heq ▸ hid))]
      exact hcandidates id (by simp [hid])

/-- The other clients' commands of a job. -/
def others (turn : ℤ → Turn) (ids : List ℤ) : List (Command × Bool) :=
  ids.flatMap (fun postId => (turn postId).before)

/-- What is read after a job is what is read after the other clients' commands alone. -/
theorem readings_cmds (turn : ℤ → Turn) (ids : List ℤ) {posts posts' : Posts}
    (h : readings G posts = readings G posts') :
    readings G (run (step G P) posts (ids.flatMap (fun postId => (turn postId).cmds postId))) =
      readings G (run (step G P) posts' (others turn ids)) := by
  induction ids generalizing posts posts' with
  | nil => exact h
  | cons postId ids ih =>
    rw [others,List.flatMap_cons,List.flatMap_cons,run_append,run_append,Turn.cmds,run_append,
      run_cons,run_nil]
    apply ih
    rw [readings_compress]
    exact readings_run h _

theorem nodup_candidates (limit : Option ℤ) (posts : Posts) : (candidates limit posts).Nodup := by
  have hids : ((Intervals.sortByKey Post.id
      (posts.rows.filter (fun post => isCandidate post.words))).map Post.id).Nodup :=
    ((Intervals.sortByKey_perm Post.id _).map Post.id).nodup_iff.mpr
      (posts.nodup.sublist (List.filter_sublist.map Post.id))
  unfold candidates
  split
  · exact hids.sublist (List.take_sublist _ _)
  · exact hids

theorem candidates_subset (limit : Option ℤ) (posts : Posts) :
    candidates limit posts ⊆ candidates none posts := by
  intro postId h
  unfold candidates at h
  split at h
  · exact List.mem_of_mem_take h
  · exact h

/-- What a job has done: nothing a reader sees, as in every row both read what the commands of the
other clients alone would have left; no candidate is left but those of before that were not asked for or not committed; and the counts of its rounds, of
which all compress if nothing disturbs them. -/
structure JobDone (G : Gzip) (P : Python V) (limit : Option ℤ) (turn : ℤ → Turn) (posts posts' : Posts)
    (result : JobResult) : Prop where
  unseen : readings G posts' =
    readings G (run (step G P) posts (others turn (candidates limit posts)))
  left : ∀ postId ∈ candidates none posts', postId ∈ candidates none posts ∧
    (postId ∈ candidates limit posts → (turn postId).commits = false)
  counted : result.candidates = (candidates limit posts).length ∧
    result.compressed + result.unchanged + result.failed = result.candidates
  undisturbed : (∀ postId ∈ candidates limit posts, (turn postId).Undisturbed) →
    result.compressed = result.candidates

/-- The compression job, over every interleaving of its requests with the commands of other clients
and with any of the requests failing. -/
theorem compressWordTimestamps_done (limit : Option ℤ) (turn : ℤ → Turn) (posts : Posts) :
    JobDone G P limit turn posts (compressWordTimestamps G P true limit turn posts).1
      (compressWordTimestamps G P true limit turn posts).2 := by
  change JobDone G P limit turn posts
    (jobRounds G P turn (candidates limit posts) (posts,⟨_,0,0,0⟩)).1
    (jobRounds G P turn (candidates limit posts) (posts,⟨_,0,0,0⟩)).2
  have hcounted := jobRounds_answered (G := G) (P := P) turn (candidates limit posts)
    (posts,⟨(candidates limit posts).length,0,0,0⟩)
  constructor
  · rw [jobRounds_fst]
    exact readings_cmds turn _ rfl
  · intro postId hleft
    obtain ⟨post,hpost,hcandidate⟩ := mem_candidates_none.mp hleft
    constructor
    · rw [jobRounds_fst] at hpost
      exact mem_candidates_none.mpr ⟨post,candidate_run hpost hcandidate,hcandidate⟩
    · intro hmem
      rw [Bool.eq_false_iff]
      intro hcommits
      rw [not_candidate_jobRounds hmem hcommits hpost] at hcandidate
      cases hcandidate
  · refine ⟨hcounted.2,?_⟩
    rw [hcounted.2]
    exact hcounted.1.trans (Nat.zero_add _)
  · intro hundisturbed
    rw [jobRounds_undisturbed (nodup_candidates limit posts) hundisturbed
      (fun postId hid => mem_candidates_none.mp (candidates_subset limit posts hid))]
    exact Nat.zero_add _

theorem isCandidate_longText : isCandidate (.text longText) := by
  have hlist : longText.toList = '['::(longSpace ++ [']']) := String.toList_ofList
  have hspace : longSpace.length = 1100 ∧ ∀ c ∈ longSpace, c = ' ' := by
    unfold longSpace
    exact ⟨List.length_replicate,fun c => List.eq_of_mem_replicate⟩
  have hwhole : longText.toList.takeWhile (· ≠ '\x00') = longText.toList := by
    rw [List.takeWhile_eq_self_iff,hlist]
    intro c hc
    simp only [List.mem_cons,List.mem_append,List.not_mem_nil,or_false] at hc
    rcases hc with rfl | hc | rfl
    · decide
    · rw [hspace.2 c hc]
      decide
    · decide
  have hlength : sqlLength longText = 1102 := by
    rw [sqlLength,hwhole,hlist,List.length_cons,List.length_append,hspace.1,List.length_singleton]
  have hnull : longText ≠ "null" := by
    intro h
    rw [h] at hlist
    cases hlist
  simp [isCandidate,hlength,hnull,minCompressBytes]

/-- Of the two posts the long one is asked for, after a command of another client. -/
theorem compressWordTimestamps_legacy : candidates none legacyPosts = [2] ∧
    JobDone storing byText none (fun _ => ⟨[(.assign .rust 1 "[1]",true)],.python,true,true⟩)
      legacyPosts
      (compressWordTimestamps storing byText true none
        (fun _ => ⟨[(.assign .rust 1 "[1]",true)],.python,true,true⟩) legacyPosts).1
      (compressWordTimestamps storing byText true none
        (fun _ => ⟨[(.assign .rust 1 "[1]",true)],.python,true,true⟩) legacyPosts).2 := by
  refine ⟨?_,compressWordTimestamps_done none _ legacyPosts⟩
  have hshort : isCandidate (.text "[]") = false := by decide
  simp [candidates,legacyPosts,hshort,isCandidate_longText,Intervals.sortByKey]

end

end Podly.WordTimestamps
