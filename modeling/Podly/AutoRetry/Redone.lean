import Podly.AutoRetry.Sequences
import Podly.Strings.Separated

/-! What the run of a retry finds when it comes to the check for existing audio: what the classifier
and the cut left is gone, and what was handed over is there. -/
namespace Podly.AutoRetry
open Store Episodes Programs
open Writer (Time StatusUpdate JobStatus ProcessingJob JobTable)

/-- Nothing of an earlier classification is left: no identification, no call but the transcription,
no output but the words of the transcript, and no file that the check for existing audio finds. -/
structure Cleared (host : Host) (ep : Episode) (s : State) : Prop where
  identifications : ∀ i ∈ s.db.identifications.table.rows,
    s.db.segmentIn (fun id => id = ep.postId) i.transcriptSegmentId = false
  calls : ∀ call ∈ s.db.calls.table.rows, call.postId = ep.postId → isWhisperCall call = true
  outputs : ∀ row, s.db.posts.get ep.postId = some row → row.processedAudioPath = none ∧
    ∀ column, column ≠ .transcriptWordTimestamps → row.outputs column = none
  audio : ∀ row, s.db.posts.get ep.postId = some row →
    Writer.findExistingProcessedAudioPath (host.disk s.files) row.processedAudioPath
      row.unprocessedAudioPath (feedTitle s.db row) row.title = none

/-- The disk lets go of every file that the check for existing audio looks at. -/
def LetsGo (host : Host) (ep : Episode) (s : State) : Prop :=
  ∀ row, s.db.posts.get ep.postId = some row →
    ∀ e ∈ candidates host s row, (s.files e).isSome → host.refuses e = false

/-- The download is none of these files. -/
def Apart (host : Host) (ep : Episode) (s : State) : Prop :=
  ∀ row path, s.db.posts.get ep.postId = some row → row.unprocessedAudioPath = some path →
    host.resolve path ∉ candidates host s row

/-- Only jobs and the counts of their run are written. -/
def OnlyJobs (s t : State) : Prop := ∃ jobs run, t = { s with db := { s.db with jobs, run } }

instance : Std.Refl OnlyJobs := ⟨fun _ => ⟨_,_,rfl⟩⟩

instance : IsTrans State OnlyJobs where
  trans := by
    rintro s _ _ ⟨_,_,rfl⟩ ⟨jobs,run,rfl⟩
    exact ⟨jobs,run,rfl⟩

section
variable {host : Host} {ep : Episode} {course : Course} {jobId : String} {s t : State} {row : Post}

theorem onlyJobs_updateJobStatus {call : Call} {status : JobStatus} {step : Option ℤ}
    {stepName : String} {progress : Option ℚ} {totalSteps : Option ℤ} : Keeps OnlyJobs
      (updateJobStatus course call jobId status step stepName progress totalSteps) := by
  apply keeps_updateJobStatus
  intro update now s _
  obtain ⟨jobs,run,h⟩ := execute_job s.db ⟨.updateJobStatus jobId update,now⟩
  exact ⟨jobs,run,by rw [h]⟩

/-- The row that the preparation leaves. -/
def prepared (post : Post) : Post :=
  { post with
    processedAudioPath := none,
    outputs := fun column =>
      if column = .transcriptWordTimestamps then post.outputs column else none }

theorem prepared_id (post : Post) : (prepared post).id = post.id := rfl

theorem prepared_key (post : Post) : (prepared post).key = post.key := rfl

theorem prepared_path (post : Post) :
    (prepared post).unprocessedAudioPath = post.unprocessedAudioPath := rfl

/-- All the rows that it leaves. -/
theorem execute_prepare {db : Database} {id : ℕ} (hrow : db.posts.get id = some row) :
    execute db (.preparePostForAutoRetry id) = { db with
      identifications := db.deleteIdentifications (fun id => id = row.id),
      calls := db.calls.deleteWhere (fun call => call.postId = row.id && !isWhisperCall call),
      posts := db.posts.modify row.id prepared prepared_id prepared_key } := by
  have hok : perform db (.preparePostForAutoRetry id) =
      preparePostForAutoRetryAction id db := rfl
  rw [execute,hok,preparePostForAutoRetryAction,withPost,hrow]
  rfl

/-- The files after the preparation has unlinked what it can. -/
def unlinked (host : Host) (s : State) (row : Post) : String → Option (List UInt8) :=
  fun e => if e ∈ candidates host s row ∧ host.refuses e = false then none else s.files e

theorem exec_prepareForAutoRetry (hrow : s.db.posts.get ep.postId = some row) :
    (exec (prepareForAutoRetry host ep course) s).2 = { s with
      files := if (course.reply .prepare).reached || course.unlinks then unlinked host s row
        else s.files,
      db := if (course.reply .prepare).reached then
        execute s.db (.preparePostForAutoRetry ep.postId) else s.db } := by
  have hread : exec (rowOf ep) s = (.ok row,s) := by
    rw [exec_rowOf,hrow]
  rw [prepareForAutoRetry,exec_attempt,exec_bind_ok hread,exec_bind_ok (exec_modify _ s),
    exec_send_pure]
  cases (course.reply .prepare).reached <;> cases course.unlinks <;> rfl

/-- A flagged job comes to the check by way of the preparation. -/
theorem openRun_ok {u : Unit} (hflag : Flagged jobId s)
    (h : exec (openRun host ep course jobId) s = (.ok u,t)) :
    ∃ s' row, OnlyJobs s s' ∧ s'.db.posts.get ep.postId = some row ∧
      t = (exec (prepareForAutoRetry host ep course) s').2 := by
  obtain ⟨_,s',hstart,hstep⟩ := exec_bind_eq_ok h
  have honly := @onlyJobs_updateJobStatus course jobId .start .running (some 0)
    "Starting processing" none none s
  have hquiet := @quiet_updateJobStatus course jobId .start .running (some 0)
    "Starting processing" none none (by decide) s
  rw [hstart] at honly hquiet
  obtain ⟨row,_,hread,hstep⟩ := exec_bind_eq_ok hstep
  obtain ⟨hrow,rfl⟩ := exec_rowOf_eq_ok hread
  refine ⟨s',row,honly,hrow,?_⟩
  split at hstep
  · obtain ⟨job,v,hjob,hstep⟩ := exec_bind_eq_ok hstep
    rw [exec_jobOf] at hjob
    split at hjob
    · cases hjob
    · rename_i hget
      cases hjob
      obtain ⟨hmem,hid⟩ := Table.get_eq_some.mp hget
      rw [if_pos (hquiet.flagged hflag _ hmem hid)] at hstep
      rw [hstep]
  · cases hstep

/-- Without the stored path there are no other candidates. -/
theorem mem_candidates_none {disk : Writer.Disk} {stored download title : Option String}
    {postTitle e : String}
    (h : e ∈ Writer.getProcessedAudioPathCandidates disk none download title postTitle) :
    e ∈ Writer.getProcessedAudioPathCandidates disk stored download title postTitle := by
  unfold Writer.getProcessedAudioPathCandidates at h ⊢
  dsimp only at h ⊢
  rw [List.mem_eraseDups,List.append_assoc,List.map_append] at h ⊢
  obtain h | h := List.mem_append.mp h
  · cases h
  · exact List.mem_append_right _ h

/-- A preparation that is carried out clears the episode, if the disk lets go of its files. -/
theorem cleared_prepareForAutoRetry (hrow : s.db.posts.get ep.postId = some row)
    (hreached : (course.reply .prepare).reached = true)
    (hgo : ∀ e ∈ candidates host s row, (s.files e).isSome → host.refuses e = false) :
    Cleared host ep (exec (prepareForAutoRetry host ep course) s).2 := by
  have hid : row.id = ep.postId := (Table.get_eq_some.mp hrow).2
  rw [exec_prepareForAutoRetry hrow,hreached,Bool.true_or,if_pos rfl,if_pos rfl,
    execute_prepare hrow,hid]
  have hget : ∀ row', (s.db.posts.modify ep.postId prepared prepared_id prepared_key).get
      ep.postId = some row' → row' = prepared row := by
    intro row' hrow'
    change (s.db.posts.table.modify ep.postId prepared prepared_id).get ep.postId =
      some row' at hrow'
    have hrow'' : s.db.posts.table.get ep.postId = some row := hrow
    rw [Table.get_modify,if_pos rfl,hrow''] at hrow'
    exact (Option.some.inj hrow').symm
  constructor
  case identifications =>
    intro i hi
    obtain ⟨-,hout⟩ := Indexed.mem_deleteWhere.mp hi
    exact hout
  case calls =>
    intro call hcall hpost
    obtain ⟨-,hout⟩ := Indexed.mem_deleteWhere.mp hcall
    simpa [hpost] using hout
  case outputs =>
    intro row' hrow'
    rw [hget row' hrow']
    exact ⟨rfl,fun column hcolumn => if_neg hcolumn⟩
  case audio =>
    intro row' hrow'
    rw [hget row' hrow']
    apply List.find?_eq_none.mpr
    intro e he
    have hnone : unlinked host s row e = none := by
      rw [unlinked]
      split
      · rfl
      · rename_i hkept
        by_contra hsome
        have hcandidate : e ∈ candidates host s row := mem_candidates_none he
        exact hkept ⟨hcandidate,hgo e hcandidate (Option.isSome_iff_ne_none.mpr hsome)⟩
    have hsize : (host.disk (unlinked host s row)).fileSize e = none := by
      change (unlinked host s row e).map List.length = none
      rw [hnone,Option.map_none]
    rw [hsize]
    exact Bool.false_ne_true

/-- The preparation leaves alone the transcript, and the download if it is no candidate. -/
theorem held_prepareForAutoRetry {e : String} (hrow : s.db.posts.get ep.postId = some row)
    (hapart : e ∉ candidates host s row) :
    Same (held ep e) s (exec (prepareForAutoRetry host ep course) s).2 := by
  rw [exec_prepareForAutoRetry hrow]
  have hfile : (if (course.reply .prepare).reached || course.unlinks then unlinked host s row
      else s.files) e = s.files e := by
    split
    · exact if_neg (fun h => hapart h.1)
    · rfl
  have hdb : ∀ db, db = s.db ∨ db = execute s.db (.preparePostForAutoRetry ep.postId) →
      db.segments = s.db.segments ∧
        (db.posts.get ep.postId).map Post.unprocessedAudioPath = pathOf ep s := by
    rintro db (rfl | rfl)
    · exact ⟨rfl,rfl⟩
    · rw [execute_prepare hrow]
      exact ⟨rfl,Indexed.map_get_modify prepared_id prepared_key prepared_path ep.postId⟩
  obtain ⟨hsegments,hpath⟩ := hdb (if (course.reply .prepare).reached then
    execute s.db (.preparePostForAutoRetry ep.postId) else s.db) (by split <;> simp)
  simp only [Same,held,pathOf,hsegments,hpath,hfile]

/-- The run of a job that was handed something, up to the check for existing audio. -/
theorem openRun_dequeued {h : Handover} {u : Unit} (hflag : Flagged jobId s)
    (hopen : exec (openRun host ep course jobId) (dequeued course jobId s) = (.ok u,t)) :
    (Apart host ep s → InPlace host ep h s → InPlace host ep h t) ∧
      ((course.reply .prepare).reached = true → LetsGo host ep s → Cleared host ep t) := by
  obtain ⟨_,row,⟨jobs,run,rfl⟩,hrow,rfl⟩ := openRun_ok (quiet_dequeued.flagged hflag) hopen
  constructor
  · intro hapart hplace
    apply hplace.of_held
    intro path hpath
    obtain ⟨-,path',-,hpath',-,hstored,-⟩ := hplace
    obtain rfl := Option.some.inj (hpath.symm.trans hpath')
    have hdownload : row.unprocessedAudioPath = some path := by
      have hrow' : s.db.posts.get ep.postId = some row := hrow
      rw [pathOf,hrow'] at hstored
      exact Option.some.inj hstored
    exact held_prepareForAutoRetry hrow (hapart row path hrow hdownload)
  · intro hreached hgo
    exact cleared_prepareForAutoRetry hrow hreached (hgo row hrow)

end

/-- Of the runs of one episode that begin with one job, however they end, one retry comes at most.
While it waits, what was handed over to it is in place. Its run finds that still there if the
download is no file of the cut, and finds all else gone if its preparation was carried out and the
disk let go of the files. -/
theorem one_retry_redoes {ep : Episode} {s : State} (hstart : Starts ep s) (host : Host)
    (runs : List (String × Course)) :
    (runAll host ep runs s).handovers.length ≤ 1 ∧
      ∀ h ∈ (runAll host ep runs s).handovers, Waiting ep (runAll host ep runs s) h.jobId →
        InPlace host ep h (runAll host ep runs s) ∧
          ∀ course t, exec (openRun host ep course h.jobId)
              (dequeued course h.jobId (runAll host ep runs s)) = (.ok ⟨⟩,t) →
            (Apart host ep (runAll host ep runs s) → InPlace host ep h t) ∧
              ((course.reply .prepare).reached = true → LetsGo host ep (runAll host ep runs s) →
                Cleared host ep t) := by
  obtain ⟨first,hfirst⟩ := hstart.between host
  obtain ⟨hnone,-⟩ | ⟨h,hone,hflag,hwaits⟩ := hfirst.runAll runs
  · rw [hnone]
    exact ⟨Nat.zero_le 1,fun h hh => absurd hh List.not_mem_nil⟩
  · rw [hone]
    refine ⟨le_refl 1,fun h' hh' hwait => ?_⟩
    obtain rfl := List.mem_singleton.mp hh'
    obtain ⟨-,hplace⟩ := hwaits _ hwait
    refine ⟨hplace,fun course t hopen => ?_⟩
    obtain ⟨hkept,hcleared⟩ := openRun_dequeued hflag hopen
    exact ⟨fun hapart => hkept hapart hplace,hcleared⟩

/-- After these runs a retry waits, and its run comes to the check for existing audio in a state like
this. -/
def Reaches (host : Host) (ep : Episode) (s : State) (course : Course)
    (P : Handover → State → Prop) : Prop :=
  ∃ h ∈ s.handovers, Waiting ep s h.jobId ∧
    ∃ t, exec (openRun host ep course h.jobId) (dequeued course h.jobId s) = (.ok ⟨⟩,t) ∧ P h t

theorem reaches_of_isOk {host : Host} {ep : Episode} {s : State} {course : Course} {jobId : String}
    {P : Handover → State → Prop} (hjob : s.handovers.map Handover.jobId = [jobId])
    (hwait : Waiting ep s jobId)
    (hok : (exec (openRun host ep course jobId) (dequeued course jobId s)).1.isOk = true)
    (hP : ∀ h ∈ s.handovers, P h (exec (openRun host ep course jobId)
      (dequeued course jobId s)).2) : Reaches host ep s course P := by
  obtain ⟨h,hh,rfl⟩ := List.mem_map.mp (hjob ▸ List.mem_singleton_self jobId)
  refine ⟨h,hh,hwait,_,?_,hP h hh⟩
  rcases hexec : exec (openRun host ep course h.jobId) (dequeued course h.jobId s) with ⟨_ | _,t⟩
  · rw [hexec] at hok
    cases hok
  · rfl

/-- The name of a file, by the characters of its path. -/
theorem fileName_eq : Writer.fileName = fun p =>
    (((p.toList.splitOnP (· == '/')).map String.ofList).filter
      (fun part => part ≠ "" ∧ part ≠ ".")).getLastD "" := by
  funext p
  have h := Strings.splitOn_singleton p '/'
  have hslash : String.ofList ['/'] = "/" := rfl
  rw [hslash] at h
  rw [Writer.fileName,h]

namespace Unreadable

def link (path : String) : String :=
  if path = "in/jobs/G/J/T.mp3" then "srv/F F/T.mp3" else path

/-- A disk that may refuse to unlink, and on which the download may lead into the other tree. -/
def host (linked refuses : Bool) : Host where
  inRoot := "in"
  srvRoot := "srv"
  resolve := fun path => if linked then link path else path
  resolve_resolve := by
    intro path
    cases linked
    · rfl
    · change link (link path) = link path
      unfold link
      by_cases h : path = "in/jobs/G/J/T.mp3"
      · rw [if_pos h]
        rfl
      · rw [if_neg h,if_neg h]
  directory := fun _ => false
  refuses := fun _ => refuses

def ep : Episode := ⟨1,"G"⟩

/-- An episode with one job, whose first classification cannot be read. -/
def start : State where
  db := { Database.empty with
    feeds := ⟨⟨[⟨1,"F F","U"⟩],by decide⟩,by decide⟩
    posts := ⟨⟨[⟨1,1,"G","D","T",none,true,none,none,fun _ => none⟩],by decide⟩,by decide⟩
    jobs := ⟨[Writer.newJob ⟨"J","G",none,none,none,none,none,false⟩ 0],by decide⟩ }
  files := fun _ => none
  suppress := none
  handovers := []

/-- A run in which every call but the preparation is carried out. -/
def course (prepared : Bool) : Course where
  runId := none
  reply := fun call => ⟨call ≠ .prepare || prepared,call = .prepare && !prepared⟩
  now := fun _ => 0
  unlinks := false
  sample := none
  downloaded := some [1]
  work := ⟨⟨⟨[⟨1,1,0,0,1,"words"⟩],by decide⟩,by decide⟩,Indexed.empty,Table.empty,
    ⟨⟨[⟨1,1,0,0,"m","p",.success,none⟩],by decide⟩,by decide⟩,[],some [2],false,.other "",0,true⟩
  strategy := "llm"
  autoRetryEnabled := true
  newId := "R"
  chapters := false
  chaptered := none
  chaptersStop := false
  chaptersFailure := .other ""
  results := []

/-- After the first run. -/
def retried (linked refuses : Bool) : State :=
  runAll (host linked refuses) ep [("J",course true)] start

/-- The state in which the retry comes to the check. -/
def reached (linked refuses prepared : Bool) : State :=
  (exec (openRun (host linked refuses) ep (course prepared) "R")
    (dequeued (course prepared) "R" (retried linked refuses))).2

/-- Whether the check for existing audio finds a file. -/
def finds (host : Host) (s : State) : Bool :=
  (s.db.posts.get ep.postId).any (fun row =>
    (Writer.findExistingProcessedAudioPath (host.disk s.files) row.processedAudioPath
      row.unprocessedAudioPath (feedTitle s.db row) row.title).isSome)

/-- Whether the download is where the row says. -/
def hasDownload (host : Host) (s : State) : Bool :=
  (pathOf ep s).any (fun path => path.any (fun path => (s.files (host.resolve path)).isSome))

/-- Whether the download is none of the files that the check looks at. -/
def apart (host : Host) (s : State) : Bool :=
  (s.db.posts.get ep.postId).all (fun row => row.unprocessedAudioPath.all (fun path =>
    !(candidates host s row).any (fun e => e = host.resolve path)))

/-- What comes of the two runs: the retry waits after the first and comes to the check in the second,
and what the check finds then. -/
theorem computed : (∀ linked refuses prepared : Bool,
      (retried linked refuses).handovers.map Handover.jobId = ["R"] ∧
      Waiting ep (retried linked refuses) "R" ∧
      (exec (openRun (host linked refuses) ep (course prepared) "R")
        (dequeued (course prepared) "R" (retried linked refuses))).1.isOk = true) ∧
    apart (host false false) (retried false false) = true ∧
    finds (host false false) (reached false false false) = true ∧
    finds (host false true) (reached false true true) = true ∧
    hasDownload (host true false) (reached true false true) = false := by
  unfold apart finds hasDownload reached retried runAll runJob runProcessingJob process openRun
    finishRun acquireProcessingLock processedPathOf prepareForAutoRetry checkExistingProcessedAudio
    candidates Writer.findExistingProcessedAudioPath Writer.getProcessedAudioPathCandidates
  rw [fileName_eq]
  decide +kernel

theorem starts : Starts ep start := by
  refine ⟨rfl,"J",fun id => ?_⟩
  constructor
  · rintro ⟨job,hjob,rfl,-,-⟩
    obtain rfl := List.mem_singleton.mp hjob
    rfl
  · rintro rfl
    exact ⟨_,List.mem_singleton_self _,rfl,rfl,rfl⟩

theorem apart_retried : Apart (host false false) ep (retried false false) := by
  obtain ⟨-,h,-⟩ := computed
  intro row path hrow hpath hmem
  rw [apart,hrow,Option.all_some,hpath,Option.all_some] at h
  have hany : (candidates (host false false) (retried false false) row).any
      (fun e => e = (host false false).resolve path) = true :=
    List.any_eq_true.mpr ⟨_,hmem,decide_eq_true rfl⟩
  rw [hany] at h
  cases h

/-- Where the disk lets go of its files, the retry of the run is redone. -/
theorem redone : (retried false false).handovers.length ≤ 1 ∧
    Reaches (host false false) ep (retried false false) (course true) (fun h t =>
      InPlace (host false false) ep h t ∧ Cleared (host false false) ep t) := by
  obtain ⟨hjob,hwait,hok⟩ := computed.1 false false true
  obtain ⟨hlength,hretry⟩ := one_retry_redoes starts (host false false) [("J",course true)]
  refine ⟨hlength,?_⟩
  obtain ⟨h,hh,hwaits,t,hopen,-⟩ :=
    @reaches_of_isOk _ _ _ _ _ (fun _ _ => True) hjob hwait hok (fun _ _ => trivial)
  obtain ⟨-,hrun⟩ := hretry h hh hwaits
  obtain ⟨hplace,hcleared⟩ := hrun (course true) t hopen
  exact ⟨h,hh,hwaits,t,hopen,hplace apart_retried,hcleared rfl (fun _ _ _ _ _ => rfl)⟩

theorem not_cleared {host : Host} {s : State} (h : finds host s = true) : ¬Cleared host ep s := by
  intro hcleared
  obtain ⟨row,hrow,hsome⟩ := (Option.any_eq_true _ _).mp h
  rw [hcleared.audio row hrow] at hsome
  cases hsome

theorem not_inPlace {host : Host} {h : Handover} {s : State} (hnone : hasDownload host s = false) :
    ¬InPlace host ep h s := by
  rintro ⟨-,path,bytes,-,-,hpath,hfile⟩
  rw [hasDownload,hpath] at hnone
  simp [hfile] at hnone

/-- Without the preparation, or where the disk keeps it, the retry finds the file of the first run.
A download that a link leads to the files of the cut is gone. -/
theorem not_redone : Starts ep start ∧
    Reaches (host false false) ep (retried false false) (course false)
      (fun _ t => ¬Cleared (host false false) ep t) ∧
    Reaches (host false true) ep (retried false true) (course true)
      (fun _ t => ¬Cleared (host false true) ep t) ∧
    Reaches (host true false) ep (retried true false) (course true)
      (fun h t => ¬InPlace (host true false) ep h t) := by
  have hreaches : ∀ (linked refuses prepared : Bool) (P : Handover → State → Prop),
      (∀ h, P h (reached linked refuses prepared)) →
        Reaches (host linked refuses) ep (retried linked refuses) (course prepared) P := by
    intro linked refuses prepared P hP
    obtain ⟨hjob,hwait,hok⟩ := computed.1 linked refuses prepared
    exact reaches_of_isOk hjob hwait hok (fun h _ => hP h)
  obtain ⟨-,-,hfound,hkept,hgone⟩ := computed
  refine ⟨starts,?_,?_,?_⟩
  · exact hreaches false false false _ (fun _ => not_cleared hfound)
  · exact hreaches false true true _ (fun _ => not_cleared hkept)
  · exact hreaches true false true _ (fun _ => not_inPlace hgone)

end Unreadable

end Podly.AutoRetry
