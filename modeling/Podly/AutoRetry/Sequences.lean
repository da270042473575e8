import Podly.AutoRetry.Runs

/-! Runs of one episode, one after the other, that begin with one job. There is one retry at most, and
as long as it waits, the transcript and the download it was created with are in place. -/
namespace Podly.AutoRetry
open Store Episodes Programs
open Writer (Time StatusUpdate JobStatus ProcessingJob JobTable)

/-- The job of the episode that a user created is the one that waits, and nothing was retried. -/
structure Starts (ep : Episode) (s : State) : Prop where
  handovers : s.handovers = []
  job : ∃ jobId, ∀ id, Waiting ep s id ↔ id = jobId

/-- The transcript of the episode. -/
def transcript (ep : Episode) (s : State) : List TranscriptSegment :=
  s.db.segments.table.rows.filter (fun segment => segment.postId = ep.postId)

/-- What was handed over is there: the transcript, and the download with the same bytes. -/
structure InPlace (host : Host) (ep : Episode) (h : Handover) (s : State) : Prop where
  transcript : transcript ep s = h.transcript
  audio : ∃ path bytes, h.download = some path ∧ h.bytes = some bytes ∧
    pathOf ep s = some (some path) ∧ s.files (host.resolve path) = some bytes

/-- The jobs that wait between two runs: the first job, or the one retry there is. -/
def Between (host : Host) (ep : Episode) (first : String) (s : State) : Prop :=
  (s.handovers = [] ∧ ∀ id, Waiting ep s id → id = first) ∨
    ∃ h, s.handovers = [h] ∧ Flagged h.jobId s ∧
      ∀ id, Waiting ep s id → id = h.jobId ∧ InPlace host ep h s

section
variable {host : Host} {ep : Episode} {course : Course} {first jobId : String} {s t : State}

/-- No job comes to wait. -/
theorem Quiet.waiting {id : String} (h : Quiet s t) (hwait : Waiting ep t id) : Waiting ep s id := by
  obtain ⟨job',hjob',hid,hguid,hpending⟩ := hwait
  obtain ⟨job,hjob,hkept⟩ := h.rows.jobs job' hjob'
  exact ⟨job,hjob,hkept.id.trans hid,hkept.guid.trans hguid,hkept.pending hpending⟩

/-- What is left alone stays in place. -/
theorem InPlace.of_held {h : Handover} (hplace : InPlace host ep h s)
    (hheld : ∀ path, h.download = some path → Same (held ep (host.resolve path)) s t) :
    InPlace host ep h t := by
  obtain ⟨htranscript,path,bytes,hdownload,hbytes,hpath,hfile⟩ := hplace
  have hsame := hheld path hdownload
  have hsegments : t.db.segments = s.db.segments := congrArg Prod.fst hsame
  refine ⟨?_,path,bytes,hdownload,hbytes,(congrArg (fun p => p.2.1) hsame).trans hpath,
    (congrArg (fun p => p.2.2) hsame).trans hfile⟩
  rw [AutoRetry.transcript,hsegments]
  exact htranscript

/-- The retry that was created is flagged, and it is handed what is in place. -/
theorem Created.handover {path : String} (h : Created host ep course s t)
    (hpath : pathOf ep s = some (some path)) (hfile : (s.files (host.resolve path)).isSome) :
    ∃ h, h.jobId = course.newId ∧ t.handovers = s.handovers ++ [h] ∧ h.download = some path ∧
      InPlace host ep h t := by
  obtain ⟨row,job,jobs,run,hrow,hrows,hid,hflag,rfl⟩ := h
  have hdownload : row.unprocessedAudioPath = some path := by
    rw [pathOf,hrow] at hpath
    exact Option.some.inj hpath
  obtain ⟨bytes,hbytes⟩ := Option.isSome_iff_exists.mp hfile
  refine ⟨_,rfl,rfl,hdownload,rfl,path,bytes,hdownload,?_,hpath,hbytes⟩
  change row.unprocessedAudioPath.bind _ = _
  rw [hdownload]
  exact hbytes

theorem Created.flagged (h : Created host ep course s t) : Flagged course.newId t := by
  obtain ⟨row,job,jobs,run,-,hrows,hid,hflag,rfl⟩ := h
  intro job' hjob' hid'
  have hjob : job ∈ jobs.rows := by
    rw [hrows]
    exact List.mem_append_right _ (List.mem_singleton_self job)
  rw [jobs.eq_of_key_eq hjob' hjob (hid'.trans hid.symm)]
  exact hflag

/-- A job that waits waited before, or is the retry. -/
theorem Created.waiting {id : String} (h : Created host ep course s t) (hwait : Waiting ep t id) :
    Waiting ep s id ∨ id = course.newId := by
  obtain ⟨row,job,jobs,run,-,hrows,hid,-,rfl⟩ := h
  obtain ⟨job',hjob',hid',hguid,hpending⟩ := hwait
  change job' ∈ jobs.rows at hjob'
  rw [hrows] at hjob'
  obtain hold | hnew := List.mem_append.mp hjob'
  · exact Or.inl ⟨job',hold,hid',hguid,hpending⟩
  · obtain rfl := List.mem_singleton.mp hnew
    exact Or.inr (hid'.symm.trans hid)

/-- One run, of a job that waits. -/
theorem Between.runJob (h : Between host ep first s) :
    Between host ep first (runJob host ep course jobId s) := by
  unfold AutoRetry.runJob
  split
  case isFalse => exact h
  case isTrue hwait =>
    have htaken := @quiet_dequeued course jobId s
    have hnone : ∀ {t}, Quiet (dequeued course jobId s) t → (∀ id, Waiting ep s id → id = jobId) →
        ∀ id, ¬Waiting ep t id := by
      intro t hquiet honly id hid
      obtain rfl := honly id (htaken.waiting (hquiet.waiting hid))
      exact not_waiting_of_quiet hquiet hid
    obtain ⟨hnew,honly⟩ | ⟨h,hone,hflag,honly⟩ := h
    · obtain rfl := honly jobId hwait
      obtain hquiet | ⟨-,u,v,path,hu,hpath,hfile,hcreated,hvt,hheld⟩ :=
        @runProcessingJob_ends host ep course jobId (dequeued course jobId s)
      · left
        refine ⟨(hquiet.handovers.trans htaken.handovers).trans hnew,?_⟩
        exact fun id hid => absurd hid (hnone hquiet honly id)
      · right
        obtain ⟨h,hjobId,hhandovers,hdownload,hplace⟩ := hcreated.handover hpath hfile
        have hu' : u.handovers = [] := (hu.handovers.trans htaken.handovers).trans hnew
        refine ⟨h,?_,?_,?_⟩
        · rw [hvt.handovers,hhandovers,hu',List.nil_append]
        · rw [hjobId]
          exact hvt.flagged hcreated.flagged
        · intro id hid
          obtain hid | rfl := hcreated.waiting (hvt.waiting hid)
          · exact absurd hid (hnone hu honly id)
          · refine ⟨hjobId.symm,hplace.of_held ?_⟩
            intro path' hpath'
            obtain rfl := Option.some.inj (hdownload.symm.trans hpath')
            exact hheld
    · obtain ⟨rfl,-⟩ := honly jobId hwait
      right
      obtain hquiet | ⟨hunflagged,-⟩ :=
        @runProcessingJob_ends host ep course h.jobId (dequeued course h.jobId s)
      · refine ⟨h,(hquiet.handovers.trans htaken.handovers).trans hone,
          hquiet.flagged (htaken.flagged hflag),?_⟩
        exact fun id hid => absurd hid (hnone hquiet (fun id hid => (honly id hid).1) id)
      · exact absurd (htaken.flagged hflag) hunflagged

/-- So it is between any two runs. -/
theorem Between.runAll (h : Between host ep first s) (runs : List (String × Course)) :
    Between host ep first (runAll host ep runs s) := by
  induction runs generalizing s with
  | nil => exact h
  | cons run runs ih => exact ih h.runJob

theorem Starts.between (h : Starts ep s) (host : Host) : ∃ first, Between host ep first s := by
  obtain ⟨hnew,first,honly⟩ := h
  exact ⟨first,Or.inl ⟨hnew,fun id hid => (honly id).mp hid⟩⟩

end

end Podly.AutoRetry
