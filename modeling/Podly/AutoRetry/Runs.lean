import Podly.AutoRetry.Handover

/-! A whole run of a job. It creates a retry only with the download of the episode in place. -/
namespace Podly.AutoRetry
open Store Episodes Programs
open Writer (Time StatusUpdate JobStatus ProcessingJob JobTable)

section
variable {host : Host} {ep : Episode} {course : Course} {jobId title : String} {s t : State}

/-- An update that succeeded was carried out. -/
theorem updatePostRow_ok {call : Call} {columns : List PostColumn} {u : Unit}
    (h : exec (updatePostRow ep course call columns) s = (.ok u,t)) :
    ∃ db, perform s.db (.updatePost ep.postId columns) = .ok db ∧ t = { s with db } := by
  rw [updatePostRow,exec_bind,exec_send] at h
  cases hraises : (course.reply call).raises with
  | true =>
    rw [hraises] at h
    cases h
  | false =>
    rw [hraises] at h
    change exec (require _) _ = _ at h
    rw [require] at h
    split at h
    · rename_i hsuccess
      obtain ⟨hreached,hok⟩ := Bool.and_eq_true_iff.mp hsuccess
      rw [if_pos hreached] at h
      cases h
      cases hperform : perform s.db (.updatePost ep.postId columns) with
      | error e =>
        rw [hperform] at hok
        cases hok
      | ok db =>
        refine ⟨db,rfl,?_⟩
        simp only [execute,hperform]
    · cases h

theorem exec_rowOf_eq_ok {row : Post} {u : State} (h : exec (rowOf ep) s = (.ok row,u)) :
    s.db.posts.get ep.postId = some row ∧ s = u := by
  rw [exec_rowOf] at h
  split at h
  · cases h
  · cases h
    exact ⟨‹_›,rfl⟩

/-- The parts of a program that does not stop. -/
theorem exec_bind_eq_ok {α β : Type} {m : Proc α} {f : α → Proc β} {b : β}
    (h : exec (m >>= f) s = (.ok b,t)) : ∃ a u, exec m s = (.ok a,u) ∧ exec (f a) u = (.ok b,t) := by
  obtain ⟨e,u,-,hexec⟩ | ⟨a,u,hm,hexec⟩ := exec_bind_cases m f s
  · rw [hexec] at h
    cases h
  · exact ⟨a,u,hm,hexec.symm.trans h⟩

/-- The download that is stored at a path. -/
theorem storeDownload_ok {path : String} {u : Unit} (hfile : (s.files (host.resolve path)).isSome)
    (h : exec (updatePostRow ep course .storeDownload [.unprocessedAudioPath (some path)]) s =
      (.ok u,t)) :
    ∃ path, pathOf ep t = some (some path) ∧ (t.files (host.resolve path)).isSome := by
  obtain ⟨db,hperform,rfl⟩ := updatePostRow_ok h
  exact ⟨path,(@pathOf_updatePost ep _ _ [] _ hperform).1,hfile⟩

/-- After its step the download is where the row says. -/
theorem handleDownloadStep_ok {u : Unit}
    (h : exec (handleDownloadStep host ep course jobId) s = (.ok u,t)) :
    ∃ path, pathOf ep t = some (some path) ∧ (t.files (host.resolve path)).isSome := by
  obtain ⟨row,_,hread,hstep⟩ := exec_bind_eq_ok h
  obtain ⟨hrow,rfl⟩ := exec_rowOf_eq_ok hread
  rw [exec_get_bind] at hstep
  have hsome : ∀ path, hasAudio host s path = true → (s.files (host.resolve path)).isSome := by
    intro path haudio
    obtain ⟨bytes,hbytes,-⟩ := (Option.any_eq_true _ _).mp haudio
    rw [hbytes]
    rfl
  split at hstep
  · rename_i haudio
    cases hstep
    obtain ⟨path,hpath,hfile⟩ := (Option.any_eq_true _ _).mp haudio
    refine ⟨path,?_,hsome path hfile⟩
    rw [pathOf,hrow,Option.map_some,hpath]
  obtain ⟨_,v,hreset,hstep⟩ := exec_bind_eq_ok hstep
  have hfiles : v.files = s.files := by
    split at hreset
    · cases hreset
      rfl
    · obtain ⟨db,-,rfl⟩ := updatePostRow_ok hreset
      rfl
  dsimp only at hstep
  split at hstep
  · rename_i haudio
    apply storeDownload_ok _ hstep
    rw [host.resolve_resolve,hfiles]
    exact hsome _ haudio
  obtain ⟨_,w,-,hstep⟩ := exec_bind_eq_ok hstep
  split at hstep
  · cases hstep
  · rename_i bytes _
    obtain ⟨_,x,hwrite,hstep⟩ := exec_bind_eq_ok hstep
    cases hwrite
    apply storeDownload_ok _ hstep
    simp only [writeFile,Function.update_self]
    rfl

theorem same_acquireProcessingLock {e : String} :
    Keeps (Same (download ep e)) (acquireProcessingLock host ep course jobId title) := by
  refine keeps_bind keeps_rowOf (fun row => ?_)
  split
  · exact keeps_throw _
  split
  · exact keeps_throw _
  refine keeps_bind (keeps_send (fun s => ?_)) (fun _ => keeps_pure _)
  change download ep e { s with db := cancelExistingJobs _ _ _ s.db } = _
  unfold cancelExistingJobs
  dsimp only
  split <;> rfl

/-- The lock is taken for the download that the row has. -/
theorem acquireProcessingLock_ok {processedPath : String}
    (h : exec (acquireProcessingLock host ep course jobId title) s = (.ok processedPath,t)) :
    pathOf ep s ≠ some (some "") := by
  obtain ⟨row,_,hread,hstep⟩ := exec_bind_eq_ok h
  obtain ⟨hrow,rfl⟩ := exec_rowOf_eq_ok hread
  split at hstep
  · cases hstep
  rename_i path hpath
  split at hstep
  · cases hstep
  rename_i hblank
  intro hempty
  rw [pathOf,hrow,Option.map_some,hpath] at hempty
  exact hblank (Or.inl (Option.some.inj (Option.some.inj hempty)))

theorem finishRun_ends :
    Ends host ep course jobId s (exec (finishRun host ep course jobId title) s).2 := by
  refine ends_bind quiet_checkExistingProcessedAudio (fun existing t _ => ?_)
  split
  · exact Or.inl (quiet_complete t)
  split
  · exact Or.inl (quiet_simulateDeveloperProcessing title _ t)
  refine ends_bind quiet_handleDownloadStep (fun _ u hdownload => ?_)
  obtain ⟨path,hpath,hfile⟩ := handleDownloadStep_ok hdownload
  refine ends_bind (quiet_acquireProcessingLock title) (fun processedPath v hlock => ?_)
  have hsame := @same_acquireProcessingLock host ep course jobId title (host.resolve path) u
  have hne : path ≠ "" := by
    rintro rfl
    exact acquireProcessingLock_ok hlock hpath
  rw [hlock] at hsame
  apply processLocked_ends ((congrArg Prod.fst hsame).trans hpath) hne
  rwa [show v.files (host.resolve path) = u.files (host.resolve path) from congrArg Prod.snd hsame]

/-- A handler that only reports leaves alone what was handed over. -/
theorem ends_tryCatch {p : Proc Unit} {handler : Failure → Proc Unit}
    (hp : Ends host ep course jobId s (exec p s).2) (hquiet : ∀ e, Keeps Quiet (handler e))
    (hheld : ∀ e file, Keeps (Same (held ep file)) (handler e)) :
    Ends host ep course jobId s (exec (tryCatch p handler) s).2 := by
  rw [exec_tryCatch]
  rcases hexec : exec p s with ⟨e | u,t⟩
  · rw [hexec] at hp
    exact hp.before (hquiet e t) (fun file => hheld e file t)
  · rw [hexec] at hp
    exact hp

theorem process_ends : Ends host ep course jobId s (exec (process host ep course jobId) s).2 := by
  rw [process,exec_bind,exec_jobOf]
  cases s.db.jobs.get jobId with
  | none => exact Or.inl (Std.Refl.refl s)
  | some job =>
    dsimp only
    rw [exec_bind,exec_rowOf]
    cases s.db.posts.get ep.postId with
    | none => exact Or.inl (Std.Refl.refl s)
    | some row =>
      dsimp only
      rw [exec_get_bind]
      split
      · exact Or.inl (Std.Refl.refl s)
      · rename_i title _
        apply ends_tryCatch
        · exact ends_bind quiet_openRun (fun _ _ _ => finishRun_ends)
        · exact fun e => keeps_bind (quiet_updateJobStatus (by decide)) (fun _ => keeps_throw e)
        · exact fun e file => keeps_bind held_ignoresJobs.updateJobStatus (fun _ => keeps_throw e)

theorem runProcessingJob_ends :
    Ends host ep course jobId s (exec (runProcessingJob host ep course jobId) s).2 := by
  apply ends_tryCatch process_ends
  · exact fun _ => keeps_bind (quiet_failUnfinished 1 _) (fun _ => quiet_failUnfinished 2 _)
  · exact fun _ _ =>
      keeps_bind held_ignoresJobs.failUnfinished (fun _ => held_ignoresJobs.failUnfinished)

/-- The worker takes the job before it runs it. -/
theorem quiet_dequeued : Quiet s (dequeued course jobId s) := by
  have hstart : ∀ job, JobKept job (Writer.startJob course.runId (course.now .start) job) :=
    fun job => ⟨rfl,rfl,fun h => h,fun h => by cases h⟩
  exact ⟨⟨JobsKept.modify hstart (fun _ => rfl),fun _ => rfl,rfl⟩,rfl⟩

/-- A job that is taken no longer waits. -/
theorem not_waiting_of_quiet (h : Quiet (dequeued course jobId s) t) : ¬Waiting ep t jobId := by
  rintro ⟨job',hjob',hid,-,hpending⟩
  obtain ⟨job,hjob,hkept⟩ := h.rows.jobs job' hjob'
  obtain ⟨old,-,rfl⟩ := List.mem_map.mp hjob
  have hold := hkept.pending hpending
  have hkey := hkept.id.trans hid
  by_cases hsame : old.id = jobId
  · rw [if_pos hsame] at hold
    cases hold
  · rw [if_neg hsame] at hkey
    exact hsame hkey

end

end Podly.AutoRetry
