import Podly.AutoRetry.Once

/-! What a run hands over to the retry it creates: after the guard it leaves the transcript and the
download alone, whether it completes or fails. -/
namespace Podly.AutoRetry
open Store Episodes Programs
open Writer (Time StatusUpdate JobStatus ProcessingJob JobTable)

/-- What is left alone: the segments, the path of the download, and the file at a resolved path. -/
def held (ep : Episode) (e : String) (s : State) :
    Indexed TranscriptSegment.id TranscriptSegment.key × Option (Option String) ×
      Option (List UInt8) := (s.db.segments,pathOf ep s,s.files e)

theorem held_ignoresJobs {ep : Episode} {e : String} : IgnoresJobs (held ep e) := fun _ _ _ => rfl

/-- A run has created a retry for the download that is at the path, and left alone what the retry is
to find. -/
def Handed (host : Host) (ep : Episode) (course : Course) (s t : State) : Prop :=
  ∃ u v path, Quiet s u ∧ pathOf ep u = some (some path) ∧
    (u.files (host.resolve path)).isSome ∧ Created host ep course u v ∧ Quiet v t ∧
      Same (held ep (host.resolve path)) v t

/-- A part of a run ends without a retry, or with one for a job that was not flagged. -/
def Ends (host : Host) (ep : Episode) (course : Course) (jobId : String) (s t : State) : Prop :=
  Quiet s t ∨ ¬Flagged jobId s ∧ Handed host ep course s t

section
variable {host : Host} {ep : Episode} {course : Course} {jobId : String}

theorem Ends.after {s s' t : State} (h : Ends host ep course jobId s' t) (hs : Quiet s s') :
    Ends host ep course jobId s t := by
  obtain h | ⟨hflag,u,v,path,hquiet,hrest⟩ := h
  · exact Or.inl (IsTrans.trans _ _ _ hs h)
  · exact Or.inr ⟨fun h => hflag (hs.flagged h),u,v,path,IsTrans.trans _ _ _ hs hquiet,hrest⟩

theorem Ends.before {s t t' : State} (h : Ends host ep course jobId s t) (ht : Quiet t t')
    (hsame : ∀ e, Same (held ep e) t t') : Ends host ep course jobId s t' := by
  obtain h | ⟨hflag,u,v,path,hquiet,hpath,hfile,hcreated,hvt,hheld⟩ := h
  · exact Or.inl (IsTrans.trans _ _ _ h ht)
  · exact Or.inr ⟨hflag,u,v,path,hquiet,hpath,hfile,hcreated,IsTrans.trans _ _ _ hvt ht,
      IsTrans.trans _ _ _ hheld (hsame _)⟩

/-- A part that creates no retry, and the rest of the run from where it leaves the state. -/
theorem ends_bind {α : Type} {m : Proc α} {f : α → Proc Unit} {s : State} (hm : Keeps Quiet m)
    (hf : ∀ a t, exec m s = (.ok a,t) → Ends host ep course jobId t (exec (f a) t).2) :
    Ends host ep course jobId s (exec (m >>= f) s).2 := by
  have hs := hm s
  obtain ⟨e,t,hexec,h⟩ | ⟨a,t,hexec,h⟩ := exec_bind_cases m f s
  · rw [hexec] at hs
    rw [h]
    exact Or.inl hs
  · rw [hexec] at hs
    rw [h]
    exact (hf a t hexec).after hs

/-- What the chapters leave alone. -/
def beside (e : String) (s : State) :
    Option String × Indexed Post.id Post.key × Indexed TranscriptSegment.id TranscriptSegment.key ×
      Option (List UInt8) := (s.suppress,s.db.posts,s.db.segments,s.files e)

theorem beside_ignoresJobs {e : String} : IgnoresJobs (beside e) := fun _ _ _ => rfl

theorem files_writeFile {path e : String} (h : host.resolve path ≠ e) (bytes : List UInt8)
    (s : State) : (writeFile host path bytes s).files e = s.files e :=
  Function.update_of_ne h.symm _ _

theorem same_generateChapters {processedPath e : String} (h : host.resolve processedPath ≠ e) :
    Keeps (Same (beside e)) (generateChapters host course jobId processedPath) := by
  refine keeps_bind ?_ (fun _ => ?_)
  · split
    · exact beside_ignoresJobs.updateJobStatus
    · exact keeps_pure _
  refine keeps_bind ?_ (fun _ => ?_)
  · split
    · exact keeps_pure _
    · apply keeps_modify
      intro s
      exact congrArg (fun file => (s.suppress,s.db.posts,s.db.segments,file)) (files_writeFile h _ s)
  split
  · exact keeps_throw _
  · exact keeps_pure _

theorem exec_updatePostRow (call : Call) (columns : List PostColumn) (s : State) :
    (exec (updatePostRow ep course call columns) s).2 = s ∨
      (exec (updatePostRow ep course call columns) s).2 =
        { s with db := execute s.db (.updatePost ep.postId columns) } := by
  obtain ⟨u,hu,hexec⟩ := @exec_send_cases course _ call (.updatePost ep.postId columns) require s
  have hrequire : ∀ success, (exec (require success) u).2 = u := by
    intro success
    cases success <;> rfl
  have hstate : (exec (updatePostRow ep course call columns) s).2 = u := by
    obtain h | ⟨success,h⟩ := hexec
    · exact h
    · exact (congrArg Prod.snd h).trans (hrequire success)
  rw [hstate]
  exact hu

/-- The path that an update writes with its last column. -/
theorem pathOf_updatePost {db db' : Database} {columns : List PostColumn} {path : Option String}
    (h : perform db (.updatePost ep.postId (columns ++ [.unprocessedAudioPath path])) = .ok db') :
    (db'.posts.get ep.postId).map Post.unprocessedAudioPath = some path ∧
      db'.segments = db.segments := by
  have hcolumns : ∀ row, (applyPostColumns (columns ++ [.unprocessedAudioPath path])
      row).unprocessedAudioPath = path := by
    intro row
    rw [applyPostColumns,List.foldl_append]
    rfl
  change updatePost ep.postId _ db = .ok db' at h
  unfold updatePost withRow at h
  split at h
  · cases h
  · split at h
    · cases h
    · rename_i row hrow
      cases h
      refine ⟨?_,rfl⟩
      change ((db.posts.table.modify ep.postId _ (applyPostColumns_id _)).get ep.postId).map _ =
        some path
      have hrow' : db.posts.table.get ep.postId = some row := hrow
      rw [Table.get_modify,if_pos rfl,hrow',Option.map_some,Option.map_some,hcolumns]

/-- An update whose last column writes the path that the row has. -/
theorem held_updatePost {s : State} {path : String} (columns : List PostColumn) (e : String)
    (hpath : pathOf ep s = some (some path)) :
    Same (held ep e) s { s with
      db := execute s.db (.updatePost ep.postId (columns ++ [.unprocessedAudioPath (some path)])) } := by
  unfold execute
  split
  · rename_i db' hok
    obtain ⟨hnew,hsegments⟩ := pathOf_updatePost hok
    have hsame : pathOf ep { s with db := db' } = pathOf ep s := hnew.trans hpath.symm
    simp only [Same,held,hsame,hsegments]
  · exact Std.Refl.refl s

/-- A download that is held back is not removed. -/
theorem exec_removeUnprocessedAudio {s : State} {row : Post}
    (hrow : s.db.posts.get ep.postId = some row) (hsuppress : s.suppress = some row.guid) :
    exec (removeUnprocessedAudio host ep) s = (.ok ⟨⟩,{ s with suppress := none }) := by
  rw [removeUnprocessedAudio,exec_bind,exec_rowOf,hrow]
  simp only [exec_modify,hsuppress,if_true]

/-- With the download held back, the end of a run leaves it where it is. -/
theorem held_finalizeProcessing {s : State} {row : Post} {path : String} (processedPath e : String)
    (hrow : s.db.posts.get ep.postId = some row) (hsuppress : s.suppress = some row.guid)
    (hpath : row.unprocessedAudioPath = some path) (hne : path ≠ "") :
    Same (held ep e) s
      (exec (finalizeProcessing host ep course jobId processedPath) s).2 := by
  have hkept : (if s.suppress = some row.guid ∧ row.unprocessedAudioPath ≠ some "" then
      row.unprocessedAudioPath else none) = some path := by
    rw [if_pos ⟨hsuppress,by rw [hpath]; exact fun h => hne (Option.some.inj h)⟩,hpath]
  have hread : exec (rowOf ep) s = (.ok row,s) := by
    rw [exec_rowOf,hrow]
  rw [finalizeProcessing,exec_bind_ok hread,exec_get_bind,
    exec_bind_ok (exec_removeUnprocessedAudio hrow hsuppress),hkept]
  have hsuppressed : Same (held ep e) s { s with suppress := none } := rfl
  refine IsTrans.trans _ _ _ hsuppressed (exec_bind_keeps ?_ (fun _ => held_ignoresJobs.complete))
  obtain h | h := @exec_updatePostRow ep course .finalize
    ([.processedAudioPath (some processedPath)] ++
      course.results.map (fun c => .output c.1 c.2) ++ [.unprocessedAudioPath (some path)])
    { s with suppress := none }
  · rw [h]
    exact Std.Refl.refl _
  · rw [h]
    apply held_updatePost
    rw [pathOf,hrow,Option.map_some,hpath]

/-- So do the chapters and the end of a run together. -/
theorem held_end {s : State} {row : Post} {path processedPath : String}
    (hrow : s.db.posts.get ep.postId = some row) (hsuppress : s.suppress = some row.guid)
    (hpath : row.unprocessedAudioPath = some path) (hne : path ≠ "")
    (happart : host.resolve processedPath ≠ host.resolve path) :
    Same (held ep (host.resolve path)) s
      (exec (generateChapters host course jobId processedPath >>= fun _ =>
        finalizeProcessing host ep course jobId processedPath) s).2 := by
  have hchapters := @same_generateChapters host course jobId processedPath _ happart s
  have hheld : ∀ {t : State}, Same (beside (host.resolve path)) s t →
      Same (held ep (host.resolve path)) s t := by
    intro t h
    exact congrArg (fun b => (b.2.2.1,(b.2.1.get ep.postId).map Post.unprocessedAudioPath,b.2.2.2)) h
  obtain ⟨e,t,hexec,h⟩ | ⟨_,t,hexec,h⟩ :=
    exec_bind_cases (generateChapters host course jobId processedPath)
      (fun _ => finalizeProcessing host ep course jobId processedPath) s
  · rw [h]
    rw [hexec] at hchapters
    exact hheld hchapters
  · rw [h]
    rw [hexec] at hchapters
    have hposts : t.db.posts = s.db.posts := congrArg (fun b => b.2.1) hchapters
    have hkept : t.suppress = s.suppress := congrArg (fun b => b.1) hchapters
    apply IsTrans.trans _ _ _ (hheld hchapters)
    exact held_finalizeProcessing processedPath _ (hposts ▸ hrow) (hkept.trans hsuppress) hpath hne

/-- Where the download is, and the file there. -/
def download (ep : Episode) (e : String) (s : State) : Option (Option String) × Option (List UInt8) :=
  (pathOf ep s,s.files e)

theorem download_ignoresJobs {e : String} : IgnoresJobs (download ep e) := fun _ _ _ => rfl

/-- The outputs of a run are not its download. -/
theorem pathOf_outputs (outputs : List (OutputColumn × Option String)) (post : Post) :
    (applyPostColumns (outputs.map (fun c => .output c.1 c.2)) post).unprocessedAudioPath =
      post.unprocessedAudioPath := by
  induction outputs generalizing post with
  | nil => rfl
  | cons c outputs ih => exact ih ((PostColumn.output c.1 c.2).apply post)

theorem same_performWork {processedPath e : String} (h : host.resolve processedPath ≠ e) :
    Keeps (Same (download ep e)) (performWork host ep course jobId processedPath) := by
  refine keeps_bind download_ignoresJobs.updateJobStatus (fun _ => ?_)
  refine keeps_bind download_ignoresJobs.updateJobStatus (fun _ => ?_)
  refine keeps_bind download_ignoresJobs.updateJobStatus (fun _ => ?_)
  refine keeps_bind ?_ (fun _ => ?_)
  · apply keeps_modify
    intro s
    exact congrArg (fun path => (path,s.files e)) (Indexed.map_get_modify (applyPostColumns_id _)
      (applyPostColumns_key _) (pathOf_outputs course.work.outputs) ep.postId)
  refine keeps_bind ?_ (fun _ => ?_)
  · split
    · exact keeps_pure _
    · exact keeps_modify (fun s => congrArg (fun file => (pathOf ep s,file)) (files_writeFile h _ s))
  split
  · exact keeps_throw _
  · exact keeps_pure _

/-- After the guard the run goes on to its end, which leaves the retry what it is to find. -/
theorem ends_of_guarded {s t : State} {path processedPath : String}
    (hpath : pathOf ep s = some (some path)) (hne : path ≠ "")
    (hfile : (s.files (host.resolve path)).isSome)
    (happart : host.resolve processedPath ≠ host.resolve path)
    (hflag : ¬Flagged jobId s) (hguarded : Guarded host ep course s t) :
    Ends host ep course jobId s t ∧
      Ends host ep course jobId s
        (exec (generateChapters host course jobId processedPath >>= fun _ =>
          finalizeProcessing host ep course jobId processedPath) t).2 := by
  obtain ⟨u,row,hquiet,hsame,hfiles,hrow,hsuppress,hcreated⟩ := hguarded
  have hcreated' := hcreated
  obtain ⟨row',job,jobs,run,hrow',-,-,-,rfl⟩ := hcreated'
  obtain rfl : row = row' := Option.some.inj (hrow.symm.trans hrow')
  have hrowPath : row.unprocessedAudioPath = some path := by
    have h := hsame.trans hpath
    rw [pathOf,hrow] at h
    exact Option.some.inj h
  have hfile' : (u.files (host.resolve path)).isSome := by
    rwa [hfiles]
  refine ⟨Or.inr ⟨hflag,u,_,path,hquiet,hsame.trans hpath,hfile',hcreated,Std.Refl.refl _,
    Std.Refl.refl _⟩,Or.inr ⟨hflag,u,_,path,hquiet,hsame.trans hpath,hfile',hcreated,?_,?_⟩⟩
  · exact keeps_bind (quiet_generateChapters processedPath)
      (fun _ => quiet_finalizeProcessing processedPath) _
  · exact held_end hrow' hsuppress hrowPath hne happart

/-- The run under the lock. -/
theorem processLocked_ends {s : State} {path processedPath : String}
    (hpath : pathOf ep s = some (some path)) (hne : path ≠ "")
    (hfile : (s.files (host.resolve path)).isSome) :
    Ends host ep course jobId s (exec (processLocked host ep course jobId processedPath) s).2 := by
  rw [processLocked,exec_get_bind]
  split
  · exact Or.inl (quiet_adoptProcessed processedPath s)
  rename_i hnone
  have happart : host.resolve processedPath ≠ host.resolve path := by
    intro h
    apply hnone
    change ((s.files (host.resolve processedPath)).isSome || _) = true
    rw [h,hfile,Bool.true_or]
  refine ends_bind (quiet_performWork processedPath) (fun _ t hwork => ?_)
  have hdownload := @same_performWork host ep course jobId processedPath _ happart s
  rw [hwork] at hdownload
  have hpath' : pathOf ep t = some (some path) := (congrArg Prod.fst hdownload).trans hpath
  have hfile' : (t.files (host.resolve path)).isSome := by
    rwa [show t.files (host.resolve path) = s.files (host.resolve path) from
      congrArg Prod.snd hdownload]
  have hrest : Keeps Quiet (generateChapters host course jobId processedPath >>= fun _ =>
      finalizeProcessing host ep course jobId processedPath) :=
    keeps_bind (quiet_generateChapters processedPath)
      (fun _ => quiet_finalizeProcessing processedPath)
  obtain hguard | ⟨hflag,hguard⟩ := @evaluateZeroAdsGuard_spec host ep course jobId t
  · exact Or.inl (exec_bind_keeps hguard (fun _ => hrest))
  · obtain ⟨hstop,hend⟩ := ends_of_guarded hpath' hne hfile' happart hflag hguard
    obtain ⟨e,v,hexec,h⟩ | ⟨_,v,hexec,h⟩ := exec_bind_cases
      (evaluateZeroAdsGuard host ep course jobId) (fun _ => do
        generateChapters host course jobId processedPath
        finalizeProcessing host ep course jobId processedPath) t
    · rw [hexec] at hstop
      rw [h]
      exact hstop
    · rw [hexec] at hend
      rw [h]
      exact hend

end

end Podly.AutoRetry
