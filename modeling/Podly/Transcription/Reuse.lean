import Podly.Transcription.Completion

/-! When a transcript that is reused is the right one: what one run of the configured transcriber
has made of the file that is cut. -/
namespace Podly.Transcription
open Store Intervals Classifier

/-- The stored segments of a post are all that one run has returned, and of the file that is
there. -/
structure IsOutput (s : State) (postId : ℕ) (modelName : String) (output : Output) : Prop where
  mem : output ∈ s.outputs
  ofPost : output.postId = postId
  ofModel : output.modelName = modelName
  payload : (s.db.stored postId).map TranscriptSegment.payload = numberFrom 0 output.segments
  attempt : ∀ segment ∈ s.db.stored postId, segment.attempt = output.attempt
  audio : ∀ audio, s.db.audio postId = some audio → output.audio = audio

/-- Whatever transcriber is configured, a transcript that its check returns is the whole output of
one of its runs that came to its end, and of the file that is cut. -/
def ReusesRight (s : State) : Prop :=
  ∀ postId modelName segments, getReusableTranscription postId modelName s.db = some segments →
    ∃ output ∈ s.outputs, output.postId = postId ∧ output.modelName = modelName ∧
      segments.map TranscriptSegment.payload = numberFrom 0 output.segments ∧
      (∀ segment ∈ segments, segment.attempt = output.attempt) ∧
      ∀ audio, s.db.audio postId = some audio → output.audio = audio

/-- A successful call of the post says that so many segments are stored. -/
def Claims (db : Database) (postId count : ℕ) : Prop :=
  0 < count ∧ ∃ call ∈ db.calls.table.rows, call.postId = postId ∧ call.status = .success ∧
    call.lastSegmentSequenceNum = count - 1

instance (db : Database) (postId count : ℕ) : Decidable (Claims db postId count) :=
  inferInstanceAs (Decidable (_ ∧ _))

/-- No successful call outlives what it speaks of: a batch does not fill the segments up to the
number that a call of an earlier run says, and a file is only stored where no call says that the
segments there are whole, unless it is the file they were made from. -/
def KeepsNoStale (s : State) : Label → Prop
  | .download postId audio =>
    s.current = none → s.db.audio postId = none →
      Claims s.db postId (s.db.stored postId).length → ∀ output ∈ s.outputs,
        (∃ segment ∈ s.db.stored postId, segment.attempt = output.attempt) → output.audio = audio
  | .write => ∀ attempt segments words batch rest insertedCount, s.current = some attempt →
      attempt.stage = .storing segments words (batch::rest) insertedCount →
      ¬Claims s.db attempt.postId ((s.db.stored attempt.postId).length + batch.length)
  | _ => True

/-- Where a successful call says that the stored segments are whole, they are. -/
def Claimed (s : State) : Prop :=
  ∀ call ∈ s.db.calls.table.rows, call.status = .success →
    0 < (s.db.stored call.postId).length →
    call.lastSegmentSequenceNum = (s.db.stored call.postId).length - 1 →
    ∃ output, IsOutput s call.postId call.modelName output

/-- What is so of the run that goes on. -/
structure Underway (s : State) (attempt : Attempt) : Prop where
  begun : attempt.number < s.begun
  unfinished : ∀ output ∈ s.outputs, output.attempt ≠ attempt.number
  audio : ∀ audio, s.db.audio attempt.postId = some audio → attempt.audio = audio
  own : ∀ call ∈ s.db.calls.table.rows, call.id = attempt.modelCallId →
    call.postId = attempt.postId ∧ call.modelName = attempt.modelName ∧ call.status ≠ .success
  attempts : ∀ segments words rest insertedCount,
    attempt.stage = .storing segments words rest insertedCount →
      ∀ segment ∈ s.db.stored attempt.postId, segment.attempt = attempt.number
  stored : ∀ segments words rest insertedCount,
    attempt.stage = .storing segments words rest insertedCount →
      ∀ call ∈ s.db.calls.table.rows, call.id = attempt.modelCallId →
        (s.db.stored attempt.postId).map TranscriptSegment.payload ++ rest.flatten =
          numberFrom 0 segments ∧ insertedCount = (s.db.stored attempt.postId).length

/-- The invariant of the runs in which no stale call is kept. -/
structure Attributed (s : State) : Prop where
  begun : ∀ output ∈ s.outputs, output.attempt < s.begun
  underway : ∀ attempt, s.current = some attempt → Underway s attempt
  claimed : Claimed s

theorem existingWhisperCall_mem {postId : ℕ} {modelName : String} {db : Database}
    {call : ModelCall} (h : existingWhisperCall postId modelName db = some call) :
    call ∈ db.calls.table.rows ∧ call.postId = postId ∧ call.modelName = modelName ∧
      call.status = .success := by
  have hmem := (mem_sortByKey _ _ call).mp (List.mem_of_head? h)
  simpa using List.mem_filter.mp hmem

theorem getReusableTranscription_eq_some {postId : ℕ} {modelName : String} {db : Database}
    {segments : List TranscriptSegment}
    (h : getReusableTranscription postId modelName db = some segments) :
    ∃ call ∈ db.calls.table.rows, call.postId = postId ∧ call.modelName = modelName ∧
      call.status = .success ∧ segments = db.segmentsOf postId ∧
      0 < (db.stored postId).length ∧
      call.lastSegmentSequenceNum = (db.stored postId).length - 1 := by
  unfold getReusableTranscription at h
  split at h
  · cases h
  · rename_i call hcall
    obtain ⟨hmem,hpost,hmodel,hstatus⟩ := existingWhisperCall_mem hcall
    dsimp only at h
    split at h
    · cases h
    · rename_i hnonempty
      split at h
      · rename_i hlast
        rw [Database.length_segmentsOf] at hlast
        have hpos : 0 < (db.segmentsOf postId).length := List.length_pos_iff.mpr hnonempty
        rw [Database.length_segmentsOf] at hpos
        exact ⟨call,hmem,hpost,hmodel,hstatus,(Option.some.inj h).symm,hpos,hlast⟩
      · cases h

/-- Attributed rows are reused rightly. -/
theorem Claimed.reusesRight {s : State} (h : Claimed s) : ReusesRight s := by
  intro postId modelName segments hreuse
  obtain ⟨call,hcall,rfl,rfl,hstatus,rfl,hpos,hlast⟩ := getReusableTranscription_eq_some hreuse
  obtain ⟨output,hmem,hpost,hmodel,hpayload,hattempt,haudio⟩ := h call hcall hstatus hpos hlast
  rw [segmentsOf_of_payload hpayload]
  exact ⟨output,hmem,hpost,hmodel,hpayload,hattempt,haudio⟩

section
variable {s s' : State}

/-- An output stays one of its post while its segments and its file do. -/
theorem IsOutput.of_same {postId : ℕ} {modelName : String} {output : Output}
    (h : IsOutput s postId modelName output) (houtputs : s.outputs ⊆ s'.outputs)
    (hstored : s'.db.stored postId = s.db.stored postId)
    (haudio : ∀ audio, s'.db.audio postId = some audio → s.db.audio postId = some audio) :
    IsOutput s' postId modelName output :=
  ⟨houtputs h.mem,h.ofPost,h.ofModel,hstored ▸ h.payload,hstored ▸ h.attempt,
    fun audio h' => h.audio audio (haudio audio h')⟩

/-- Steps that make no call successful, and drop the segments of a post or leave them. -/
theorem Claimed.mono (h : Claimed s) (houtputs : s'.outputs = s.outputs)
    (hcalls : ∀ call ∈ s'.db.calls.table.rows, call.status = .success →
      call ∈ s.db.calls.table.rows)
    (hstored : ∀ postId, s'.db.stored postId = s.db.stored postId ∨ s'.db.stored postId = [])
    (haudio : ∀ postId audio, s'.db.audio postId = some audio →
      s.db.audio postId = some audio) : Claimed s' := by
  intro call hcall hstatus hpos hlast
  rcases hstored call.postId with hsame | hempty
  · rw [hsame] at hpos hlast
    obtain ⟨output,hout⟩ := h call (hcalls call hcall hstatus) hstatus hpos hlast
    exact ⟨output,hout.of_same (houtputs ▸ List.Subset.refl _) hsame (haudio call.postId)⟩
  · rw [hempty] at hpos
    exact absurd hpos (Nat.lt_irrefl 0)

/-- What a cleanup of rows and files leaves: segments of a post go with its calls. -/
structure Cleans (db db' : Database) : Prop where
  calls : ∀ call ∈ db'.calls.table.rows, call ∈ db.calls.table.rows
  stored : ∀ postId, db'.stored postId = db.stored postId ∨
    db'.stored postId = [] ∧ ∀ call ∈ db'.calls.table.rows, call.postId ≠ postId
  audio : ∀ postId audio, db'.audio postId = some audio → db.audio postId = some audio

theorem Underway.of_cleans {attempt : Attempt} {db : Database} (h : Underway s attempt)
    (hclean : Cleans s.db db) : Underway { s with db } attempt := by
  refine ⟨h.begun,h.unfinished,fun audio ha => h.audio audio (hclean.audio _ audio ha),
    fun call hcall hid => h.own call (hclean.calls call hcall) hid,?_,?_⟩
  · intro segments words rest insertedCount hstage segment hsegment
    rcases hclean.stored attempt.postId with hsame | ⟨hempty,-⟩
    · exact h.attempts _ _ _ _ hstage segment (hsame ▸ hsegment)
    · dsimp only at hsegment
      rw [hempty] at hsegment
      exact absurd hsegment List.not_mem_nil
  · intro segments words rest insertedCount hstage call hcall hid
    rcases hclean.stored attempt.postId with hsame | ⟨-,hgone⟩
    · dsimp only
      rw [hsame]
      exact h.stored _ _ _ _ hstage call (hclean.calls call hcall) hid
    · exact absurd (h.own call (hclean.calls call hcall) hid).1 (hgone call hcall)

theorem Attributed.of_cleans {db : Database} (h : Attributed s) (hclean : Cleans s.db db) :
    Attributed { s with db } := by
  refine ⟨h.begun,fun attempt hcurrent => (h.underway attempt hcurrent).of_cleans hclean,?_⟩
  refine h.claimed.mono rfl (fun call hcall _ => hclean.calls call hcall) ?_ hclean.audio
  intro postId
  rcases hclean.stored postId with hsame | ⟨hempty,-⟩
  · exact Or.inl hsame
  · exact Or.inr hempty

end

section
variable (db : Database) (postId : ℕ)

theorem audio_setAudio_none {postId' : ℕ} {audio : Audio}
    (h : (db.setAudio postId none).audio postId' = some audio) :
    db.audio postId' = some audio := by
  by_cases hpost : postId' = postId
  · subst hpost
    rw [Database.audio_setAudio_self] at h
    split at h <;> cases h
  · rwa [Database.audio_setAudio_of_ne _ _ hpost] at h

theorem cleans_setAudio : Cleans db (db.setAudio postId none) :=
  ⟨fun _ h => h,fun _ => Or.inl rfl,fun _ _ h => audio_setAudio_none db postId h⟩

theorem cleans_dropDerived (keep : ModelCall → Bool) : Cleans db (db.dropDerived postId keep) :=
  ⟨fun _ h => List.mem_of_mem_filter h,fun _ => Or.inl rfl,fun _ _ h => h⟩

theorem cleans_clear : Cleans db (clearPostProcessingData postId db) := by
  unfold clearPostProcessingData
  split
  · refine ⟨fun _ h => List.mem_of_mem_filter h,?_,?_⟩
    · intro postId'
      by_cases hpost : postId' = postId
      · refine Or.inr ⟨(db.filter_dropSegments postId postId').trans (if_pos hpost),?_⟩
        intro call hcall he
        have hkept := (List.mem_filter.mp hcall).2
        simp [he,hpost] at hkept
      · exact Or.inl ((db.filter_dropSegments postId postId').trans (if_neg hpost))
    · intro postId' audio h
      rw [← Database.audio_setWords db postId none postId']
      exact audio_setAudio_none _ postId h
  · exact ⟨fun _ h => h,fun _ => Or.inl rfl,fun _ _ h => h⟩

theorem cleans_clearKeepTranscript :
    Cleans db (clearPostProcessingDataKeepTranscript postId db) := by
  unfold clearPostProcessingDataKeepTranscript
  split
  · have hdrop := cleans_dropDerived db postId ModelCall.isWhisper
    exact ⟨hdrop.calls,hdrop.stored,fun _ _ h => audio_setAudio_none db postId h⟩
  · exact ⟨fun _ h => h,fun _ => Or.inl rfl,fun _ _ h => h⟩

theorem cleans_prepareForAutoRetry : Cleans db (preparePostForAutoRetry postId db) := by
  unfold preparePostForAutoRetry
  split
  · exact cleans_dropDerived db postId ModelCall.isWhisper
  · exact ⟨fun _ h => h,fun _ => Or.inl rfl,fun _ _ h => h⟩

end

section
variable {s : State}

theorem Attributed.download {postId : ℕ} {audio : Audio} (h : Attributed s)
    (hidle : s.current = none) (haudio : s.db.audio postId = none)
    (hkeep : KeepsNoStale s (.download postId audio)) :
    Attributed { s with db := s.db.setAudio postId (some audio) } := by
  refine ⟨h.begun,?_,?_⟩
  · intro attempt hcurrent
    rw [hidle] at hcurrent
    cases hcurrent
  · intro call hcall hstatus hpos hlast
    obtain ⟨output,hout⟩ := h.claimed call hcall hstatus hpos hlast
    refine ⟨output,hout.mem,hout.ofPost,hout.ofModel,hout.payload,hout.attempt,?_⟩
    intro audio' haudio'
    by_cases hpost : call.postId = postId
    · subst hpost
      rw [Database.audio_setAudio_self] at haudio'
      split at haudio'
      · cases haudio'
        obtain ⟨segment,hsegment⟩ := List.exists_mem_of_length_pos hpos
        exact hkeep hidle haudio ⟨hpos,call,hcall,rfl,hstatus,hlast⟩ output hout.mem
          ⟨segment,hsegment,hout.attempt segment hsegment⟩
      · cases haudio'
    · rw [Database.audio_setAudio_of_ne _ _ hpost] at haudio'
      exact hout.audio audio' haudio'

theorem Attributed.transcribe {postId : ℕ} {modelName : String} {now : ℤ} {audio : Audio}
    (h : Attributed s) (haudio : s.db.audio postId = some audio) :
    Attributed { s with
      db := (upsertWhisperModelCall postId modelName now s.db).2,
      begun := s.begun + 1,
      current := some ⟨s.begun,postId,modelName,
        (upsertWhisperModelCall postId modelName now s.db).1,audio,.transcribing⟩ } := by
  refine ⟨fun output hout => Nat.lt_succ_of_lt (h.begun output hout),?_,?_⟩
  · intro attempt hcurrent
    obtain rfl := Option.some.inj hcurrent
    obtain ⟨own,hown,hid,hkey,hpending⟩ := upsertWhisperModelCall_own postId modelName now s.db
    refine ⟨Nat.lt_succ_self _,fun output hout => (h.begun output hout).ne,?_,?_,?_,?_⟩
    · intro audio' haudio'
      exact Option.some.inj (haudio.symm.trans haudio')
    · intro call hcall hcallid
      obtain rfl := Table.eq_of_key_eq hcall hown (hcallid.trans hid.symm)
      simp only [ModelCall.key,placeholderKey,Prod.mk.injEq,CallKey.mk.injEq] at hkey
      refine ⟨hkey.1,hkey.2.2.2,?_⟩
      rw [hpending]
      exact fun hne => by cases hne
    · intro _ _ _ _ hstage
      cases hstage
    · intro _ _ _ _ hstage
      cases hstage
  · exact h.claimed.mono rfl (fun call hcall hstatus =>
      mem_of_mem_upsertWhisperModelCall now s.db hcall hstatus) (fun _ => Or.inl rfl)
      (fun _ _ haudio' => haudio')

theorem Attributed.failed {attempt : Attempt} (h : Attributed s) (error : String) :
    Attributed (s.failed attempt error) := by
  refine ⟨h.begun,?_,?_⟩
  · intro attempt' hcurrent
    cases hcurrent
  · exact h.claimed.mono rfl (fun call hcall hstatus => mem_of_mem_markModelCallFailed hcall hstatus)
      (fun _ => Or.inl rfl) (fun _ _ haudio => haudio)

theorem Attributed.interrupt (h : Attributed s) : Attributed { s with current := none } := by
  refine ⟨h.begun,?_,?_⟩
  · intro attempt hcurrent
    cases hcurrent
  · exact h.claimed.mono rfl (fun _ hcall _ => hcall) (fun _ => Or.inl rfl)
      (fun _ _ haudio => haudio)

theorem Attributed.start {attempt : Attempt} {batches : List (List Segment)}
    {words : Option (List SegmentWords)} {calls : Indexed ModelCall.id ModelCall.key}
    (h : Attributed s) (hcurrent : s.current = some attempt)
    (hcalls : s.db.calls.update attempt.modelCallId ModelCall.restart ModelCall.restart_id =
      some calls) :
    Attributed { s with
      db := s.db.started attempt.postId calls,
      current := some { attempt with
        stage := .storing batches.flatten words (batchesFrom 0 batches) 0 } } := by
  have hunder := h.underway attempt hcurrent
  have hempty : (s.db.started attempt.postId calls).stored attempt.postId = [] := by
    rw [stored_started,if_pos rfl]
  refine ⟨h.begun,?_,?_⟩
  · intro attempt' hcurrent'
    obtain rfl := Option.some.inj hcurrent'
    refine ⟨hunder.begun,hunder.unfinished,?_,?_,?_,?_⟩
    · intro audio haudio
      rw [audio_started] at haudio
      exact hunder.audio audio haudio
    · intro call hcall hid
      obtain ⟨row,hrow,rfl⟩ := (Indexed.mem_update hcalls).mp hcall
      by_cases hrowid : row.id = attempt.modelCallId
      · rw [if_pos hrowid]
        obtain ⟨hpost,hmodel,-⟩ := hunder.own row hrow hrowid
        exact ⟨hpost,hmodel,fun hne => by cases hne⟩
      · rw [if_neg hrowid] at hid
        exact absurd hid hrowid
    · intro _ _ _ _ _ segment hsegment
      dsimp only at hsegment
      rw [hempty] at hsegment
      exact absurd hsegment List.not_mem_nil
    · intro segments words rest insertedCount hstage call hcall hid
      cases hstage
      dsimp only
      rw [hempty,flatten_batchesFrom]
      exact ⟨rfl,rfl⟩
  · refine h.claimed.mono rfl ?_ ?_ (fun postId audio haudio => audio_started _ _ _ _ ▸ haudio)
    · intro call hcall hstatus
      obtain ⟨row,hrow,rfl⟩ := (Indexed.mem_update hcalls).mp hcall
      by_cases hrowid : row.id = attempt.modelCallId
      · rw [if_pos hrowid] at hstatus
        cases hstatus
      · rwa [if_neg hrowid]
    · intro postId
      dsimp only
      rw [stored_started]
      split
      · exact Or.inr rfl
      · exact Or.inl rfl

theorem Attributed.store {attempt : Attempt} {segments : List Segment}
    {words : Option (List SegmentWords)} {batch : List Payload} {rest : List (List Payload)}
    {insertedCount : ℕ} (h : Attributed s) (hcurrent : s.current = some attempt)
    (hstage : attempt.stage = .storing segments words (batch::rest) insertedCount)
    (hkeep : KeepsNoStale s .write) :
    Attributed { s with
      db := s.db.addSegments attempt.postId attempt.number batch,
      current := some { attempt with
        stage := .storing segments words rest (insertedCount + batch.length) } } := by
  have hunder := h.underway attempt hcurrent
  refine ⟨h.begun,?_,?_⟩
  · intro attempt' hcurrent'
    obtain rfl := Option.some.inj hcurrent'
    refine ⟨hunder.begun,hunder.unfinished,hunder.audio,hunder.own,?_,?_⟩
    · intro _ _ _ _ _ segment hsegment
      exact Database.attempt_of_mem_addSegments hsegment (hunder.attempts _ _ _ _ hstage)
    · intro segments' words' rest' insertedCount' hstage' call hcall hid
      cases hstage'
      obtain ⟨hpayload,hcount⟩ := hunder.stored _ _ _ _ hstage call hcall hid
      refine ⟨?_,?_⟩
      · rw [← hpayload,List.flatten_cons,← List.append_assoc]
        dsimp only
        rw [Database.payload_stored_addSegments]
      · dsimp only
        rw [Database.length_stored_addSegments,hcount]
  · intro call hcall hstatus hpos hlast
    by_cases hpost : call.postId = attempt.postId
    · dsimp only at hpos hlast
      rw [hpost,Database.length_stored_addSegments] at hpos hlast
      exact absurd ⟨hpos,call,hcall,hpost,hstatus,hlast⟩
        (hkeep attempt segments words batch rest insertedCount hcurrent hstage)
    · have hsame := s.db.stored_addSegments_of_ne attempt.number batch hpost
      dsimp only at hpos hlast
      rw [hsame] at hpos hlast
      obtain ⟨output,hout⟩ := h.claimed call hcall hstatus hpos hlast
      exact ⟨output,hout.of_same (List.Subset.refl _) hsame (fun _ haudio => haudio)⟩

theorem Attributed.finish {attempt : Attempt} {segments : List Segment}
    {words : Option (List SegmentWords)} {insertedCount : ℕ}
    {calls : Indexed ModelCall.id ModelCall.key} (h : Attributed s)
    (hcurrent : s.current = some attempt)
    (hstage : attempt.stage = .storing segments words [] insertedCount)
    (hcalls : s.db.calls.update attempt.modelCallId (ModelCall.succeed insertedCount)
      (ModelCall.succeed_id insertedCount) = some calls) :
    Attributed { s with
      db := s.db.succeeded attempt.postId words calls, current := none,
      outputs := ⟨attempt.number,attempt.postId,attempt.modelName,attempt.audio,segments⟩::
        s.outputs } := by
  have hunder := h.underway attempt hcurrent
  have haudio : ∀ postId audio, (s.db.succeeded attempt.postId words calls).audio postId =
      some audio → s.db.audio postId = some audio :=
    fun postId audio haudio => audio_succeeded _ _ _ _ ▸ haudio
  refine ⟨?_,?_,?_⟩
  · intro output hout
    rcases List.mem_cons.mp hout with rfl | hout
    · exact hunder.begun
    · exact h.begun output hout
  · intro attempt' hcurrent'
    cases hcurrent'
  · intro call hcall hstatus hpos hlast
    obtain ⟨row,hrow,rfl⟩ := (Indexed.mem_update hcalls).mp hcall
    by_cases hid : row.id = attempt.modelCallId
    · rw [if_pos hid]
      obtain ⟨hpost,hmodel,-⟩ := hunder.own row hrow hid
      obtain ⟨hpayload,-⟩ := hunder.stored _ _ _ _ hstage row hrow hid
      refine ⟨_,List.mem_cons_self,hpost.symm,hmodel.symm,?_,?_,?_⟩
      · have hwhole := (List.append_nil _).symm.trans hpayload
        rw [← hpost] at hwhole
        exact hwhole
      · intro segment hsegment
        refine hunder.attempts _ _ _ _ hstage segment ?_
        rw [← hpost]
        exact hsegment
      · intro audio haudio'
        refine hunder.audio audio ?_
        rw [← hpost]
        exact haudio _ audio haudio'
    · rw [if_neg hid] at hstatus hpos hlast ⊢
      obtain ⟨output,hout⟩ := h.claimed row hrow hstatus hpos hlast
      exact ⟨output,hout.of_same (List.subset_cons_self _ _) rfl (haudio row.postId)⟩

/-- A step that keeps no stale call keeps the rows attributed. -/
theorem Attributed.step {label : Label} (h : Attributed s) (hkeep : KeepsNoStale s label) :
    Attributed (step s label) := by
  have hmoves := step_moves s label
  generalize Transcription.step s label = s' at hmoves
  cases hmoves with
  | idle => exact h
  | download hidle haudio => exact h.download hidle haudio hkeep
  | transcribe hidle haudio => exact h.transcribe haudio
  | fail error hcurrent => exact h.failed error
  | start hcurrent hcalls => exact h.start hcurrent hcalls
  | store hcurrent hstage => exact h.store hcurrent hstage hkeep
  | finish hcurrent hstage hcalls => exact h.finish hcurrent hstage hcalls
  | interrupt => exact h.interrupt
  | removeAudio => exact h.of_cleans (cleans_setAudio _ _)
  | clear => exact h.of_cleans (cleans_clear _ _)
  | clearKeepTranscript => exact h.of_cleans (cleans_clearKeepTranscript _ _)
  | prepareForAutoRetry => exact h.of_cleans (cleans_prepareForAutoRetry _ _)

end

theorem attributed_initial (posts : Table Post.id) : Attributed (State.initial posts) := by
  refine ⟨?_,?_,?_⟩
  · intro output hout
    cases hout
  · intro attempt hcurrent
    cases hcurrent
  · intro call hcall
    cases hcall

/-- In a run that keeps no stale call, every state it comes through reuses the right transcript. -/
theorem reusesRight_run (posts : Table Post.id) {labels : List Label}
    (h : AllSteps step KeepsNoStale (State.initial posts) labels) {before : List Label}
    (hbefore : before <+: labels) : ReusesRight (run step (State.initial posts) before) := by
  obtain ⟨after,rfl⟩ := hbefore
  have hattributed := AllSteps.invariant (I := Attributed)
    (fun s label hkeep hs => hs.step hkeep) (attributed_initial posts) (allSteps_append.mp h).1
  exact hattributed.claimed.reusesRight

/-- Where no call is successful yet, none is stale. -/
theorem keepsNoStale_of_no_success {s : State} (label : Label)
    (h : ∀ call ∈ s.db.calls.table.rows, call.status ≠ .success) : KeepsNoStale s label := by
  have hclaims : ∀ postId count, ¬Claims s.db postId count := by
    rintro postId count ⟨-,call,hcall,-,hstatus,-⟩
    exact h call hcall hstatus
  cases label with
  | download postId audio =>
    intro _ _ hclaim
    exact absurd hclaim (hclaims _ _)
  | write =>
    intro _ _ _ _ _ _ _ _
    exact hclaims _ _
  | _ => exact trivial

/-- A first transcription. -/
def transcribed : List Label :=
  [.download 1 0,.transcribe 1 "a" 0,.start [[spoken "x"]] none,.write,.write]

theorem reusesRight_transcribed :
    AllSteps step KeepsNoStale (State.initial onePost) transcribed ∧
      transcribed <+: transcribed ∧
      ReusesRight (run step (State.initial onePost) transcribed) := by
  have h : AllSteps step KeepsNoStale (State.initial onePost) transcribed :=
    ⟨keepsNoStale_of_no_success _ (by decide),trivial,trivial,
      keepsNoStale_of_no_success _ (by decide),keepsNoStale_of_no_success _ (by decide),trivial⟩
  exact ⟨h,List.prefix_refl _,reusesRight_run onePost h (List.prefix_refl _)⟩

/-- Another transcriber is cut off as soon as it has stored as many segments. -/
def cutOff : List Label :=
  transcribed ++ [.transcribe 1 "b" 1,.start [[spoken "x"],[spoken "y"]] none,.write,.interrupt]

/-- The episode is reprocessed with its transcript, and its file comes anew. -/
def redownloaded : List Label := transcribed ++ [.clearKeepTranscript 1,.download 1 1]

/-- The segments of a run that was cut off pass as those of a run before it, and the segments of a
file that is gone as those of the next one. -/
theorem not_reusesRight_cutOff_redownloaded :
    ¬ReusesRight (run step (State.initial onePost) cutOff) ∧
      ¬ReusesRight (run step (State.initial onePost) redownloaded) := by
  constructor
  · intro h
    have hreuse : getReusableTranscription 1 "a" (run step (State.initial onePost) cutOff).db =
        some [⟨1,1,⟨0,0,10,"x",none⟩,1⟩] := by decide
    have houtputs : (run step (State.initial onePost) cutOff).outputs =
        [⟨0,1,"a",0,[spoken "x"]⟩] := by decide
    obtain ⟨output,hmem,-,-,-,hattempt,-⟩ := h 1 "a" _ hreuse
    rw [houtputs,List.mem_singleton] at hmem
    subst hmem
    exact absurd (hattempt _ List.mem_cons_self) (by decide)
  · intro h
    have hreuse : getReusableTranscription 1 "a"
        (run step (State.initial onePost) redownloaded).db =
          some [⟨1,1,⟨0,0,10,"x",none⟩,0⟩] := by decide
    have houtputs : (run step (State.initial onePost) redownloaded).outputs =
        [⟨0,1,"a",0,[spoken "x"]⟩] := by decide
    obtain ⟨output,hmem,-,-,-,-,haudio⟩ := h 1 "a" _ hreuse
    rw [houtputs,List.mem_singleton] at hmem
    subst hmem
    exact absurd (haudio 1 (by decide)) (by decide)

end Podly.Transcription
