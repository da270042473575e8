import Podly.Transcription.Runs

/-! When the writer actions of a transcription go through, whatever earlier runs have left. -/
namespace Podly.Transcription
open Store Classifier

/-- The batches of a transcription one after another, and how many segments they stored. -/
def insertBatches (postId attempt : ℕ) :
    List (List Payload) → Database → Except String (ℕ × Database)
  | [], db => .ok (0,db)
  | batch::batches, db =>
    match insertTranscriptSegments postId attempt batch db with
    | .error e => .error e
    | .ok (inserted,db) =>
      match insertBatches postId attempt batches db with
      | .error e => .error e
      | .ok (more,db) => .ok (inserted + more,db)

/-- `_persist_transcription_chunks`. -/
def persistTranscriptionChunks (postId modelCallId attempt : ℕ) (batches : List (List Segment))
    (words : Option (List SegmentWords)) (db : Database) : Except String Database :=
  match startTranscriptionReplace postId modelCallId db with
  | .error e => .error e
  | .ok (_,db) =>
    match insertBatches postId attempt (batchesFrom 0 batches) db with
    | .error e => .error e
    | .ok (insertedCount,db) =>
      match finishTranscriptionReplace postId modelCallId insertedCount words db with
      | .error e => .error e
      | .ok (_,db) => .ok db

/-- The writer actions of one transcription: the id of its call, and what they end with. -/
def retranscribe (postId : ℕ) (modelName : String) (now : ℤ) (attempt : ℕ)
    (batches : List (List Segment)) (words : Option (List SegmentWords)) (db : Database) :
    ℕ × Except String Database :=
  let (modelCallId,db) := upsertWhisperModelCall postId modelName now db
  (modelCallId,persistTranscriptionChunks postId modelCallId attempt batches words db)

/-- A transcription is stored: its segments and no others under their numbers, and its call. -/
def Completes (postId : ℕ) (modelName : String) (now : ℤ) (attempt : ℕ)
    (batches : List (List Segment)) (words : Option (List SegmentWords)) (db : Database) : Prop :=
  ∃ modelCallId db',
    retranscribe postId modelName now attempt batches words db = (modelCallId,.ok db') ∧
    (db'.segmentsOf postId).map TranscriptSegment.payload = numberFrom 0 batches.flatten ∧
    ∃ call, db'.calls.get modelCallId = some call ∧ call.status = .success ∧
      call.key = (postId,⟨0,batches.flatten.length - 1,modelName⟩)

section
variable {postId modelCallId attempt : ℕ} {modelName : String} {now : ℤ} {db : Database}

/-- Batches go through as one list. -/
theorem insertBatches_eq (batches : List (List Payload)) (hpost : db.HasPost postId) :
    insertBatches postId attempt batches db =
      .ok (batches.flatten.length,db.addSegments postId attempt batches.flatten) := by
  induction batches generalizing db with
  | nil => rfl
  | cons batch batches ih =>
    have hnext : (db.addSegments postId attempt batch).HasPost postId := hpost
    have hinsert : insertTranscriptSegments postId attempt batch db =
        .ok (batch.length,db.addSegments postId attempt batch) := withPost_of_hasPost hpost _
    have hboth : (db.addSegments postId attempt batch).addSegments postId attempt
        batches.flatten = db.addSegments postId attempt (batch ++ batches.flatten) := by
      simp only [Database.addSegments,Table.appendAll_append]
    simp only [insertBatches,hinsert,ih hnext,hboth,List.flatten_cons,List.length_append]

theorem ModelCall.restart_key {call : ModelCall}
    (hkey : call.key = placeholderKey postId modelName) :
    call.restart.key = placeholderKey postId modelName := by
  simp only [key,placeholderKey,Prod.mk.injEq,CallKey.mk.injEq] at hkey
  simp only [key,placeholderKey,restart,hkey]

/-- The key that the end of a replacement moves a call to. -/
theorem ModelCall.succeed_key {call : ModelCall} (segmentCount : ℕ)
    (hkey : call.key = placeholderKey postId modelName) :
    (call.succeed segmentCount).key = (postId,⟨0,segmentCount - 1,modelName⟩) := by
  simp only [key,placeholderKey,Prod.mk.injEq,CallKey.mk.injEq] at hkey
  simp only [key,succeed,hkey]

/-- The replacement of a call that waits under the placeholder key starts. -/
theorem exists_startTranscriptionReplace {own : ModelCall} (hpost : db.HasPost postId)
    (hown : own ∈ db.calls.table.rows) (hkey : own.key = placeholderKey postId modelName) :
    ∃ calls, db.calls.update own.id ModelCall.restart ModelCall.restart_id = some calls ∧
      startTranscriptionReplace postId own.id db =
        .ok ((db.stored postId).length,db.started postId calls) := by
  have hget : db.calls.get own.id = some own := Table.get_eq_some.mpr ⟨hown,rfl⟩
  have hrestart : own.restart.key = own.key := (ModelCall.restart_key hkey).trans hkey.symm
  obtain ⟨calls,hcalls⟩ := Indexed.exists_update_of_index_eq hget hrestart
  refine ⟨calls,hcalls,?_⟩
  rw [startTranscriptionReplace,withPost_of_hasPost hpost,hcalls]

/-- A replacement ends unless another call of the post and the model has the key it moves to. -/
theorem finishTranscriptionReplace_eq_error_iff {own : ModelCall} (segmentCount : ℕ)
    (words : Option (List SegmentWords)) (hpost : db.HasPost postId)
    (hown : own ∈ db.calls.table.rows) (hkey : own.key = placeholderKey postId modelName) :
    (∃ e, finishTranscriptionReplace postId own.id segmentCount words db = .error e) ↔
      ∃ call ∈ db.calls.table.rows, call.id ≠ own.id ∧
        call.key = (postId,⟨0,segmentCount - 1,modelName⟩) := by
  have hget : db.calls.get own.id = some own := Table.get_eq_some.mpr ⟨hown,rfl⟩
  have hiff : db.calls.update own.id (ModelCall.succeed segmentCount)
      (ModelCall.succeed_id segmentCount) = none ↔ ∃ call ∈ db.calls.table.rows,
        call.id ≠ own.id ∧ call.key = (own.succeed segmentCount).key :=
    Indexed.update_eq_none_iff hget
  rw [ModelCall.succeed_key segmentCount hkey] at hiff
  rw [finishTranscriptionReplace,withPost_of_hasPost hpost]
  refine Iff.trans ?_ hiff
  cases db.calls.update own.id (ModelCall.succeed segmentCount)
    (ModelCall.succeed_id segmentCount) <;> simp

/-- The rows that a start leaves beside its own. -/
theorem mem_started_of_ne {own call : ModelCall} {calls : Indexed ModelCall.id ModelCall.key}
    (hcalls : db.calls.update own.id ModelCall.restart ModelCall.restart_id = some calls)
    (hid : call.id ≠ own.id) : call ∈ calls.table.rows ↔ call ∈ db.calls.table.rows := by
  rw [Indexed.mem_update hcalls]
  constructor
  · rintro ⟨row,hrow,rfl⟩
    split at hid
    · rename_i hsame
      exact absurd hsame hid
    · rename_i hne
      rw [if_neg hne]
      exact hrow
  · intro hcall
    exact ⟨call,hcall,if_neg hid⟩

/-- The key a call moves to is taken exactly when a run before has left it, and the run before is
not one without segments, whose call is found again under the placeholder key. -/
theorem exists_blocking_iff {own : ModelCall} {calls : Indexed ModelCall.id ModelCall.key} {n : ℕ}
    (hown : own ∈ (upsertWhisperModelCall postId modelName now db).2.calls.table.rows)
    (hkey : own.key = placeholderKey postId modelName)
    (hcalls : (upsertWhisperModelCall postId modelName now db).2.calls.update own.id
      ModelCall.restart ModelCall.restart_id = some calls) :
    (∃ call ∈ calls.table.rows, call.id ≠ own.id ∧ call.key = (postId,⟨0,n - 1,modelName⟩)) ↔
      n ≠ 0 ∧ ∃ call ∈ db.calls.table.rows, call.key = (postId,⟨0,n - 1,modelName⟩) := by
  have hplaceholder : ∀ call : ModelCall, call.key = (postId,⟨0,n - 1,modelName⟩) →
      (call.key = placeholderKey postId modelName ↔ n = 0) := by
    intro call hcall
    rw [hcall]
    simp only [placeholderKey,Prod.mk.injEq,CallKey.mk.injEq,true_and,and_true]
    omega
  constructor
  · rintro ⟨call,hcall,hid,hcallkey⟩
    rw [mem_started_of_ne hcalls hid] at hcall
    have hn : n ≠ 0 := by
      intro hn
      have hsame : call.key = own.key := ((hplaceholder call hcallkey).mpr hn).trans hkey.symm
      exact hid (congrArg ModelCall.id (Indexed.eq_of_index_eq hcall hown hsame))
    have hne : call.key ≠ placeholderKey postId modelName :=
      fun h => hn ((hplaceholder call hcallkey).mp h)
    exact ⟨hn,call,(mem_upsertWhisperModelCall_of_ne now db hne).mp hcall,hcallkey⟩
  · rintro ⟨hn,call,hcall,hcallkey⟩
    have hne : call.key ≠ placeholderKey postId modelName :=
      fun h => hn ((hplaceholder call hcallkey).mp h)
    have hmem := (mem_upsertWhisperModelCall_of_ne now db hne).mpr hcall
    have hid : call.id ≠ own.id := by
      intro hid
      rw [Table.eq_of_key_eq hmem hown hid] at hne
      exact hne hkey
    exact ⟨call,(mem_started_of_ne hcalls hid).mpr hmem,hid,hcallkey⟩

variable {batches : List (List Segment)} {words : Option (List SegmentWords)}

/-- A replacement that has ended has stored its segments and its call. -/
theorem completes_of_finish {own : ModelCall} {count : ℕ} {db' : Database}
    (hown : own ∈ db.calls.table.rows) (hkey : own.key = placeholderKey postId modelName)
    (hempty : db.stored postId = [])
    (h : finishTranscriptionReplace postId own.id batches.flatten.length words
      (db.addSegments postId attempt (numberFrom 0 batches.flatten)) = .ok (count,db')) :
    (db'.segmentsOf postId).map TranscriptSegment.payload = numberFrom 0 batches.flatten ∧
    ∃ call, db'.calls.get own.id = some call ∧ call.status = .success ∧
      call.key = (postId,⟨0,batches.flatten.length - 1,modelName⟩) := by
  obtain ⟨calls,hcalls,rfl⟩ := finishTranscriptionReplace_eq_ok h
  constructor
  · have hstored : (((db.addSegments postId attempt (numberFrom 0 batches.flatten)).succeeded postId
        words calls).stored postId).map TranscriptSegment.payload = numberFrom 0 batches.flatten :=
      (db.payload_stored_addSegments postId attempt _).trans (by rw [hempty]; rfl)
    rw [segmentsOf_of_payload hstored]
    exact hstored
  · have hget : db.calls.get own.id = some own := Table.get_eq_some.mpr ⟨hown,rfl⟩
    exact ⟨own.succeed batches.flatten.length,Indexed.get_update hcalls hget,rfl,
      ModelCall.succeed_key _ hkey⟩

/-- What a replacement finds when its start has been written: its own call under the placeholder
key, no segments, and the calls that its end has to get past. -/
structure Waiting (postId : ℕ) (modelName : String) (db : Database) (own : ModelCall)
    (started : Database) : Prop where
  hasPost : started.HasPost postId
  mem : own ∈ started.calls.table.rows
  key : own.key = placeholderKey postId modelName
  empty : started.stored postId = []
  blocking_iff : ∀ n : ℕ, (∃ call ∈ started.calls.table.rows, call.id ≠ own.id ∧
      call.key = (postId,⟨0,n - 1,modelName⟩)) ↔
    n ≠ 0 ∧ ∃ call ∈ db.calls.table.rows, call.key = (postId,⟨0,n - 1,modelName⟩)

/-- After the start nothing but the end of the replacement can fail. -/
theorem exists_waiting (modelName : String) (now : ℤ) (attempt : ℕ) (batches : List (List Segment))
    (words : Option (List SegmentWords)) (hpost : db.HasPost postId) : ∃ own started,
    Waiting postId modelName db own started ∧
    retranscribe postId modelName now attempt batches words db =
      (own.id,(finishTranscriptionReplace postId own.id batches.flatten.length words
        (started.addSegments postId attempt (numberFrom 0 batches.flatten))).map Prod.snd) := by
  obtain ⟨own,hown,hid,hkey,-⟩ := upsertWhisperModelCall_own postId modelName now db
  have hpost' : (upsertWhisperModelCall postId modelName now db).2.HasPost postId := hpost
  obtain ⟨calls,hcalls,hstart⟩ := exists_startTranscriptionReplace hpost' hown hkey
  have hstarted : ((upsertWhisperModelCall postId modelName now db).2.started postId
      calls).HasPost postId := (hasPost_started _ _ _).mpr hpost'
  refine ⟨own.restart,_,⟨hstarted,?_,ModelCall.restart_key hkey,?_,?_⟩,?_⟩
  · exact (Indexed.mem_update hcalls).mpr ⟨own,hown,if_pos rfl⟩
  · rw [stored_started,if_pos rfl]
  · intro n
    exact @exists_blocking_iff postId modelName now db own calls n hown hkey hcalls
  · simp only [retranscribe,persistTranscriptionChunks]
    rw [← hid,hstart]
    dsimp only
    rw [insertBatches_eq _ hstarted,flatten_batchesFrom,length_numberFrom]
    dsimp only [ModelCall.restart]
    cases finishTranscriptionReplace postId own.id batches.flatten.length words _ <;> rfl

/-- A transcription is stored exactly when no other call has the key its own call moves to. -/
theorem completes_iff_of_hasPost (hpost : db.HasPost postId) :
    Completes postId modelName now attempt batches words db ↔ batches.flatten = [] ∨
      ∀ call ∈ db.calls.table.rows,
        call.key ≠ (postId,⟨0,batches.flatten.length - 1,modelName⟩) := by
  obtain ⟨own,started,hwaiting,hretranscribe⟩ :=
    exists_waiting modelName now attempt batches words hpost
  have hfree : (batches.flatten = [] ∨ ∀ call ∈ db.calls.table.rows,
      call.key ≠ (postId,⟨0,batches.flatten.length - 1,modelName⟩)) ↔
      ¬∃ e, finishTranscriptionReplace postId own.id batches.flatten.length words
        (started.addSegments postId attempt (numberFrom 0 batches.flatten)) = .error e := by
    have herror : (∃ e, finishTranscriptionReplace postId own.id batches.flatten.length words
        (started.addSegments postId attempt (numberFrom 0 batches.flatten)) = .error e) ↔
        ∃ call ∈ started.calls.table.rows, call.id ≠ own.id ∧
          call.key = (postId,⟨0,batches.flatten.length - 1,modelName⟩) :=
      finishTranscriptionReplace_eq_error_iff _ _ hwaiting.hasPost hwaiting.mem hwaiting.key
    rw [herror,hwaiting.blocking_iff,ne_eq,List.length_eq_zero_iff]
    push Not
    exact or_iff_not_imp_left
  rw [hfree,Completes,hretranscribe]
  cases hresult : finishTranscriptionReplace postId own.id batches.flatten.length words
      (started.addSegments postId attempt (numberFrom 0 batches.flatten)) with
  | error e =>
    constructor
    · rintro ⟨id,db',hdb',-⟩
      cases hdb'
    · intro h
      exact absurd ⟨e,rfl⟩ h
  | ok result =>
    refine ⟨?_,fun _ => ?_⟩
    · rintro - ⟨e,he⟩
      cases he
    · exact ⟨own.id,result.2,rfl,
        completes_of_finish hwaiting.mem hwaiting.key hwaiting.empty hresult⟩

end

section
variable {segments : List Segment} {words : Option (List SegmentWords)}

/-- A run of the worker writes its batches and its end as the sequence does. -/
theorem run_write (attempt : Attempt) {rest : List (List Payload)} {insertedCount more count : ℕ} {s : State}
    {stored db' : Database}
    (hcurrent : s.current =
      some { attempt with stage := .storing segments words rest insertedCount })
    (hinsert : insertBatches attempt.postId attempt.number rest s.db = .ok (more,stored))
    (hfinish : finishTranscriptionReplace attempt.postId attempt.modelCallId
      (insertedCount + more) words stored = .ok (count,db')) :
    (run step s (List.replicate (rest.length + 1) .write)).db = db' := by
  induction rest generalizing s insertedCount more with
  | nil =>
    cases hinsert
    simp only [List.length_nil,Nat.zero_add,List.replicate_one,run_cons,run_nil,step,hcurrent,
      State.write]
    rw [Nat.add_zero] at hfinish
    rw [hfinish]
  | cons batch rest ih =>
    unfold insertBatches at hinsert
    split at hinsert
    · cases hinsert
    · rename_i inserted db₁ hbatch
      split at hinsert
      · cases hinsert
      · rename_i more' db₂ hrest
        cases hinsert
        rw [List.length_cons,List.replicate_succ,run_cons]
        have hstep : step s .write = { s with
            db := db₁, current := some { attempt with
              stage := .storing segments words rest (insertedCount + inserted) } } := by
          simp only [step,hcurrent,State.write,hbatch]
        rw [hstep]
        exact ih rfl hrest (Nat.add_assoc insertedCount inserted more' ▸ hfinish)

/-- A job that finds no transcript to reuse goes through the sequence of a transcription. -/
theorem run_retranscribe {s : State} {postId modelCallId : ℕ} {modelName : String} {now : ℤ}
    {audio : Audio} {batches : List (List Segment)} {db' : Database} (hidle : s.current = none)
    (haudio : s.db.audio postId = some audio)
    (hreuse : getReusableTranscription postId modelName s.db = none)
    (h : retranscribe postId modelName now s.begun batches words s.db = (modelCallId,.ok db')) :
    (run step s (.transcribe postId modelName now::.start batches words::
      List.replicate ((batchesFrom 0 batches).length + 1) .write)).db = db' := by
  have hpersist := congrArg Prod.snd h
  simp only [retranscribe] at hpersist
  generalize hattempt : (⟨s.begun,postId,modelName,
    (upsertWhisperModelCall postId modelName now s.db).1,audio,.transcribing⟩ : Attempt) = attempt
  have htranscribe : step s (.transcribe postId modelName now) = { s with
      db := (upsertWhisperModelCall postId modelName now s.db).2, begun := s.begun + 1,
      current := some attempt } := by
    simp only [step,State.transcribe,hidle,haudio,hreuse,hattempt]
  unfold persistTranscriptionChunks at hpersist
  split at hpersist
  · cases hpersist
  · rename_i db₁ hstart
    split at hpersist
    · cases hpersist
    · rename_i insertedCount db₂ hinsert
      split at hpersist
      · cases hpersist
      · rename_i hfinish
        cases hpersist
        rw [run_cons,run_cons,htranscribe]
        subst hattempt
        simp only [step,State.start,hstart]
        have hfinish' := (Nat.zero_add insertedCount).symm ▸ hfinish
        exact run_write ⟨s.begun,postId,modelName,
          (upsertWhisperModelCall postId modelName now s.db).1,audio,.transcribing⟩ rfl hinsert
          hfinish'

end

/-- In every state that transcription runs lead to, a transcription is stored exactly when it has no
segments or no call of the post and the model is left under the key that its own call moves to. -/
theorem completes_iff (posts : Table Post.id) (labels : List Label) {postId : ℕ}
    (hpost : posts.get postId ≠ none) (modelName : String) (now : ℤ) (attempt : ℕ)
    (batches : List (List Segment)) (words : Option (List SegmentWords)) :
    Completes postId modelName now attempt batches words
      (run step (State.initial posts) labels).db ↔
    batches.flatten = [] ∨
      ∀ call ∈ (run step (State.initial posts) labels).db.calls.table.rows,
        call.key ≠ (postId,⟨0,batches.flatten.length - 1,modelName⟩) :=
  completes_iff_of_hasPost (run_invariant (I := fun s => s.db.HasPost postId)
    (fun s label h => hasPost_step s label h) hpost labels)

/-- A store with one post. -/
def onePost : Table Post.id := ⟨[⟨1,none,none⟩],List.nodup_singleton 1⟩

/-- A segment of ten seconds. -/
def spoken (text : String) : Segment := ⟨0,10,text,none⟩

/-- One transcriber has returned one segment, and then another one two. -/
def switched : List Label :=
  [.download 1 0,.transcribe 1 "a" 0,.start [[spoken "x"]] none,.write,.write,
    .transcribe 1 "b" 1,.start [[spoken "x",spoken "y"]] none,.write,.write]

/-- A third transcriber's key is free. -/
theorem completes_third : onePost.get 1 ≠ none ∧
    Completes 1 "c" 2 2 [[spoken "x"]] none (run step (State.initial onePost) switched).db :=
  ⟨by decide,(completes_iff onePost switched (by decide) "c" 2 2 [[spoken "x"]] none).mpr
    (.inr (by decide))⟩

/-- Back at the first transcriber, the key its call moves to is still taken. -/
theorem not_completes_switched :
    ¬Completes 1 "a" 2 2 [[spoken "x"]] none (run step (State.initial onePost) switched).db := by
  rw [completes_iff_of_hasPost (by decide)]
  decide

end Podly.Transcription
