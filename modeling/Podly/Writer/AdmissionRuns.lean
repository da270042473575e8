import Podly.Writer.Admission

/-! What every interleaving keeps: the counters are what the submissions hold, the channel and the
worker have each admitted command once, and the thread is over when a shutdown has returned. -/
namespace Podly.Writer.Admission
open Store

section
variable {s : State} {id : ℕ} {p q : Phase}

theorem get_of_phase (h : s.phase id = some q) :
    ∃ call, s.calls.get id = some call ∧ call.phase = q :=
  Option.map_eq_some_iff.mp h

theorem phase_of_get {call : Submission} (h : s.calls.get id = some call) :
    s.phase id = some call.phase := by
  rw [State.phase,h,Option.map_some]

/-- A move changes the phase of the one call. -/
theorem phase_move (h : s.phase id = some q) :
    (s.move id p).phase = Function.update s.phase id (some p) := by
  obtain ⟨call,hcall,-⟩ := get_of_phase h
  funext k
  simp only [State.phase,State.move,Table.get_modify,hcall,Function.update_apply]
  split <;> rfl

theorem shutdownPhase_moveShutdown {r r' : ShutdownPhase} (h : s.shutdownPhase id = some r') :
    (s.moveShutdown id r).shutdownPhase = Function.update s.shutdownPhase id (some r) := by
  obtain ⟨d,hd,-⟩ := Option.map_eq_some_iff.mp h
  funext k
  simp only [State.shutdownPhase,State.moveShutdown,Table.get_modify,hd,Function.update_apply]
  split <;> rfl

end

/-! The budget -/

/-- The counters are what the submissions hold and stay in their limits. -/
structure Budget (limits : Limits) (calls : Table Submission.id) (entriesUsed bytesUsed : ℕ) :
    Prop where
  entries : entriesUsed = calls.total Submission.entries
  bytes : bytesUsed = calls.total Submission.bytes
  entries_le : entriesUsed ≤ limits.maximumEntries
  bytes_le : bytesUsed ≤ limits.maximumBytes

section
variable {limits : Limits} {s : State} {id : ℕ} {call : Submission}

/-- A move keeps the budget when the counters follow what the call holds. -/
theorem Budget.move (h : Budget limits s.calls s.entriesUsed s.bytesUsed)
    (hcall : s.calls.get id = some call) (p : Phase) {entriesUsed bytesUsed : ℕ}
    (he : entriesUsed + call.entries = s.entriesUsed + (call.goTo p).entries)
    (hb : bytesUsed + call.bytes = s.bytesUsed + (call.goTo p).bytes)
    (hle : entriesUsed ≤ limits.maximumEntries) (hbe : bytesUsed ≤ limits.maximumBytes) :
    Budget limits (s.move id p).calls entriesUsed bytesUsed := by
  have htotal := Table.total_modify (Submission.goTo_id p) hcall
  have hentries := htotal Submission.entries
  have hbytes := htotal Submission.bytes
  refine ⟨?_,?_,hle,hbe⟩
  · have := h.entries
    simp only [State.move]
    omega
  · have := h.bytes
    simp only [State.move]
    omega

/-- A move that takes and gives back nothing. -/
theorem Budget.move_same (h : Budget limits s.calls s.entriesUsed s.bytesUsed)
    (hcall : s.calls.get id = some call) {p : Phase} (hlive : p.live = call.live)
    (hattempting : p.attempting = call.attempting) :
    Budget limits (s.move id p).calls s.entriesUsed s.bytesUsed := by
  have he : (call.goTo p).entries = call.entries := by
    change p.live.toNat + p.attempting.toNat = _
    rw [hlive,hattempting]
    rfl
  have hb : (call.goTo p).bytes = call.bytes := by
    change (if p.live then _ else _) = _
    rw [hlive]
    rfl
  refine h.move hcall p ?_ ?_ h.entries_le h.bytes_le
  · rw [he]
  · rw [hb]

theorem fetchSub_add_one {n : ℕ} (h : 0 < n) : fetchSub n + 1 = n := by
  rw [fetchSub,if_neg (by omega)]
  omega

/-- A submission that gives up before it has bytes gives its entry back. -/
theorem Budget.giveUp (h : Budget limits s.calls s.entriesUsed s.bytesUsed)
    (hcall : s.calls.get id = some call) (hphase : call.phase = .entryTaken) (e : AdmissionError) :
    Budget limits (s.move id (.rejected e)).calls (fetchSub s.entriesUsed) s.bytesUsed := by
  obtain ⟨hmem,-⟩ := Table.get_eq_some.mp hcall
  have hone : call.entries = 1 := by
    simp [Submission.entries,Submission.live,Submission.attempting,hphase,Phase.live,
      Phase.attempting]
  have hnone : call.bytes = 0 := by simp [Submission.bytes,Submission.live,hphase,Phase.live]
  have hle := Table.le_total hmem Submission.entries
  rw [← h.entries,hone] at hle
  have hsub := fetchSub_add_one hle
  have hmax := h.entries_le
  refine h.move hcall _ ?_ ?_ (by omega) h.bytes_le
  · rw [hone,hsub]
    rfl
  · rw [hnone]
    rfl

/-- A dropped reservation gives back its entry and its bytes. -/
theorem Budget.drop (h : Budget limits s.calls s.entriesUsed s.bytesUsed)
    (hcall : s.calls.get id = some call) (hlive : call.live) {p : Phase} (hp : p.live = false)
    (hattempting : p.attempting = call.attempting) :
    Budget limits (dropReservation s id call.serializedBytes p).calls
      (dropReservation s id call.serializedBytes p).entriesUsed
      (dropReservation s id call.serializedBytes p).bytesUsed := by
  obtain ⟨hmem,-⟩ := Table.get_eq_some.mp hcall
  have hone : call.entries = 1 + call.attempting.toNat := by simp [Submission.entries,hlive]
  have hbytes : call.bytes = call.serializedBytes := by simp [Submission.bytes,hlive]
  have hone' : (call.goTo p).entries = call.attempting.toNat := by
    simp [Submission.entries,Submission.live,Submission.attempting,Submission.goTo,hp,hattempting]
  have hbytes' : (call.goTo p).bytes = 0 := by
    simp [Submission.bytes,Submission.live,Submission.goTo,hp]
  have hle := Table.le_total hmem Submission.entries
  have hleb := Table.le_total hmem Submission.bytes
  rw [← h.entries] at hle
  rw [← h.bytes] at hleb
  have hsub := fetchSub_add_one (n := s.entriesUsed) (by omega)
  have hmax := h.entries_le
  have hmaxb := h.bytes_le
  change Budget limits (s.move id p).calls (fetchSub s.entriesUsed)
    (s.bytesUsed - call.serializedBytes)
  exact h.move hcall p (by omega) (by omega) (by omega) (by omega)

end

/-! The channel and the worker -/

/-- A submission is in the channel, in the hands of the worker and among the executions as often as
its phase says. -/
structure Placed (phase : Option Phase) (id : ℕ) (queue : List ℕ) (worker : Worker)
    (executions : List ℕ) : Prop where
  queued : queue.count id = if phase = some .queued then 1 else 0
  running : phase = some .running ↔ worker = .executing id
  executed : phase = some .executed ↔ worker = .dropping id
  executions : executions.count id = if phase = some .executed ∨ phase = some .done then 1 else 0

/-- Every submission is where its phase says. -/
def Channel (phase : ℕ → Option Phase) (queue : List ℕ) (worker : Worker)
    (executions : List ℕ) : Prop :=
  ∀ id, Placed (phase id) id queue worker executions

namespace Channel
variable {phase : ℕ → Option Phase} {queue executions : List ℕ} {worker : Worker} {id : ℕ}

/-- One submission goes to its new place and the others stay in theirs. -/
theorem update {queue' executions' : List ℕ} {worker' : Worker} {p : Phase}
    (hself : Placed (some p) id queue' worker' executions')
    (hothers : ∀ k, k ≠ id → Placed (phase k) k queue' worker' executions') :
    Channel (Function.update phase id (some p)) queue' worker' executions' := by
  intro k
  by_cases hk : k = id
  · subst hk
    rw [Function.update_self]
    exact hself
  · rw [Function.update_of_ne hk]
    exact hothers k hk

/-- A submission that is not admitted moves beside the channel. -/
theorem beside (h : Channel phase queue worker executions)
    (hold : ∀ q, phase id = some q → q.admitted = false) {p : Phase} (hnew : p.admitted = false) :
    Channel (Function.update phase id (some p)) queue worker executions := by
  have hne : ∀ q : Phase, q.admitted → phase id ≠ some q ∧ some p ≠ some q := by
    intro q hq
    refine ⟨fun he => ?_,fun he => ?_⟩
    · rw [hold q he] at hq
      cases hq
    · rw [← Option.some.inj he,hnew] at hq
      cases hq
  have hid := h id
  refine update ⟨?_,?_,?_,?_⟩ (fun k _ => h k)
  · simpa only [hne .queued rfl,if_false] using hid.queued
  · simpa only [hne .running rfl] using hid.running
  · simpa only [hne .executed rfl] using hid.executed
  · simpa only [hne .executed rfl,hne .done rfl,or_self,if_false] using hid.executions

theorem send (h : Channel phase queue worker executions) (hid : phase id = some .reserved) :
    Channel (Function.update phase id (some .queued)) (queue ++ [id]) worker executions := by
  have hself := h id
  rw [hid] at hself
  refine update ⟨?_,?_,?_,?_⟩ (fun k hk => ⟨?_,(h k).running,(h k).executed,(h k).executions⟩)
  · simpa [List.count_append] using hself.queued
  · simpa using hself.running
  · simpa using hself.executed
  · simpa using hself.executions
  · simpa [List.count_append,List.count_singleton,Ne.symm hk] using (h k).queued

/-- What is at the head of the channel is queued. -/
theorem head (h : Channel phase (id::queue) worker executions) : phase id = some .queued := by
  have hid := (h id).queued
  rw [List.count_cons_self] at hid
  by_contra hne
  rw [if_neg hne] at hid
  omega

theorem recv (h : Channel phase (id::queue) .receiving executions) :
    Channel (Function.update phase id (some .running)) queue (.executing id) executions := by
  have hself := h id
  rw [h.head] at hself
  refine update ⟨?_,?_,?_,?_⟩ (fun k hk => ⟨?_,?_,?_,(h k).executions⟩)
  · simpa using hself.queued
  · simp
  · simp
  · simpa using hself.executions
  · simpa [List.count_cons,Ne.symm hk] using (h k).queued
  · simpa [Ne.symm hk] using (h k).running
  · simpa using (h k).executed

theorem executeOne (h : Channel phase queue (.executing id) executions) :
    Channel (Function.update phase id (some .executed)) queue (.dropping id)
      (executions ++ [id]) := by
  have hself := h id
  rw [(h id).running.mpr rfl] at hself
  refine update ⟨?_,?_,?_,?_⟩ (fun k hk => ⟨(h k).queued,?_,?_,?_⟩)
  · simpa using hself.queued
  · simp
  · simp
  · simpa [List.count_append] using hself.executions
  · simpa [Ne.symm hk] using (h k).running
  · simpa [Ne.symm hk] using (h k).executed
  · simpa [List.count_append,List.count_singleton,Ne.symm hk] using (h k).executions

theorem dropWork (h : Channel phase queue (.dropping id) executions) :
    Channel (Function.update phase id (some .done)) queue .receiving executions := by
  have hself := h id
  rw [(h id).executed.mpr rfl] at hself
  refine update ⟨?_,?_,?_,?_⟩ (fun k hk => ⟨(h k).queued,?_,?_,(h k).executions⟩)
  · simpa using hself.queued
  · simp
  · simp
  · simpa using hself.executions
  · simpa using (h k).running
  · simpa [Ne.symm hk] using (h k).executed

/-- The worker goes on without a command. -/
theorem idle (h : Channel phase queue worker executions) {worker' : Worker}
    (hold : ∀ k, worker ≠ .executing k ∧ worker ≠ .dropping k)
    (hnew : ∀ k, worker' ≠ .executing k ∧ worker' ≠ .dropping k) :
    Channel phase queue worker' executions := by
  intro k
  refine ⟨(h k).queued,?_,?_,(h k).executions⟩
  · rw [(h k).running]
    exact iff_of_false (hold k).1 (hnew k).1
  · rw [(h k).executed]
    exact iff_of_false (hold k).2 (hnew k).2

end Channel

/-! The steps -/

/-- What a shutdown leaves behind. -/
structure Lifecycle (s : State) : Prop where
  closed : s.worker = .leaving ∨ s.worker = .ended → s.queue = [] ∧ s.sender = false
  joined : s.thread = false → s.threadLocked = false → s.worker = .ended
  returned : ∀ id, s.shutdownPhase id = some .returned → s.worker = .ended

/-- A worker that has not ended may go on, with no shutdown returned yet. -/
theorem Lifecycle.goOn {s t : State} (h : Lifecycle s) (hworker : s.worker ≠ .ended)
    (hthread : t.thread = s.thread) (hlock : t.threadLocked = s.threadLocked)
    (hshutdowns : t.shutdowns = s.shutdowns)
    (hclosed : t.worker = .leaving ∨ t.worker = .ended → t.queue = [] ∧ t.sender = false) :
    Lifecycle t := by
  refine ⟨hclosed,?_,?_⟩
  · intro ht hl
    exact absurd (h.joined (hthread ▸ ht) (hlock ▸ hl)) hworker
  · intro id hid
    rw [State.shutdownPhase,hshutdowns] at hid
    exact absurd (h.returned id hid) hworker

structure Inv (limits : Limits) (s : State) : Prop where
  budget : Budget limits s.calls s.entriesUsed s.bytesUsed
  channel : Channel s.phase s.queue s.worker s.executions
  lifecycle : Lifecycle s

theorem inv_start (limits : Limits) : Inv limits start := by
  refine ⟨⟨rfl,rfl,Nat.zero_le _,Nat.zero_le _⟩,?_,⟨?_,?_,?_⟩⟩
  · intro id
    exact ⟨rfl,by simp [start,State.phase],by simp [start,State.phase],rfl⟩
  · rintro (h | h) <;> cases h
  · intro h
    cases h
  · intro id h
    cases h

section
variable {limits : Limits} {s : State}

/-- The channel sees a move of a submission that is not admitted as no move. -/
theorem Channel.move (h : Channel s.phase s.queue s.worker s.executions) {id : ℕ} {p q : Phase}
    (hid : s.phase id = some q) (hq : q.admitted = false) (hp : p.admitted = false) :
    Channel (s.move id p).phase s.queue s.worker s.executions := by
  rw [phase_move hid]
  refine h.beside (fun r hr => ?_) hp
  rw [← Option.some.inj (hid.symm.trans hr)]
  exact hq

/-- A move that the counters and the channel do not see. -/
theorem Inv.move (h : Inv limits s) {id : ℕ} {p q : Phase} (hid : s.phase id = some q)
    (hq : q.admitted = false) (hp : p.admitted = false) (hlive : p.live = q.live)
    (hattempting : p.attempting = q.attempting) : Inv limits (s.move id p) := by
  obtain ⟨call,hcall,rfl⟩ := get_of_phase hid
  exact ⟨h.budget.move_same hcall hlive hattempting,h.channel.move hid hq hp,
    h.lifecycle.closed,h.lifecycle.joined,h.lifecycle.returned⟩

theorem inv_submit (h : Inv limits s) (serializedBytes : ℕ) :
    Inv limits (step limits s (.submit serializedBytes)) := by
  have hnew := submission_id serializedBytes
  have hphase : (step limits s (.submit serializedBytes)).phase =
      Function.update s.phase s.calls.nextKey (some .called) := by
    funext k
    change ((s.calls.append _ hnew).get k).map _ = _
    rw [Table.get_append,Function.update_apply]
    split <;> rfl
  refine ⟨⟨?_,?_,h.budget.entries_le,h.budget.bytes_le⟩,?_,
    h.lifecycle.closed,h.lifecycle.joined,h.lifecycle.returned⟩
  · exact h.budget.entries.trans (Table.total_append s.calls hnew Submission.entries).symm
  · exact h.budget.bytes.trans (Table.total_append s.calls hnew Submission.bytes).symm
  · rw [hphase]
    refine h.channel.beside (fun q hq => ?_) rfl
    rw [State.phase,Table.get_nextKey] at hq
    cases hq

theorem inv_loadAccepting (h : Inv limits s) (id : ℕ) : Inv limits (loadAccepting s id) := by
  unfold loadAccepting
  split
  · rename_i hid
    cases s.accepting
    · exact h.move hid rfl rfl rfl rfl
    · exact h.move hid rfl rfl rfl rfl
  · exact h

theorem inv_tryUpdate (h : Inv limits s) (id : ℕ) : Inv limits (tryUpdate limits s id) := by
  unfold tryUpdate
  split
  · rename_i hid
    split
    · rename_i hroom
      obtain ⟨call,hcall,hphase⟩ := get_of_phase hid
      have hnone : call.entries = 0 := by
        simp [Submission.entries,Submission.live,Submission.attempting,hphase,Phase.live,
          Phase.attempting]
      have hbytes : call.bytes = 0 := by simp [Submission.bytes,Submission.live,hphase,Phase.live]
      refine ⟨h.budget.move hcall .entryTaken ?_ ?_ hroom h.budget.bytes_le,
        h.channel.move hid rfl rfl,h.lifecycle.closed,h.lifecycle.joined,h.lifecycle.returned⟩
      · rw [hnone]
        rfl
      · rw [hbytes]
        rfl
    · exact h.move hid rfl rfl rfl rfl
  · exact h

theorem inv_giveUp (h : Inv limits s) {id : ℕ} {call : Submission} (hcall : s.calls.get id = some call)
    (hphase : call.phase = .entryTaken) (e : AdmissionError) :
    Inv limits { s.move id (.rejected e) with entriesUsed := fetchSub s.entriesUsed } := by
  have hid := phase_of_get hcall
  rw [hphase] at hid
  exact ⟨h.budget.giveUp hcall hphase e,h.channel.move hid rfl rfl,
    h.lifecycle.closed,h.lifecycle.joined,h.lifecycle.returned⟩

theorem inv_reserveBytes (h : Inv limits s) (id : ℕ) : Inv limits (reserveBytes limits s id) := by
  unfold reserveBytes
  split
  · rename_i k bytes hcall
    split
    · exact inv_giveUp h hcall rfl _
    · split
      · exact inv_giveUp h hcall rfl _
      · rename_i next hnext
        split
        · exact inv_giveUp h hcall rfl _
        · rename_i hmax
          have hadd : next = s.bytesUsed + bytes := by
            unfold checkedAdd at hnext
            split at hnext
            · exact (Option.some.inj hnext).symm
            · cases hnext
          refine ⟨h.budget.move hcall .reserved rfl ?_ h.budget.entries_le (Nat.le_of_not_lt hmax),
            h.channel.move (phase_of_get hcall) rfl rfl,
            h.lifecycle.closed,h.lifecycle.joined,h.lifecycle.returned⟩
          rw [hadd]
          rfl
  · exact h

theorem inv_trySend (h : Inv limits s) (id : ℕ) : Inv limits (trySend limits s id) := by
  unfold trySend
  split
  · rename_i hid
    split
    · exact h.move hid rfl rfl rfl rfl
    · rename_i hopen
      split
      · obtain ⟨call,hcall,hphase⟩ := get_of_phase hid
        have hlive : Phase.queued.live = call.live := (congrArg Phase.live hphase).symm
        have hattempting : Phase.queued.attempting = call.attempting :=
          (congrArg Phase.attempting hphase).symm
        refine ⟨h.budget.move_same hcall hlive hattempting,?_,?_,h.lifecycle.joined,
          h.lifecycle.returned⟩
        · change Channel (s.move id .queued).phase (s.queue ++ [id]) s.worker s.executions
          rw [phase_move hid]
          exact h.channel.send hid
        · intro hclosed
          exact absurd (Or.inl (h.lifecycle.closed hclosed).2) hopen
      · exact h.move hid rfl rfl rfl rfl
  · exact h

theorem inv_dropRefused (h : Inv limits s) (id : ℕ) : Inv limits (dropRefused s id) := by
  unfold dropRefused
  split
  · rename_i k bytes e hcall
    exact ⟨h.budget.drop hcall rfl rfl rfl,h.channel.move (phase_of_get hcall) rfl rfl,
      h.lifecycle.closed,h.lifecycle.joined,h.lifecycle.returned⟩
  · exact h

theorem inv_recv (h : Inv limits s) : Inv limits (recv s) := by
  unfold recv
  split
  · rename_i id queue hworker hqueue
    have hchannel := h.channel
    rw [hworker,hqueue] at hchannel
    have hid := hchannel.head
    obtain ⟨call,hcall,hphase⟩ := get_of_phase hid
    have hlive : Phase.running.live = call.live := (congrArg Phase.live hphase).symm
    have hattempting : Phase.running.attempting = call.attempting :=
      (congrArg Phase.attempting hphase).symm
    refine ⟨h.budget.move_same hcall hlive hattempting,?_,
      h.lifecycle.goOn (by simp [hworker]) rfl rfl rfl (by simp)⟩
    change Channel (s.move id .running).phase queue (.executing id) s.executions
    rw [phase_move hid]
    exact hchannel.recv
  · rename_i hworker hqueue
    split
    · exact h
    · rename_i hsender
      have hidle : ∀ k, s.worker ≠ .executing k ∧ s.worker ≠ .dropping k := by simp [hworker]
      exact ⟨h.budget,h.channel.idle hidle (by simp),
        h.lifecycle.goOn (by simp [hworker]) rfl rfl rfl (fun _ => ⟨hqueue,by simpa using hsender⟩)⟩
  · exact h

theorem inv_executeOne (h : Inv limits s) : Inv limits (executeOne s) := by
  unfold executeOne
  split
  · rename_i id hworker
    have hchannel := h.channel
    rw [hworker] at hchannel
    have hid := (hchannel id).running.mpr rfl
    obtain ⟨call,hcall,hphase⟩ := get_of_phase hid
    have hlive : Phase.executed.live = call.live := (congrArg Phase.live hphase).symm
    have hattempting : Phase.executed.attempting = call.attempting :=
      (congrArg Phase.attempting hphase).symm
    refine ⟨h.budget.move_same hcall hlive hattempting,?_,
      h.lifecycle.goOn (by simp [hworker]) rfl rfl rfl (by simp)⟩
    change Channel (s.move id .executed).phase s.queue (.dropping id) (s.executions ++ [id])
    rw [phase_move hid]
    exact hchannel.executeOne
  · exact h

theorem inv_dropWork (h : Inv limits s) : Inv limits (dropWork s) := by
  unfold dropWork
  split
  · rename_i id hworker
    have hchannel := h.channel
    rw [hworker] at hchannel
    have hid := (hchannel id).executed.mpr rfl
    split
    · rename_i call hcall
      have hphase : call.phase = .executed := Option.some.inj ((phase_of_get hcall).symm.trans hid)
      refine ⟨h.budget.drop hcall (congrArg Phase.live hphase) rfl
        (congrArg Phase.attempting hphase).symm,?_,
        h.lifecycle.goOn (by simp [hworker]) rfl rfl rfl (by simp)⟩
      change Channel (s.move id .done).phase s.queue .receiving s.executions
      rw [phase_move hid]
      exact hchannel.dropWork
    · exact h
  · exact h

theorem inv_endThread (h : Inv limits s) : Inv limits (endThread s) := by
  unfold endThread
  split
  · rename_i hworker
    have hidle : ∀ k, s.worker ≠ .executing k ∧ s.worker ≠ .dropping k := by simp [hworker]
    exact ⟨h.budget,h.channel.idle hidle (by simp),fun _ => h.lifecycle.closed (Or.inl hworker),
      fun _ _ => rfl,fun _ _ => rfl⟩
  · exact h

theorem inv_shutdown (h : Inv limits s) : Inv limits (step limits s .shutdown) := by
  refine ⟨h.budget,h.channel,h.lifecycle.closed,h.lifecycle.joined,?_⟩
  intro k hk
  change ((s.shutdowns.append newShutdown newShutdown_id).get k).map Shutdown.phase = _ at hk
  rw [Table.get_append] at hk
  split at hk
  · cases hk
  · exact h.lifecycle.returned k hk

/-- A shutdown that is moved has returned only if that is where it was moved. -/
theorem returned_moveShutdown {id : ℕ} {p q : ShutdownPhase} (hid : s.shutdownPhase id = some q)
    {k : ℕ} (hk : (s.moveShutdown id p).shutdownPhase k = some .returned) :
    p = .returned ∨ s.shutdownPhase k = some .returned := by
  rw [shutdownPhase_moveShutdown hid,Function.update_apply] at hk
  split at hk
  · exact Or.inl (Option.some.inj hk)
  · exact Or.inr hk

theorem inv_stop (h : Inv limits s) (id : ℕ) : Inv limits (stop s id) := by
  unfold stop
  split
  · rename_i hid
    refine ⟨h.budget,h.channel,h.lifecycle.closed,h.lifecycle.joined,?_⟩
    intro k hk
    rcases returned_moveShutdown hid hk with hp | hk
    · cases hp
    · exact h.lifecycle.returned k hk
  · exact h

theorem inv_takeSender (h : Inv limits s) (id : ℕ) : Inv limits (takeSender s id) := by
  unfold takeSender
  split
  · rename_i hid
    refine ⟨h.budget,h.channel,fun hw => ⟨(h.lifecycle.closed hw).1,rfl⟩,h.lifecycle.joined,?_⟩
    intro k hk
    rcases returned_moveShutdown hid hk with hp | hk
    · cases hp
    · exact h.lifecycle.returned k hk
  · exact h

theorem inv_takeThread (h : Inv limits s) (id : ℕ) : Inv limits (takeThread s id) := by
  unfold takeThread
  split
  · rename_i hid
    obtain ⟨hid,hlock⟩ := hid
    split
    · refine ⟨h.budget,h.channel,h.lifecycle.closed,(fun _ hlock' => nomatch hlock'),?_⟩
      intro k hk
      rcases returned_moveShutdown hid hk with hp | hk
      · cases hp
      · exact h.lifecycle.returned k hk
    · rename_i hthread
      refine ⟨h.budget,h.channel,h.lifecycle.closed,h.lifecycle.joined,?_⟩
      intro k _
      exact h.lifecycle.joined (by simpa using hthread) hlock
  · exact h

theorem inv_join (h : Inv limits s) (id : ℕ) : Inv limits (join s id) := by
  unfold join
  split
  · rename_i hid
    exact ⟨h.budget,h.channel,h.lifecycle.closed,fun _ _ => hid.2,fun _ _ => hid.2⟩
  · exact h

theorem inv_step (h : Inv limits s) (l : Label) : Inv limits (step limits s l) := by
  cases l with
  | submit serializedBytes => exact inv_submit h serializedBytes
  | loadAccepting id => exact inv_loadAccepting h id
  | tryUpdate id => exact inv_tryUpdate h id
  | reserveBytes id => exact inv_reserveBytes h id
  | trySend id => exact inv_trySend h id
  | dropRefused id => exact inv_dropRefused h id
  | recv => exact inv_recv h
  | executeOne => exact inv_executeOne h
  | dropWork => exact inv_dropWork h
  | endThread => exact inv_endThread h
  | stopAdmission =>
    exact ⟨h.budget,h.channel,h.lifecycle.closed,h.lifecycle.joined,h.lifecycle.returned⟩
  | shutdown => exact inv_shutdown h
  | stop id => exact inv_stop h id
  | takeSender id => exact inv_takeSender h id
  | takeThread id => exact inv_takeThread h id
  | join id => exact inv_join h id

theorem inv_run (limits : Limits) (ls : List Label) : Inv limits (run (step limits) start ls) :=
  run_invariant (I := Inv limits) (fun _ l h => inv_step h l) (inv_start limits) ls

end

/-! What a call has returned -/

/-- What has been returned stays returned. -/
def Keeps (s t : State) : Prop := ∀ id o, s.result id = some o → t.result id = some o

section
variable {limits : Limits} {s : State}

theorem Keeps.refl (s : State) : Keeps s s := fun _ _ h => h

/-- A call moves before it returns, or with what it has returned. -/
theorem keeps_move {id : ℕ} {p q : Phase} (hid : s.phase id = some q)
    (h : q.result = none ∨ p.result = q.result) : Keeps s (s.move id p) := by
  intro k o hk
  rw [State.result,phase_move hid,Function.update_apply]
  split
  · rename_i he
    rw [he,State.result,hid,Option.bind_some] at hk
    rcases h with h | h
    · rw [h] at hk
      cases hk
    · rw [Option.bind_some,h,hk]
  · exact hk

theorem keeps_submit (serializedBytes : ℕ) :
    Keeps s (step limits s (.submit serializedBytes)) := by
  intro k o hk
  change (((s.calls.append _ (submission_id serializedBytes)).get k).map _).bind _ = _
  rw [Table.get_append]
  split
  · rename_i he
    rw [State.result,State.phase,he,Table.get_nextKey] at hk
    cases hk
  · exact hk

theorem keeps_loadAccepting (id : ℕ) : Keeps s (loadAccepting s id) := by
  unfold loadAccepting
  split
  · rename_i hid
    exact keeps_move hid (Or.inl rfl)
  · exact Keeps.refl s

theorem keeps_tryUpdate (id : ℕ) : Keeps s (tryUpdate limits s id) := by
  unfold tryUpdate
  split
  · rename_i hid
    split
    · exact keeps_move hid (Or.inl rfl)
    · exact keeps_move hid (Or.inl rfl)
  · exact Keeps.refl s

theorem keeps_reserveBytes (id : ℕ) : Keeps s (reserveBytes limits s id) := by
  unfold reserveBytes
  split
  · rename_i k bytes hcall
    have hid := phase_of_get hcall
    split
    · exact keeps_move hid (Or.inl rfl)
    · split
      · exact keeps_move hid (Or.inl rfl)
      · split
        · exact keeps_move hid (Or.inl rfl)
        · exact keeps_move hid (Or.inl rfl)
  · exact Keeps.refl s

theorem keeps_trySend (id : ℕ) : Keeps s (trySend limits s id) := by
  unfold trySend
  split
  · rename_i hid
    split
    · exact keeps_move hid (Or.inl rfl)
    · split
      · exact keeps_move hid (Or.inl rfl)
      · exact keeps_move hid (Or.inl rfl)
  · exact Keeps.refl s

theorem keeps_dropRefused (id : ℕ) : Keeps s (dropRefused s id) := by
  unfold dropRefused
  split
  · rename_i k bytes e hcall
    exact keeps_move (phase_of_get hcall) (Or.inl rfl)
  · exact Keeps.refl s

theorem keeps_recv (h : Inv limits s) : Keeps s (recv s) := by
  unfold recv
  split
  · rename_i id queue hworker hqueue
    have hchannel := h.channel
    rw [hqueue] at hchannel
    exact keeps_move hchannel.head (Or.inr rfl)
  · split
    · exact Keeps.refl s
    · exact Keeps.refl s
  · exact Keeps.refl s

theorem keeps_executeOne (h : Inv limits s) : Keeps s (executeOne s) := by
  unfold executeOne
  split
  · rename_i id hworker
    exact keeps_move ((h.channel id).running.mpr hworker) (Or.inr rfl)
  · exact Keeps.refl s

theorem keeps_dropWork (h : Inv limits s) : Keeps s (dropWork s) := by
  unfold dropWork
  split
  · rename_i id hworker
    split
    · exact keeps_move ((h.channel id).executed.mpr hworker) (Or.inr rfl)
    · exact Keeps.refl s
  · exact Keeps.refl s

/-- The steps of a shutdown, and the end of the thread, touch no call. -/
theorem keeps_of_calls {t : State} (h : t.calls = s.calls) : Keeps s t := by
  intro k o hk
  rw [State.result,State.phase,h]
  exact hk

theorem keeps_step (h : Inv limits s) (l : Label) : Keeps s (step limits s l) := by
  cases l with
  | submit serializedBytes => exact keeps_submit serializedBytes
  | loadAccepting id => exact keeps_loadAccepting id
  | tryUpdate id => exact keeps_tryUpdate id
  | reserveBytes id => exact keeps_reserveBytes id
  | trySend id => exact keeps_trySend id
  | dropRefused id => exact keeps_dropRefused id
  | recv => exact keeps_recv h
  | executeOne => exact keeps_executeOne h
  | dropWork => exact keeps_dropWork h
  | endThread =>
    refine keeps_of_calls ?_
    simp only [step,endThread]
    split <;> rfl
  | stopAdmission => exact keeps_of_calls rfl
  | shutdown => exact keeps_of_calls rfl
  | stop id =>
    refine keeps_of_calls ?_
    simp only [step,stop]
    split <;> rfl
  | takeSender id =>
    refine keeps_of_calls ?_
    simp only [step,takeSender]
    split <;> rfl
  | takeThread id =>
    refine keeps_of_calls ?_
    simp only [step,takeThread]
    split
    · split <;> rfl
    · rfl
  | join id =>
    refine keeps_of_calls ?_
    simp only [step,join]
    split <;> rfl

theorem keeps_run (h : Inv limits s) (ls : List Label) : Keeps s (run (step limits) s ls) := by
  induction ls generalizing s with
  | nil => exact Keeps.refl s
  | cons l ls ih => exact fun id o hid => ih (inv_step h l) id o (keeps_step h l id o hid)

end

/-! Exactness -/

/-- No command is in the channel or in the hands of the worker. -/
def State.Drained (s : State) : Prop := s.queue = [] ∧ s.worker.busy = false

instance (s : State) : Decidable s.Drained := inferInstanceAs (Decidable (_ ∧ _))

/-- What the admission promises of a state. -/
structure Exact (limits : Limits) (s : State) : Prop where
  entries : s.entriesUsed =
    s.calls.rows.countP Submission.live + s.calls.rows.countP Submission.attempting
  entries_le : s.entriesUsed ≤ limits.maximumEntries
  bytes : s.bytesUsed =
    ((s.calls.rows.filter Submission.live).map Submission.serializedBytes).sum
  bytes_le : s.bytesUsed ≤ limits.maximumBytes
  idle : s.Drained → (∀ call ∈ s.calls.rows, call.phase.reserving = false) →
    s.entriesUsed = 0 ∧ s.bytesUsed = 0
  once : ∀ id, s.executions.count id ≤ 1
  executed : (∃ d ∈ s.shutdowns.rows, d.phase = .returned) →
    ∀ id, s.result id = some (.ok ()) → s.executions.count id = 1
  rejected : ∀ id e, s.result id = some (.error e) → s.executions.count id = 0

section
variable {limits : Limits} {s : State}

/-- A submission outside of `reserve` and `try_send`, neither queued nor with the worker, holds
nothing. -/
theorem Inv.holds_nothing (h : Inv limits s) (hdrained : s.Drained) {call : Submission}
    (hcall : call ∈ s.calls.rows) (hreturned : call.phase.reserving = false) :
    call.entries = 0 ∧ call.bytes = 0 := by
  have hid := phase_of_get (Table.get_eq_some.mpr ⟨hcall,rfl⟩)
  have hplaced := h.channel call.id
  have hqueued : call.phase ≠ .queued := by
    intro hp
    have hcount := hplaced.queued
    rw [hid,hp,if_pos rfl,hdrained.1] at hcount
    cases hcount
  have hidle := hdrained.2
  have hrunning : call.phase ≠ .running := by
    intro hp
    rw [hplaced.running.mp (hid.trans (congrArg some hp))] at hidle
    cases hidle
  have hexecuted : call.phase ≠ .executed := by
    intro hp
    rw [hplaced.executed.mp (hid.trans (congrArg some hp))] at hidle
    cases hidle
  cases hp : call.phase <;>
    simp_all [Submission.entries,Submission.bytes,Submission.live,Submission.attempting,Phase.live,
      Phase.attempting,Phase.reserving]

theorem Inv.exact (h : Inv limits s) : Exact limits s := by
  have hphase : ∀ call ∈ s.calls.rows, s.phase call.id = some call.phase := fun call hcall =>
    phase_of_get (Table.get_eq_some.mpr ⟨hcall,rfl⟩)
  refine ⟨?_,h.budget.entries_le,?_,h.budget.bytes_le,?_,?_,?_,?_⟩
  · rw [h.budget.entries,← Table.total_toNat,← Table.total_toNat,← Table.total_add]
    rfl
  · rw [h.budget.bytes,← Table.total_ite]
    rfl
  · intro hdrained hreturned
    rw [h.budget.entries,h.budget.bytes,Table.total_eq_zero,Table.total_eq_zero]
    exact ⟨fun call hcall => (h.holds_nothing hdrained hcall (hreturned call hcall)).1,
      fun call hcall => (h.holds_nothing hdrained hcall (hreturned call hcall)).2⟩
  · intro id
    rw [(h.channel id).executions]
    split <;> omega
  · rintro ⟨d,hd,hreturned⟩ id hid
    have hdphase : s.shutdownPhase d.id = some .returned := by
      rw [State.shutdownPhase,Table.get_eq_some.mpr ⟨hd,rfl⟩,Option.map_some,hreturned]
    have hended := h.lifecycle.returned d.id hdphase
    obtain ⟨p,hp,hresult⟩ := Option.bind_eq_some_iff.mp hid
    have hplaced := h.channel id
    rw [hp,(h.lifecycle.closed (Or.inr hended)).1,hended] at hplaced
    rw [hplaced.executions]
    -- The channel is empty and the worker has gone, so the command is done.
    cases p with
    | queued => simpa using hplaced.queued
    | running => simpa using hplaced.running
    | executed => rfl
    | done => rfl
    | _ => cases hresult
  · intro id e hid
    obtain ⟨p,hp,hresult⟩ := Option.bind_eq_some_iff.mp hid
    rw [(h.channel id).executions,hp]
    cases p <;> cases hresult
    rfl

end

/-- In every interleaving, and at every point of it for what was returned before. -/
theorem exact_run (limits : Limits) (ls : List Label) :
    Exact limits (run (step limits) start ls) ∧ ∀ before, before <+: ls →
      Keeps (run (step limits) start before) (run (step limits) start ls) := by
  refine ⟨(inv_run limits ls).exact,?_⟩
  rintro before ⟨after,rfl⟩
  rw [run_append]
  exact keeps_run (inv_run limits before) after

/-- One command is executed, one is too large, and then a shutdown returns. -/
example : let s := run (step ⟨8,100⟩) start [.submit 5,.submit 101,.loadAccepting 1,.tryUpdate 1,
      .loadAccepting 2,.tryUpdate 2,.reserveBytes 2,.reserveBytes 1,.trySend 1,.shutdown,.stop 1,
      .takeSender 1,.takeThread 1,.recv,.executeOne,.dropWork,.recv,.endThread,.join 1]
    s.calls.rows.map Submission.phase = [.done,.rejected .payloadTooLarge] ∧
      s.executions = [1] ∧ s.shutdowns.rows.map Shutdown.phase = [.returned] := by
  decide

/-- A `submit` that has reserved and not sent. -/
theorem not_idle_of_drained : ¬ (∀ limits ls, (run (step limits) start ls).Drained →
    (run (step limits) start ls).entriesUsed = 0 ∧ (run (step limits) start ls).bytesUsed = 0) := by
  intro h
  have hrun := h ⟨8,100⟩ [.submit 5,.loadAccepting 1,.tryUpdate 1,.reserveBytes 1] (by decide)
  exact absurd hrun (by decide)

end Podly.Writer.Admission
