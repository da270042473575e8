import Podly.ReplyQueues.Queues

/-! Every reply reaches the call that it answers, or none: what is thrown away was for a call that had
given up, and a thread that has its reply has thrown away all earlier ones. -/
namespace Podly.ReplyQueues
open Store

variable {Op R DB : Type}

/-- The phases in which a reply can be on its way. -/
def Phase.answerable : Phase R → Bool
  | .waiting | .timedOut | .failed => true
  | _ => false

/-- The phases of a call that has given up. -/
def Phase.gaveUp : Phase R → Bool
  | .timedOut | .failed => true
  | _ => false

theorem Phase.gaveUp_of_live {p : Phase R} (h : p.live) : p.gaveUp = false := by
  cases p with
  | draining => rfl
  | putting => rfl
  | waiting => rfl
  | _ => cases h

theorem Phase.eq_waiting {p : Phase R} (hlive : p.live) (hanswerable : p.answerable) : p = .waiting := by
  cases p with
  | waiting => rfl
  | timedOut => cases hlive
  | failed => cases hlive
  | _ => cases hanswerable

/-- What the thread of a call is in when the call goes to a phase. -/
def Submission.kept (c : Submission Op R) (p : Phase R) : Option ℕ := if p.live then some c.id else none

theorem Submission.kept_eq_some {c : Submission Op R} {p : Phase R} {id : ℕ} :
    c.kept p = some id ↔ p.live ∧ c.id = id := by
  rw [kept]
  split
  · rename_i hlive
    exact ⟨fun h => ⟨hlive,Option.some.inj h⟩,fun h => congrArg some h.2⟩
  · rename_i hlive
    exact ⟨(fun h => nomatch h),fun h => absurd h.1 hlive⟩

def Writer.held : Writer R → List ℕ
  | .holding id => [id]
  | _ => []

/-- A command has a result. -/
def State.Result (s : State Op R DB) (id : ℕ) (result : R) : Prop :=
  ∃ e ∈ s.executed, e.id = id ∧ e.result = result

/-- The database after some executions. -/
def replay (handle : Op → DB → R × DB) (db : DB) (executed : List (Execution Op R)) : DB :=
  executed.foldl (fun db e => (handle e.op db).2) db

theorem replay_append (handle : Op → DB → R × DB) (db : DB) (xs ys : List (Execution Op R)) :
    replay handle db (xs ++ ys) = replay handle (replay handle db xs) ys := List.foldl_append

/-- What holds of a call at every point of it. -/
structure CallOk (uuids : Uuids) (s : State Op R DB) (id : ℕ) (c : Submission Op R) : Prop where
  named : c.commandId = uuids.text id
  current : c.phase.live ↔ s.current c.thread = some id
  unput : c.phase = .draining ∨ c.phase = .putting → id ∉ s.puts
  asks : c.wait → c.phase ≠ .returned none
  returned : ∀ reply, c.phase = .returned (some reply) → reply.commandId = c.commandId ∧
    s.Result id reply.result ∧ id ∈ s.replied ∧
    c.commandId ∉ (s.replies c.thread).map WriteResult.commandId
  waiting : c.phase = .waiting → id ∈ s.replied →
    c.commandId ∈ (s.replies c.thread).map WriteResult.commandId

/-- What holds of a reply in the queue of a thread. -/
def ReplyOk (s : State Op R DB) (thread : ℕ) (reply : WriteResult R) : Prop :=
  ∃ c, s.calls.get c.id = some c ∧ c.thread = thread ∧ reply.commandId = c.commandId ∧
    s.Result c.id reply.result ∧ c.id ∈ s.replied ∧ c.phase.answerable

structure Inv (uuids : Uuids) (handle : Op → DB → R × DB) (db₀ : DB) (s : State Op R DB) : Prop where
  calls : ∀ id c, s.calls.get id = some c → CallOk uuids s id c
  current : ∀ t id, s.current t = some id → ∃ c, s.calls.get id = some c ∧ c.thread = t
  order : s.puts = s.executed.map Execution.id ++ (s.writer.held ++ s.commands)
  puts : s.puts.Nodup
  known : ∀ id ∈ s.puts, (s.calls.get id).isSome
  replied : ∀ id ∈ s.replied, id ∈ s.executed.map Execution.id
  replying : ∀ id result, s.writer = .replying id result → id ∉ s.replied ∧ s.Result id result
  replies : ∀ t, ∀ reply ∈ s.replies t, ReplyOk s t reply
  distinct : ∀ t, ((s.replies t).map WriteResult.commandId).Nodup
  dropped : ∀ reply ∈ s.dropped, ∃ id c, s.calls.get id = some c ∧
    reply.commandId = c.commandId ∧ c.phase.gaveUp
  database : s.db = replay handle db₀ s.executed
  results : ∀ before e after, s.executed = before ++ e::after →
    e.result = (handle e.op (replay handle db₀ before)).1
  asked : ∀ e ∈ s.executed, ∃ c, s.calls.get e.id = some c ∧ c.op = e.op

theorem inv_start (uuids : Uuids) (handle : Op → DB → R × DB) (db : DB) :
    Inv uuids handle db (start db) := by
  refine ⟨?_,?_,rfl,List.nodup_nil,?_,?_,?_,?_,fun _ => List.nodup_nil,?_,rfl,?_,?_⟩
  · intro id c hc
    cases hc
  · intro t id hid
    cases hid
  · intro id hid
    cases hid
  · intro id hid
    cases hid
  · intro id result hwriter
    cases hwriter
  · intro t reply hreply
    cases hreply
  · intro reply hreply
    cases hreply
  · intro before e after h
    cases before <;> cases h
  · intro e he
    cases he

section
variable {uuids : Uuids} {handle : Op → DB → R × DB} {db₀ : DB} {s : State Op R DB}
  {c : Submission Op R}

theorem get_move {id : ℕ} {p : Phase R} (hc : s.calls.get id = some c) (k : ℕ) :
    (s.move id p).calls.get k = if k = id then some (c.goTo p) else s.calls.get k := by
  rw [State.move,Table.get_modify,hc,Option.map_some]

/-- The calls that a thread has not ended are one at most. -/
theorem Inv.eq_of_live (h : Inv uuids handle db₀ s) {d : Submission Op R} {i k : ℕ}
    (hc : s.calls.get i = some c) (hd : s.calls.get k = some d) (hthread : c.thread = d.thread)
    (hclive : c.phase.live) (hdlive : d.phase.live) : i = k := by
  have hi := (h.calls i c hc).current.mp hclive
  have hk := (h.calls k d hd).current.mp hdlive
  rw [hthread] at hi
  exact Option.some.inj (hi.symm.trans hk)

/-- Two calls under one name are one. -/
theorem Inv.eq_of_name (h : Inv uuids handle db₀ s) {d : Submission Op R} {i k : ℕ}
    (hc : s.calls.get i = some c) (hd : s.calls.get k = some d) (hname : c.commandId = d.commandId) :
    i = k := by
  refine uuids.injective ?_
  rw [← (h.calls i c hc).named,← (h.calls k d hd).named,hname]

/-- A reply that is not for the call that the thread is in was for one that gave up. -/
theorem Inv.gaveUp (h : Inv uuids handle db₀ s) (hc : s.calls.get c.id = some c) (hlive : c.phase.live)
    {reply : WriteResult R} (hreply : reply ∈ s.replies c.thread)
    (hother : c.phase = .waiting → reply.commandId ≠ c.commandId) :
    ∃ id d, s.calls.get id = some d ∧ reply.commandId = d.commandId ∧ d.phase.gaveUp := by
  obtain ⟨d,hd,hthread,hname,-,-,hanswerable⟩ := h.replies c.thread reply hreply
  refine ⟨d.id,d,hd,hname,?_⟩
  cases hphase : d.phase with
  | waiting =>
    have hsame := h.eq_of_live hd hc hthread (by rw [hphase]; rfl) hlive
    rw [hsame,hc] at hd
    obtain rfl := Option.some.inj hd
    exact absurd hname (hother hphase)
  | timedOut => rfl
  | failed => rfl
  | draining => rw [hphase] at hanswerable; cases hanswerable
  | putting => rw [hphase] at hanswerable; cases hanswerable
  | returned result => rw [hphase] at hanswerable; cases hanswerable

/-! The steps of a call -/

/-- The state when a call goes to a phase, puts its command or not, leaves some replies in the queue of
its thread and throws others away. -/
def progress (s : State Op R DB) (c : Submission Op R) (p : Phase R) (added : List ℕ)
    (rest dropped : List (WriteResult R)) : State Op R DB :=
  { s.move c.id p with
    commands := s.commands ++ added
    puts := s.puts ++ added
    replies := Function.update s.replies c.thread rest
    dropped := s.dropped ++ dropped
    current := Function.update s.current c.thread (c.kept p) }

/-- What a step of a call keeps to: it takes its own reply, or throws others away from the front. -/
structure Advances (s : State Op R DB) (c : Submission Op R) (p : Phase R) (added : List ℕ)
    (rest dropped : List (WriteResult R)) : Prop where
  live : c.phase.live
  queue : ((∀ reply, p ≠ .returned (some reply)) ∧ s.replies c.thread = dropped ++ rest ∧
      ∀ reply ∈ dropped, c.phase = .waiting → reply.commandId ≠ c.commandId) ∨
    ∃ reply, p = .returned (some reply) ∧ reply.commandId = c.commandId ∧ dropped = [] ∧
      s.replies c.thread = reply::rest
  added : (added = [] ∧ (p = .draining ∨ p = .putting → c.phase = .draining ∨ c.phase = .putting)) ∨
    (added = [c.id] ∧ c.phase = .putting ∧ p ≠ .draining ∧ p ≠ .putting)
  asks : c.wait → p ≠ .returned none
  waiting : p = .waiting → c.phase = .putting ∨ c.phase = .waiting
  stays : c.phase = .waiting → p.answerable ∨ ∃ reply, p = .returned (some reply)

/-- What a step of a call comes to: it waits on, or it advances. -/
def Steps (s : State Op R DB) (c : Submission Op R) (s' : State Op R DB) : Prop :=
  s' = s ∨ ∃ p added rest dropped, Advances s c p added rest dropped ∧
    s' = progress s c p added rest dropped

section Advance
variable {p : Phase R} {added : List ℕ} {rest dropped : List (WriteResult R)}

theorem steps_of_eq {s' : State Op R DB} (heq : progress s c p added rest dropped = s')
    (ha : Advances s c p added rest dropped) : Steps s c s' := .inr ⟨p,added,rest,dropped,ha,heq.symm⟩

theorem Advances.sublist (ha : Advances s c p added rest dropped) :
    rest.Sublist (s.replies c.thread) := by
  rcases ha.queue with ⟨-,hq,-⟩ | ⟨reply,-,-,-,hq⟩
  · exact hq ▸ List.sublist_append_right _ _
  · exact hq ▸ List.sublist_cons_self _ _

/-- The queues hold nothing new. -/
theorem Advances.mem_replies (ha : Advances s c p added rest dropped) {t : ℕ} {reply : WriteResult R}
    (h : reply ∈ (progress s c p added rest dropped).replies t) : reply ∈ s.replies t := by
  change reply ∈ Function.update s.replies c.thread rest t at h
  rw [Function.update_apply] at h
  split at h
  · rename_i ht
    exact ht ▸ ha.sublist.subset h
  · exact h

/-- What is put is new. -/
theorem Inv.not_mem_added (h : Inv uuids handle db₀ s) (hc : s.calls.get c.id = some c)
    (ha : Advances s c p added rest dropped) {id : ℕ} (hid : id ∈ added) : id = c.id ∧ id ∉ s.puts := by
  rcases ha.added with ⟨rfl,-⟩ | ⟨rfl,hphase,-⟩
  · cases hid
  · obtain rfl := List.mem_singleton.mp hid
    exact ⟨rfl,(h.calls _ c hc).unput (Or.inr hphase)⟩

/-- A command with a result was put. -/
theorem Inv.mem_puts (h : Inv uuids handle db₀ s) {id : ℕ} (hid : id ∈ s.executed.map Execution.id) :
    id ∈ s.puts := h.order ▸ List.mem_append_left _ hid

/-- The call that moves. -/
theorem Inv.advance_self (h : Inv uuids handle db₀ s) (hc : s.calls.get c.id = some c)
    (ha : Advances s c p added rest dropped) :
    CallOk uuids (progress s c p added rest dropped) c.id (c.goTo p) := by
  have hok := h.calls c.id c hc
  have hreplies : (progress s c p added rest dropped).replies c.thread = rest := Function.update_self _ _ _
  refine ⟨hok.named,?_,?_,ha.asks,?_,?_⟩
  · change p.live ↔ Function.update s.current c.thread (c.kept p) c.thread = _
    rw [Function.update_self,Submission.kept_eq_some,and_iff_left rfl]
  · intro hphase hmem
    rcases ha.added with ⟨rfl,hbefore⟩ | ⟨-,-,hdraining,hputting⟩
    · change c.id ∈ s.puts ++ [] at hmem
      rw [List.append_nil] at hmem
      exact hok.unput (hbefore hphase) hmem
    · exact hphase.elim hdraining hputting
  · intro reply hreply
    change p = _ at hreply
    rcases ha.queue with ⟨hnot,-⟩ | ⟨own,rfl,hname,-,hq⟩
    · exact absurd hreply (hnot reply)
    · obtain rfl : own = reply := by simpa using hreply
      obtain ⟨d,hd,-,hname',hresult,hreplied,-⟩ := h.replies c.thread own (hq ▸ List.mem_cons_self)
      have hsame := h.eq_of_name hd hc (hname'.symm.trans hname)
      refine ⟨hname,hsame ▸ hresult,hsame ▸ hreplied,?_⟩
      have hnodup := h.distinct c.thread
      rw [hq,List.map_cons,List.nodup_cons,hname] at hnodup
      change c.commandId ∉ ((progress s c _ added rest dropped).replies c.thread).map _
      rw [hreplies]
      exact hnodup.1
  · intro hphase hreplied
    change c.commandId ∈ ((progress s c _ added rest dropped).replies c.thread).map _
    rw [hreplies]
    rcases ha.waiting hphase with hbefore | hbefore
    · exact absurd (h.mem_puts (h.replied _ hreplied)) (hok.unput (Or.inr hbefore))
    · rcases ha.queue with ⟨-,hq,hothers⟩ | ⟨own,hown,-⟩
      · have hmem := hok.waiting hbefore hreplied
        rw [hq,List.map_append] at hmem
        refine (List.mem_append.mp hmem).resolve_left (fun hdropped => ?_)
        obtain ⟨reply,hreply,hname⟩ := List.mem_map.mp hdropped
        exact hothers reply hreply hbefore hname
      · cases hown.symm.trans hphase

/-- The other calls. -/
theorem Inv.advance_other (h : Inv uuids handle db₀ s) (hc : s.calls.get c.id = some c)
    (ha : Advances s c p added rest dropped) {d : Submission Op R} {k : ℕ} (hk : k ≠ c.id)
    (hd : s.calls.get k = some d) : CallOk uuids (progress s c p added rest dropped) k d := by
  have hok := h.calls k d hd
  have hends : d.thread = c.thread → d.phase.live → False := fun hthread hlive =>
    hk (h.eq_of_live hd hc hthread hlive ha.live)
  have hnames : ∀ name, name ∈ ((progress s c p added rest dropped).replies d.thread).map
      WriteResult.commandId → name ∈ (s.replies d.thread).map WriteResult.commandId := by
    intro name hname
    obtain ⟨reply,hreply,rfl⟩ := List.mem_map.mp hname
    exact List.mem_map_of_mem (ha.mem_replies hreply)
  refine ⟨hok.named,?_,?_,hok.asks,?_,?_⟩
  · change d.phase.live ↔ Function.update s.current c.thread (c.kept p) d.thread = _
    rw [Function.update_apply]
    split
    · rename_i hthread
      exact iff_of_false (hends hthread) (fun heq => hk (Submission.kept_eq_some.mp heq).2.symm)
    · exact hok.current
  · intro hphase hmem
    rcases List.mem_append.mp hmem with hmem | hmem
    · exact hok.unput hphase hmem
    · exact hk (h.not_mem_added hc ha hmem).1
  · intro reply hreply
    obtain ⟨hname,hresult,hreplied,hnot⟩ := hok.returned reply hreply
    exact ⟨hname,hresult,hreplied,fun hmem => hnot (hnames _ hmem)⟩
  · intro hphase hreplied
    change d.commandId ∈ (Function.update s.replies c.thread rest d.thread).map _
    rw [Function.update_of_ne]
    · exact hok.waiting hphase hreplied
    · exact fun hthread => hends hthread (by rw [hphase]; rfl)

/-- The replies that are left in the queues. -/
theorem Inv.advance_replies (h : Inv uuids handle db₀ s) (hc : s.calls.get c.id = some c)
    (ha : Advances s c p added rest dropped) {t : ℕ} {reply : WriteResult R}
    (hreply : reply ∈ (progress s c p added rest dropped).replies t) :
    ReplyOk (progress s c p added rest dropped) t reply := by
  obtain ⟨d,hd,hthread,hname,hresult,hreplied,hanswerable⟩ := h.replies t reply (ha.mem_replies hreply)
  by_cases hk : d.id = c.id
  · obtain rfl : c = d := Option.some.inj (hc.symm.trans (hk ▸ hd))
    refine ⟨c.goTo p,(get_move hc c.id).trans (if_pos rfl),hthread,hname,hresult,hreplied,?_⟩
    have hwaiting := Phase.eq_waiting ha.live hanswerable
    rcases ha.stays hwaiting with hstays | ⟨own,hown⟩
    · exact hstays
    · -- The reply of a call that has just returned is not in its queue any more.
      have hself := (h.advance_self hc ha).returned own hown
      rw [← hthread] at hreply
      exact absurd (List.mem_map.mpr ⟨reply,hreply,hname⟩) hself.2.2.2
  · exact ⟨d,(get_move hc d.id).trans ((if_neg hk).trans hd),hthread,hname,hresult,hreplied,hanswerable⟩

/-- The replies that are thrown away. -/
theorem Inv.advance_dropped (h : Inv uuids handle db₀ s) (hc : s.calls.get c.id = some c)
    (ha : Advances s c p added rest dropped) {reply : WriteResult R}
    (hreply : reply ∈ s.dropped ++ dropped) :
    ∃ id d, (progress s c p added rest dropped).calls.get id = some d ∧
      reply.commandId = d.commandId ∧ d.phase.gaveUp := by
  obtain ⟨id,d,hd,hname,hgaveUp⟩ : ∃ id d, s.calls.get id = some d ∧
      reply.commandId = d.commandId ∧ d.phase.gaveUp := by
    rcases List.mem_append.mp hreply with hreply | hreply
    · exact h.dropped reply hreply
    · rcases ha.queue with ⟨-,hq,hothers⟩ | ⟨own,-,-,rfl,-⟩
      · exact h.gaveUp hc ha.live (hq ▸ List.mem_append_left _ hreply) (hothers reply hreply)
      · cases hreply
  have hk : id ≠ c.id := by
    rintro rfl
    obtain rfl := Option.some.inj (hc.symm.trans hd)
    rw [Phase.gaveUp_of_live ha.live] at hgaveUp
    cases hgaveUp
  exact ⟨id,d,(get_move hc id).trans ((if_neg hk).trans hd),hname,hgaveUp⟩

theorem Inv.advance (h : Inv uuids handle db₀ s) (hc : s.calls.get c.id = some c)
    (ha : Advances s c p added rest dropped) :
    Inv uuids handle db₀ (progress s c p added rest dropped) := by
  have hget : ∀ k, (progress s c p added rest dropped).calls.get k =
      if k = c.id then some (c.goTo p) else s.calls.get k := get_move hc
  have hmoved : ∀ k d, s.calls.get k = some d → ∃ e,
      (progress s c p added rest dropped).calls.get k = some e ∧ e.op = d.op ∧
        e.thread = d.thread ∧ e.commandId = d.commandId := by
    intro k d hd
    rw [hget]
    split
    · rename_i hk
      obtain rfl : c = d := Option.some.inj (hc.symm.trans (hk ▸ hd))
      exact ⟨_,rfl,rfl,rfl,rfl⟩
    · exact ⟨d,hd,rfl,rfl,rfl⟩
  refine ⟨?_,?_,?_,?_,?_,h.replied,h.replying,?_,?_,?_,h.database,h.results,?_⟩
  · intro k d hd
    rw [hget] at hd
    split at hd
    · rename_i hk
      obtain rfl := Option.some.inj hd
      exact hk ▸ h.advance_self hc ha
    · rename_i hk
      exact h.advance_other hc ha hk hd
  · intro t id hid
    change Function.update s.current c.thread (c.kept p) t = some id at hid
    rw [Function.update_apply] at hid
    split at hid
    · rename_i ht
      obtain ⟨-,rfl⟩ := Submission.kept_eq_some.mp hid
      exact ⟨c.goTo p,(hget c.id).trans (if_pos rfl),ht.symm⟩
    · obtain ⟨d,hd,hthread⟩ := h.current t id hid
      obtain ⟨e,he,-,hsame,-⟩ := hmoved id d hd
      exact ⟨e,he,hsame.trans hthread⟩
  · change s.puts ++ added = _ ++ (_ ++ (s.commands ++ added))
    rw [h.order,List.append_assoc,List.append_assoc]
    rfl
  · refine List.nodup_append.mpr ⟨h.puts,?_,?_⟩
    · rcases ha.added with ⟨rfl,-⟩ | ⟨rfl,-⟩
      · exact List.nodup_nil
      · exact List.nodup_singleton _
    · rintro k hk l hl rfl
      exact (h.not_mem_added hc ha hl).2 hk
  · intro id hid
    rw [hget]
    split
    · rfl
    · rename_i hk
      rcases List.mem_append.mp hid with hid | hid
      · exact h.known id hid
      · exact absurd (h.not_mem_added hc ha hid).1 hk
  · exact fun t reply hreply => h.advance_replies hc ha hreply
  · intro t
    change ((Function.update s.replies c.thread rest t).map _).Nodup
    rw [Function.update_apply]
    split
    · exact (h.distinct c.thread).sublist (ha.sublist.map _)
    · exact h.distinct t
  · exact fun reply hreply => h.advance_dropped hc ha hreply
  · intro e he
    obtain ⟨d,hd,hop⟩ := h.asked e he
    obtain ⟨d',hd',hsame,-⟩ := hmoved e.id d hd
    exact ⟨d',hd',hsame.trans hop⟩

end Advance

theorem update_of_eq {α : Type} {f : ℕ → α} {k : ℕ} {x : α} (h : f k = x) : Function.update f k x = f := by
  rw [← h,Function.update_eq_self]

theorem move_phase (hc : s.calls.get c.id = some c) : s.move c.id c.phase = s := by
  have hmodify : s.calls.modify c.id (Submission.goTo c.phase) (Submission.goTo_id c.phase) =
      s.calls.modify c.id (fun r => r) (fun _ => rfl) := (Table.modify_eq_iff hc).mpr rfl
  rw [State.move,hmodify,Table.modify_self]

/-- A live call that throws a reply away. -/
theorem Inv.discard (h : Inv uuids handle db₀ s) (hc : s.calls.get c.id = some c) (hlive : c.phase.live)
    {reply : WriteResult R} {rest : List (WriteResult R)} (hreplies : s.replies c.thread = reply::rest)
    (hother : c.phase = .waiting → reply.commandId ≠ c.commandId) : Steps s c { s with
      replies := Function.update s.replies c.thread rest, dropped := s.dropped ++ [reply] } := by
  have hcurrent := (h.calls c.id c hc).current.mp hlive
  have heq : progress s c c.phase [] rest [reply] = { s with
      replies := Function.update s.replies c.thread rest, dropped := s.dropped ++ [reply] } := by
    rw [progress,move_phase hc,List.append_nil,List.append_nil,update_of_eq]
    rw [hcurrent,Submission.kept,if_pos hlive]
  refine steps_of_eq heq ⟨hlive,Or.inl ⟨?_,hreplies,?_⟩,Or.inl ⟨rfl,fun hp => hp⟩,?_,?_,?_⟩
  · intro own hown
    rw [hown] at hlive
    cases hlive
  · intro own hown hwaiting
    rw [List.mem_singleton.mp hown]
    exact hother hwaiting
  · intro _ hreturned
    rw [hreturned] at hlive
    cases hlive
  · exact fun hwaiting => Or.inr hwaiting
  · intro hwaiting
    rw [hwaiting]
    exact Or.inl rfl

/-- A live call that ends without its reply. -/
theorem steps_endCall (hlive : c.phase.live) {p : Phase R} (hp : p.gaveUp) :
    Steps s c (s.endCall c p) := by
  have heq : progress s c p [] (s.replies c.thread) [] = s.endCall c p := by
    have hkept : c.kept p = none := by
      cases p with
      | timedOut => rfl
      | failed => rfl
      | _ => cases hp
    rw [progress,State.endCall,hkept,List.append_nil,List.append_nil,List.append_nil,
      Function.update_eq_self]
    rfl
  refine steps_of_eq heq ⟨hlive,Or.inl ⟨?_,rfl,fun _ hr => nomatch hr⟩,Or.inl ⟨rfl,?_⟩,?_,?_,?_⟩
  · rintro own rfl
    cases hp
  · rintro (rfl | rfl) <;> cases hp
  · rintro _ rfl
    cases hp
  · rintro rfl
    cases hp
  · intro _
    cases p with
    | timedOut => exact Or.inl rfl
    | failed => exact Or.inl rfl
    | _ => cases hp

theorem steps_drain (h : Inv uuids handle db₀ s) (hc : s.calls.get c.id = some c) :
    Steps s c (drain s c) := by
  rw [drain.eq_def]
  split
  · rename_i hphase
    have hlive : c.phase.live := by
      rw [hphase]
      rfl
    split
    · rename_i hempty
      have heq : progress s c .putting [] [] [] = s.move c.id .putting := by
        rw [progress,List.append_nil,List.append_nil,List.append_nil,update_of_eq hempty,update_of_eq]
        · rfl
        · exact (h.calls c.id c hc).current.mp hlive
      exact steps_of_eq heq ⟨hlive,Or.inl ⟨(fun _ hr => nomatch hr),hempty,(fun _ hr => nomatch hr)⟩,
        Or.inl ⟨rfl,fun _ => Or.inl hphase⟩,(fun _ hr => nomatch hr),(fun hr => nomatch hr),
        fun hwaiting => nomatch hphase.symm.trans hwaiting⟩
    · rename_i reply rest hreplies
      exact h.discard hc hlive hreplies (fun hwaiting => nomatch hphase.symm.trans hwaiting)
  · exact .inl rfl

theorem steps_put (h : Inv uuids handle db₀ s) (hc : s.calls.get c.id = some c) :
    Steps s c (put s c) := by
  rw [put.eq_def]
  split
  · rename_i hphase
    have hlive : c.phase.live := by
      rw [hphase]
      rfl
    have hwaiting : c.phase ≠ .waiting := fun hw => nomatch hphase.symm.trans hw
    split
    · have heq : progress s c .waiting [c.id] (s.replies c.thread) [] =
          { s.move c.id .waiting with commands := s.commands ++ [c.id], puts := s.puts ++ [c.id] } := by
        rw [progress,List.append_nil,Function.update_eq_self,update_of_eq]
        · rfl
        · exact (h.calls c.id c hc).current.mp hlive
      exact steps_of_eq heq ⟨hlive,Or.inl ⟨(fun _ hr => nomatch hr),rfl,(fun _ hr => nomatch hr)⟩,
        Or.inr ⟨rfl,hphase,(fun hr => nomatch hr),(fun hr => nomatch hr)⟩,(fun _ hr => nomatch hr),
        fun _ => Or.inl hphase,fun _ => Or.inl rfl⟩
    · rename_i hwait
      have heq : progress s c (.returned none) [c.id] (s.replies c.thread) [] =
          { s.endCall c (.returned none) with
            commands := s.commands ++ [c.id], puts := s.puts ++ [c.id] } := by
        rw [progress,List.append_nil,Function.update_eq_self]
        rfl
      refine steps_of_eq heq ⟨hlive,Or.inl ⟨?_,rfl,(fun _ hr => nomatch hr)⟩,
        Or.inr ⟨rfl,hphase,(fun hr => nomatch hr),(fun hr => nomatch hr)⟩,
        fun hw => absurd hw hwait,(fun hr => nomatch hr),fun hw => absurd hw hwaiting⟩
      intro own hown
      cases hown
  · exact .inl rfl

theorem steps_take (h : Inv uuids handle db₀ s) (hc : s.calls.get c.id = some c) :
    Steps s c (take s c) := by
  rw [take.eq_def]
  split
  · rename_i hphase
    have hlive : c.phase.live := by
      rw [hphase]
      rfl
    split
    · exact .inl rfl
    · rename_i reply rest hreplies
      split
      · rename_i hname
        have heq : progress s c (.returned (some reply)) [] rest [] =
            { s.endCall c (.returned (some reply)) with
              replies := Function.update s.replies c.thread rest } := by
          rw [progress,List.append_nil,List.append_nil,List.append_nil]
          rfl
        refine steps_of_eq heq ⟨hlive,Or.inr ⟨reply,rfl,hname,rfl,hreplies⟩,Or.inl ⟨rfl,?_⟩,
          (fun _ hr => nomatch hr),(fun hr => nomatch hr),fun _ => Or.inr ⟨reply,rfl⟩⟩
        rintro (hr | hr) <;> cases hr
      · rename_i hname
        exact h.discard hc hlive hreplies (fun _ => hname)
  · exact .inl rfl

theorem steps_timeOut : Steps s c (timeOut s c) := by
  rw [timeOut.eq_def]
  split
  · rename_i hphase
    exact steps_endCall (by rw [hphase]; rfl) rfl
  · exact .inl rfl

theorem steps_fail (arrived : Bool) : Steps s c (fail s c arrived) := by
  rw [fail.eq_def]
  split
  · rename_i hphase
    have hlive : c.phase.live := by
      rw [hphase]
      rfl
    split
    · have heq : progress s c .failed [c.id] (s.replies c.thread) [] =
          { s.endCall c .failed with commands := s.commands ++ [c.id], puts := s.puts ++ [c.id] } := by
        rw [progress,List.append_nil,Function.update_eq_self]
        rfl
      exact steps_of_eq heq ⟨hlive,Or.inl ⟨(fun _ hr => nomatch hr),rfl,(fun _ hr => nomatch hr)⟩,
        Or.inr ⟨rfl,hphase,(fun hr => nomatch hr),(fun hr => nomatch hr)⟩,(fun _ hr => nomatch hr),
        (fun hr => nomatch hr),fun _ => Or.inl rfl⟩
    · exact steps_endCall hlive rfl
  · rename_i hphase
    exact steps_endCall (by rw [hphase]; rfl) rfl
  · rename_i hphase
    exact steps_endCall (by rw [hphase]; rfl) rfl
  · exact .inl rfl

/-- What every advance of a call keeps, its steps keep. -/
theorem onCall_of_advance {I : State Op R DB → Prop} {id : ℕ} {f : Submission Op R → State Op R DB}
    (hs : I s) (hadvance : ∀ c, s.calls.get c.id = some c → ∀ p added rest dropped,
      Advances s c p added rest dropped → I (progress s c p added rest dropped))
    (hsteps : ∀ c, s.calls.get c.id = some c → Steps s c (f c)) : I (onCall s id f) := by
  rw [onCall]
  cases hc : s.calls.get id with
  | none => exact hs
  | some c =>
    obtain rfl := (Table.get_eq_some.mp hc).2
    rw [Option.elim_some]
    rcases hsteps c hc with hsame | ⟨p,added,rest,dropped,ha,heq⟩
    · exact hsame ▸ hs
    · exact heq ▸ hadvance c hc p added rest dropped ha

theorem inv_onCall {id : ℕ} {f : Submission Op R → State Op R DB} (h : Inv uuids handle db₀ s)
    (hsteps : ∀ c, s.calls.get c.id = some c → Steps s c (f c)) :
    Inv uuids handle db₀ (onCall s id f) :=
  onCall_of_advance h (fun _ hc _ _ _ _ ha => h.advance hc ha) hsteps

/-- The calls with a new one. -/
theorem get_newCall (s : State Op R DB) (uuids : Uuids) (thread : ℕ) (op : Op) (wait : Bool) (k : ℕ) :
    (s.calls.append (newCall uuids thread op wait) (newCall_id uuids thread op wait)).get k =
      if k = s.calls.nextKey then some (newCall uuids thread op wait k) else s.calls.get k := by
  rw [Table.get_append]
  split
  · rename_i hk
    rw [hk]
  · rfl

theorem get_newCall_of_some (uuids : Uuids) (thread : ℕ) (op : Op) (wait : Bool) {k : ℕ}
    (hc : s.calls.get k = some c) :
    (s.calls.append (newCall uuids thread op wait) (newCall_id uuids thread op wait)).get k =
      some c := by
  rw [get_newCall,if_neg,hc]
  rintro rfl
  rw [Table.get_nextKey] at hc
  cases hc

theorem inv_submit (h : Inv uuids handle db₀ s) (thread : ℕ) (op : Op) (wait : Bool) :
    Inv uuids handle db₀ (submit uuids s thread op wait) := by
  rw [submit.eq_def]
  split
  · rename_i hidle
    have hget := get_newCall s uuids thread op wait
    have hold := fun k d (hd : s.calls.get k = some d) => get_newCall_of_some uuids thread op wait hd
    refine ⟨?_,?_,h.order,h.puts,?_,h.replied,h.replying,?_,h.distinct,?_,h.database,h.results,?_⟩
    · intro k d hd
      change (s.calls.append _ (newCall_id uuids thread op wait)).get k = some d at hd
      rw [hget] at hd
      split at hd
      · rename_i hk
        obtain rfl := Option.some.inj hd
        refine ⟨rfl,?_,?_,?_,?_,?_⟩
        · refine iff_of_true (by cases wait <;> rfl) ?_
          change Function.update s.current thread _ thread = _
          rw [Function.update_self,hk]
        · intro _ hmem
          have hknown := h.known k hmem
          rw [hk,Table.get_nextKey] at hknown
          cases hknown
        · intro _ hphase
          cases wait <;> cases hphase
        · intro reply hphase
          cases wait <;> cases hphase
        · intro hphase
          cases wait <;> cases hphase
      · rename_i hk
        have hok := h.calls k d hd
        refine ⟨hok.named,?_,hok.unput,hok.asks,hok.returned,hok.waiting⟩
        change d.phase.live ↔ Function.update s.current thread _ d.thread = _
        rw [Function.update_apply]
        split
        · rename_i hthread
          rw [hok.current,hthread,hidle]
          exact iff_of_false (Option.some_ne_none k).symm (fun heq => hk (Option.some.inj heq).symm)
        · exact hok.current
    · intro t id hid
      change Function.update s.current thread _ t = _ at hid
      rw [Function.update_apply] at hid
      split at hid
      · rename_i ht
        obtain rfl := Option.some.inj hid
        exact ⟨_,(hget _).trans (if_pos rfl),ht.symm⟩
      · obtain ⟨d,hd,hthread⟩ := h.current t id hid
        exact ⟨d,hold id d hd,hthread⟩
    · intro id hid
      obtain ⟨d,hd⟩ := Option.isSome_iff_exists.mp (h.known id hid)
      exact Option.isSome_iff_exists.mpr ⟨d,hold id d hd⟩
    · intro t reply hreply
      obtain ⟨d,hd,hrest⟩ := h.replies t reply hreply
      exact ⟨d,hold d.id d hd,hrest⟩
    · intro reply hreply
      obtain ⟨id,d,hd,hrest⟩ := h.dropped reply hreply
      exact ⟨id,d,hold id d hd,hrest⟩
    · intro e he
      obtain ⟨d,hd,hop⟩ := h.asked e he
      exact ⟨d,hold e.id d hd,hop⟩
  · exact h

/-! The steps of the writer -/

theorem inv_get (h : Inv uuids handle db₀ s) : Inv uuids handle db₀ (get s) := by
  rw [get.eq_def]
  split
  · rename_i id rest hwriter hcommands
    have horder : s.puts = s.executed.map Execution.id ++ ([id] ++ rest) := by
      rw [h.order,hwriter,hcommands]
      rfl
    refine ⟨?_,h.current,horder,h.puts,h.known,h.replied,(fun _ _ hw => nomatch hw),h.replies,
      h.distinct,h.dropped,h.database,h.results,h.asked⟩
    intro k d hd
    have hok := h.calls k d hd
    exact ⟨hok.named,hok.current,hok.unput,hok.asks,hok.returned,hok.waiting⟩
  · exact h

/-- The writer has the result of a command. -/
theorem Inv.process (h : Inv uuids handle db₀ s) {id : ℕ} (hwriter : s.writer = .holding id)
    (hc : s.calls.get id = some c) : Inv uuids handle db₀ { s with
      writer := .replying id (handle c.op s.db).1
      db := (handle c.op s.db).2
      executed := s.executed ++ [⟨id,c.op,(handle c.op s.db).1⟩] } := by
  have horder : s.puts = s.executed.map Execution.id ++ (id::s.commands) := by
    rw [h.order,hwriter]
    rfl
  have hnew : id ∉ s.executed.map Execution.id := by
    have hnodup := h.puts
    rw [horder] at hnodup
    exact fun hmem => List.disjoint_of_nodup_append hnodup hmem List.mem_cons_self
  have hresult : ∀ k result, s.Result k result → ({ s with
      writer := .replying id (handle c.op s.db).1
      db := (handle c.op s.db).2
      executed := s.executed ++ [⟨id,c.op,(handle c.op s.db).1⟩] } : State Op R DB).Result k result :=
    fun k result ⟨e,he,hrest⟩ => ⟨e,List.mem_append_left _ he,hrest⟩
  refine ⟨?_,h.current,?_,h.puts,h.known,?_,?_,?_,h.distinct,h.dropped,?_,?_,?_⟩
  · intro k d hd
    have hok := h.calls k d hd
    refine ⟨hok.named,hok.current,hok.unput,hok.asks,?_,hok.waiting⟩
    intro reply hreply
    obtain ⟨hname,hreturned,hrest⟩ := hok.returned reply hreply
    exact ⟨hname,hresult _ _ hreturned,hrest⟩
  · change s.puts = (s.executed ++ [_]).map _ ++ ([] ++ s.commands)
    rw [horder,List.map_append,List.append_assoc]
    rfl
  · intro k hk
    rw [List.map_append]
    exact List.mem_append_left _ (h.replied k hk)
  · intro k result hw
    cases hw
    exact ⟨fun hmem => hnew (h.replied id hmem),
      ⟨_,List.mem_append_right _ (List.mem_singleton.mpr rfl),rfl,rfl⟩⟩
  · intro t reply hreply
    obtain ⟨d,hd,hthread,hname,hreturned,hrest⟩ := h.replies t reply hreply
    exact ⟨d,hd,hthread,hname,hresult _ _ hreturned,hrest⟩
  · change _ = replay handle db₀ (s.executed ++ [_])
    rw [replay_append,← h.database]
    rfl
  · intro before e after heq
    rcases List.eq_nil_or_concat after with rfl | ⟨tail,last,rfl⟩
    · obtain ⟨rfl,hlast⟩ := List.append_inj' heq rfl
      obtain rfl := List.singleton_inj.mp hlast
      rw [← h.database]
    · rw [List.concat_eq_append,← List.cons_append,← List.append_assoc] at heq
      exact h.results before e tail (List.append_inj' heq rfl).1
  · intro e he
    rcases List.mem_append.mp he with he | he
    · exact h.asked e he
    · obtain rfl := List.mem_singleton.mp he
      exact ⟨c,hc,rfl⟩

theorem inv_process (h : Inv uuids handle db₀ s) : Inv uuids handle db₀ (process handle s) := by
  rw [process.eq_def]
  split
  · rename_i id hwriter
    split
    · rename_i c hc
      exact h.process hwriter hc
    · exact h
  · exact h

/-- The writer goes on to its next command. -/
theorem Inv.idle (h : Inv uuids handle db₀ s) {id : ℕ} {result : R}
    (hwriter : s.writer = .replying id result) : Inv uuids handle db₀ { s with writer := .idle } := by
  have horder : s.puts = s.executed.map Execution.id ++ ([] ++ s.commands) := by
    rw [h.order,hwriter]
    rfl
  refine ⟨?_,h.current,horder,h.puts,h.known,h.replied,(fun _ _ hw => nomatch hw),h.replies,
    h.distinct,h.dropped,h.database,h.results,h.asked⟩
  intro k d hd
  have hok := h.calls k d hd
  exact ⟨hok.named,hok.current,hok.unput,hok.asks,hok.returned,hok.waiting⟩

/-- A call with a result, and without its reply, is one that can still get it. -/
theorem Inv.answerable (h : Inv uuids handle db₀ s) (hc : s.calls.get c.id = some c) (hwait : c.wait)
    (hexecuted : c.id ∈ s.executed.map Execution.id) (hreplied : c.id ∉ s.replied) :
    c.phase.answerable := by
  have hok := h.calls c.id c hc
  have hput := h.mem_puts hexecuted
  cases hphase : c.phase with
  | waiting => rfl
  | timedOut => rfl
  | failed => rfl
  | draining => exact absurd hput (hok.unput (Or.inl hphase))
  | putting => exact absurd hput (hok.unput (Or.inr hphase))
  | returned reply =>
    cases reply with
    | none => exact absurd hphase (hok.asks hwait)
    | some reply => exact absurd (hok.returned reply hphase).2.2.1 hreplied

/-- Once it has its reply, no other call is answered under the name of a command. -/
theorem Inv.ne_of_replied (h : Inv uuids handle db₀ s) (hc : s.calls.get c.id = some c)
    (hreplied : c.id ∉ s.replied) {k : ℕ} {d : Submission Op R} (hd : s.calls.get k = some d)
    (hk : k ∈ s.replied) : d.commandId ≠ c.commandId := by
  intro hname
  rw [h.eq_of_name hd hc hname] at hk
  exact hreplied hk

/-- The calls when the reply of one is put. -/
theorem Inv.reply_call (h : Inv uuids handle db₀ s) (hc : s.calls.get c.id = some c) (result : R)
    (hreplied : c.id ∉ s.replied) {k : ℕ} {d : Submission Op R} (hd : s.calls.get k = some d) :
    CallOk uuids { s with
      replies := Function.update s.replies c.thread (s.replies c.thread ++ [⟨c.commandId,result⟩])
      replied := s.replied ++ [c.id] } k d := by
  have hok := h.calls k d hd
  refine ⟨hok.named,hok.current,hok.unput,hok.asks,?_,?_⟩
  · intro reply hreply
    obtain ⟨hname,hreturned,hk,hnot⟩ := hok.returned reply hreply
    refine ⟨hname,hreturned,List.mem_append_left _ hk,fun hmem => ?_⟩
    change d.commandId ∈ (Function.update s.replies c.thread _ d.thread).map _ at hmem
    rw [Function.update_apply] at hmem
    split at hmem
    · rename_i hthread
      rw [List.map_append,List.mem_append] at hmem
      rcases hmem with hmem | hmem
      · exact hnot (hthread ▸ hmem)
      · exact h.ne_of_replied hc hreplied hd hk (List.mem_singleton.mp hmem)
    · exact hnot hmem
  · intro hphase hk
    change d.commandId ∈ (Function.update s.replies c.thread _ d.thread).map _
    rcases List.mem_append.mp hk with hk | hk
    · have hmem := hok.waiting hphase hk
      rw [Function.update_apply]
      split
      · rename_i hthread
        rw [List.map_append]
        exact List.mem_append_left _ (hthread ▸ hmem)
      · exact hmem
    · obtain rfl := List.mem_singleton.mp hk
      obtain rfl := Option.some.inj (hc.symm.trans hd)
      rw [Function.update_self,List.map_append]
      exact List.mem_append_right _ (List.mem_singleton.mpr rfl)

/-- The reply of a command is put into the queue of its thread. -/
theorem Inv.reply (h : Inv uuids handle db₀ s) (hc : s.calls.get c.id = some c) {result : R}
    (hresult : s.Result c.id result) (hreplied : c.id ∉ s.replied) (hwait : c.wait)
    (hidle : ∀ id result, s.writer ≠ .replying id result) :
    Inv uuids handle db₀ { s with
      replies := Function.update s.replies c.thread (s.replies c.thread ++ [⟨c.commandId,result⟩])
      replied := s.replied ++ [c.id] } := by
  have hexecuted : c.id ∈ s.executed.map Execution.id := by
    obtain ⟨e,he,hid,-⟩ := hresult
    exact List.mem_map.mpr ⟨e,he,hid⟩
  refine ⟨fun k d hd => h.reply_call hc result hreplied hd,h.current,h.order,h.puts,h.known,?_,
    fun id r hw => absurd hw (hidle id r),?_,?_,h.dropped,h.database,h.results,h.asked⟩
  · intro k hk
    rcases List.mem_append.mp hk with hk | hk
    · exact h.replied k hk
    · exact List.mem_singleton.mp hk ▸ hexecuted
  · intro t reply hreply
    have hcases : reply ∈ s.replies t ∨ (t = c.thread ∧ reply = ⟨c.commandId,result⟩) := by
      change reply ∈ Function.update s.replies c.thread _ t at hreply
      rw [Function.update_apply] at hreply
      split at hreply
      · rename_i ht
        rcases List.mem_append.mp hreply with hreply | hreply
        · exact Or.inl (ht ▸ hreply)
        · exact Or.inr ⟨ht,List.mem_singleton.mp hreply⟩
      · exact Or.inl hreply
    rcases hcases with hold | ⟨rfl,rfl⟩
    · obtain ⟨d,hd,hthread,hname,hreturned,hk,hrest⟩ := h.replies t reply hold
      exact ⟨d,hd,hthread,hname,hreturned,List.mem_append_left _ hk,hrest⟩
    · exact ⟨c,hc,rfl,rfl,hresult,List.mem_append_right _ (List.mem_singleton.mpr rfl),
        h.answerable hc hwait hexecuted hreplied⟩
  · intro t
    change ((Function.update s.replies c.thread _ t).map _).Nodup
    rw [Function.update_apply]
    split
    · rw [List.map_append,List.nodup_append]
      refine ⟨h.distinct c.thread,List.nodup_singleton _,?_⟩
      rintro name hname other hother rfl
      obtain ⟨reply,hreply,hsame⟩ := List.mem_map.mp hname
      obtain ⟨d,hd,-,hdname,-,hk,-⟩ := h.replies c.thread reply hreply
      exact h.ne_of_replied hc hreplied hd hk
        (hdname.symm.trans (hsame.trans (List.mem_singleton.mp hother)))
    · exact h.distinct t

theorem inv_reply (h : Inv uuids handle db₀ s) (lost : Bool) : Inv uuids handle db₀ (reply s lost) := by
  rw [reply.eq_def]
  split
  · rename_i id result hwriter
    split
    · rename_i c hc
      obtain rfl := (Table.get_eq_some.mp hc).2
      obtain ⟨hreplied,hresult⟩ := h.replying c.id result hwriter
      split
      · rename_i hwait
        exact (h.idle hwriter).reply hc hresult hreplied hwait.1 (fun _ _ hw => nomatch hw)
      · exact h.idle hwriter
    · exact h
  · exact h

theorem inv_step (h : Inv uuids handle db₀ s) (l : Label Op) :
    Inv uuids handle db₀ (step uuids handle s l) := by
  cases l with
  | submit thread op wait => exact inv_submit h thread op wait
  | drain id => exact inv_onCall h (fun _ hc => steps_drain h hc)
  | put id => exact inv_onCall h (fun _ hc => steps_put h hc)
  | take id => exact inv_onCall h (fun _ hc => steps_take h hc)
  | timeOut id => exact inv_onCall h (fun _ _ => steps_timeOut)
  | fail id arrived => exact inv_onCall h (fun _ _ => steps_fail arrived)
  | get => exact inv_get h
  | process => exact inv_process h
  | reply lost => exact inv_reply h lost

theorem inv_run (uuids : Uuids) (handle : Op → DB → R × DB) (db₀ : DB) (ls : List (Label Op)) :
    Inv uuids handle db₀ (run (step uuids handle) (start db₀) ls) :=
  run_invariant (I := Inv uuids handle db₀) (fun _ l h => inv_step h l) (inv_start uuids handle db₀) ls

/-! The order of the commands of a thread -/

def State.threadOf (s : State Op R DB) (id : ℕ) : Option ℕ :=
  (s.calls.get id).map Submission.thread

/-- The first of two calls comes before the other one if one thread makes both. -/
def State.Earlier (s : State Op R DB) (k id : ℕ) : Prop := s.threadOf k = s.threadOf id → k < id

/-- The first of two replies is to an earlier command. -/
def WriteResult.Before (uuids : Uuids) (reply other : WriteResult R) : Prop :=
  ∀ k id, reply.commandId = uuids.text k → other.commandId = uuids.text id → k < id

/-- The replies of a thread come in the order of its calls, and none is lost. -/
structure Ordered (uuids : Uuids) (s : State Op R DB) : Prop where
  latest : ∀ t id, s.current t = some id → ∀ k, s.threadOf k = some t → k ≤ id
  puts : s.puts.Pairwise s.Earlier
  replying : ∀ id result, s.writer = .replying id result → ∀ k ∈ s.replied, s.Earlier k id
  replies : ∀ t, (s.replies t).Pairwise (WriteResult.Before uuids)
  behind : ∀ id c reply, s.calls.get id = some c → c.phase = .returned (some reply) →
    ∀ other ∈ s.replies c.thread, reply.Before uuids other
  kept : ∀ id c, s.calls.get id = some c → id ∈ s.replied →
    (∃ reply, c.phase = .returned (some reply)) ∨
      c.commandId ∈ (s.dropped ++ s.replies c.thread).map WriteResult.commandId

theorem ordered_start (uuids : Uuids) (db : DB) :
    Ordered uuids (start db : State Op R DB) := by
  refine ⟨?_,List.Pairwise.nil,?_,fun _ => List.Pairwise.nil,?_,?_⟩
  · intro t id hid
    cases hid
  · intro id result hwriter
    cases hwriter
  · intro id c reply hc
    cases hc
  · intro id c hc
    cases hc

theorem earlier_of_threadOf {s' : State Op R DB} (h : s'.threadOf = s.threadOf) :
    s'.Earlier = s.Earlier := by
  funext k id
  rw [State.Earlier,h]
  rfl

theorem before_of_lt {reply other : WriteResult R} {k id : ℕ} (hreply : reply.commandId = uuids.text k)
    (hother : other.commandId = uuids.text id) (h : k < id) : reply.Before uuids other := by
  intro i j hi hj
  rw [uuids.injective (hi.symm.trans hreply),uuids.injective (hj.symm.trans hother)]
  exact h

section Advance
variable {p : Phase R} {added : List ℕ} {rest dropped : List (WriteResult R)}

theorem threadOf_progress (hc : s.calls.get c.id = some c) :
    (progress s c p added rest dropped).threadOf = s.threadOf := by
  funext k
  change ((s.move c.id p).calls.get k).map Submission.thread = _
  rw [get_move hc]
  split
  · rename_i hk
    rw [State.threadOf,hk,hc]
    rfl
  · rfl

/-- An advance leaves a reply where it is, throws it away, or returns it. -/
theorem Advances.mem_names (ha : Advances s c p added rest dropped) {t : ℕ} {name : String}
    (h : name ∈ (s.dropped ++ s.replies t).map WriteResult.commandId) :
    name ∈ ((progress s c p added rest dropped).dropped ++
        (progress s c p added rest dropped).replies t).map WriteResult.commandId ∨
      name = c.commandId ∧ ∃ own, p = .returned (some own) := by
  change name ∈ ((s.dropped ++ dropped) ++ Function.update s.replies c.thread rest t).map _ ∨ _
  by_cases ht : t = c.thread
  · subst ht
    rw [Function.update_self]
    rcases ha.queue with ⟨-,hq,-⟩ | ⟨own,hown,hname,rfl,hq⟩
    · rw [List.append_assoc,← hq]
      exact .inl h
    · rw [hq,List.map_append,List.map_cons,List.mem_append,List.mem_cons] at h
      rw [List.append_nil,List.map_append,List.mem_append]
      rcases h with h | h | h
      · exact .inl (.inl h)
      · exact .inr ⟨h.trans hname,own,hown⟩
      · exact .inl (.inr h)
  · rw [Function.update_of_ne ht,List.map_append,List.map_append,List.mem_append,List.mem_append]
    rw [List.map_append,List.mem_append] at h
    exact .inl (h.imp_left Or.inl)

theorem Ordered.advance (h : Ordered uuids s) (hinv : Inv uuids handle db₀ s)
    (hc : s.calls.get c.id = some c) (ha : Advances s c p added rest dropped) :
    Ordered uuids (progress s c p added rest dropped) := by
  have hthread : (progress s c p added rest dropped).threadOf = s.threadOf := threadOf_progress hc
  have hearlier := earlier_of_threadOf hthread
  have hcurrent : s.current c.thread = some c.id := (hinv.calls c.id c hc).current.mp ha.live
  refine ⟨?_,?_,?_,?_,?_,?_⟩
  · intro t id hid k hk
    rw [hthread] at hk
    refine h.latest t id ?_ k hk
    change Function.update s.current c.thread (c.kept p) t = some id at hid
    rw [Function.update_apply] at hid
    split at hid
    · rename_i ht
      obtain ⟨-,rfl⟩ := Submission.kept_eq_some.mp hid
      exact ht ▸ hcurrent
    · exact hid
  · rw [hearlier]
    refine List.pairwise_append.mpr ⟨h.puts,?_,?_⟩
    · rcases ha.added with ⟨rfl,-⟩ | ⟨rfl,-⟩
      · exact List.Pairwise.nil
      · exact List.pairwise_singleton _ _
    · intro k hk id hid hsame
      obtain ⟨rfl,hnew⟩ := hinv.not_mem_added hc ha hid
      have hown : s.threadOf c.id = some c.thread := by rw [State.threadOf,hc]; rfl
      have hle := h.latest c.thread c.id hcurrent k (hsame.trans hown)
      exact Nat.lt_of_le_of_ne hle (fun heq => hnew (heq ▸ hk))
  · rw [hearlier]
    exact h.replying
  · intro t
    change (Function.update s.replies c.thread rest t).Pairwise _
    rw [Function.update_apply]
    split
    · exact (h.replies c.thread).sublist ha.sublist
    · exact h.replies t
  · intro id d reply hd hphase other hother
    change (s.move c.id p).calls.get id = some d at hd
    rw [get_move hc] at hd
    split at hd
    · obtain rfl := Option.some.inj hd
      change p = _ at hphase
      rcases ha.queue with ⟨hnot,-⟩ | ⟨own,rfl,-,-,hq⟩
      · exact absurd hphase (hnot reply)
      · obtain rfl : own = reply := by simpa using hphase
        have hsorted := h.replies c.thread
        rw [hq] at hsorted
        change other ∈ Function.update s.replies c.thread rest c.thread at hother
        rw [Function.update_self] at hother
        exact List.rel_of_pairwise_cons hsorted hother
    · exact h.behind id d reply hd hphase other (ha.mem_replies hother)
  · intro id d hd hreplied
    change (s.move c.id p).calls.get id = some d at hd
    rw [get_move hc] at hd
    split at hd
    · rename_i hid
      obtain rfl := Option.some.inj hd
      rcases h.kept c.id c hc (hid ▸ hreplied) with ⟨reply,hreturned⟩ | hmem
      · have hlive := ha.live
        rw [hreturned] at hlive
        cases hlive
      · exact (ha.mem_names hmem).symm.imp_left And.right
    · rename_i hid
      rcases h.kept id d hd hreplied with hreturned | hmem
      · exact .inl hreturned
      · exact .inr ((ha.mem_names hmem).resolve_right
          (fun hown => hid (hinv.eq_of_name hd hc hown.1)))

end Advance

theorem ordered_onCall {id : ℕ} {f : Submission Op R → State Op R DB} (h : Ordered uuids s)
    (hinv : Inv uuids handle db₀ s) (hsteps : ∀ c, s.calls.get c.id = some c → Steps s c (f c)) :
    Ordered uuids (onCall s id f) :=
  onCall_of_advance h (fun _ hc _ _ _ _ ha => h.advance hinv hc ha) hsteps

theorem ordered_submit (h : Ordered uuids s) (hinv : Inv uuids handle db₀ s) (thread : ℕ) (op : Op)
    (wait : Bool) : Ordered uuids (submit uuids s thread op wait) := by
  rw [submit.eq_def]
  split
  · have hget := get_newCall s uuids thread op wait
    have hknown : ∀ k ∈ s.puts, ((s.calls.append (newCall uuids thread op wait)
        (newCall_id uuids thread op wait)).get k).map Submission.thread = s.threadOf k := by
      intro k hk
      obtain ⟨d,hd⟩ := Option.isSome_iff_exists.mp (hinv.known k hk)
      rw [get_newCall_of_some uuids thread op wait hd,State.threadOf,hd]
    refine ⟨?_,?_,?_,h.replies,?_,?_⟩
    · intro t id hid k hk
      change Function.update s.current thread _ t = _ at hid
      change ((s.calls.append _ (newCall_id uuids thread op wait)).get k).map _ = some t at hk
      rw [Function.update_apply] at hid
      rw [hget] at hk
      split at hk
      · rename_i hnew
        obtain rfl := Option.some.inj hk
        change (if thread = thread then some s.calls.nextKey else _) = _ at hid
        rw [if_pos rfl] at hid
        exact Nat.le_of_eq (hnew.trans (Option.some.inj hid))
      · split at hid
        · obtain rfl := Option.some.inj hid
          obtain ⟨d,hd,-⟩ := Option.map_eq_some_iff.mp hk
          obtain ⟨hmem,rfl⟩ := Table.get_eq_some.mp hd
          exact Nat.le_of_lt (s.calls.key_lt_nextKey hmem)
        · exact h.latest t id hid k hk
    · refine h.puts.imp_of_mem (fun hk hid hearlier hsame => hearlier ?_)
      rw [← hknown _ hk,← hknown _ hid]
      exact hsame
    · intro id result hwriter k hk hsame
      obtain ⟨-,e,he,hid,-⟩ := hinv.replying id result hwriter
      refine h.replying id result hwriter k hk ?_
      rw [← hknown k (hinv.mem_puts (hinv.replied k hk)),
        ← hknown id (hinv.mem_puts (List.mem_map.mpr ⟨e,he,hid⟩))]
      exact hsame
    · intro id d reply hd hphase
      change (s.calls.append _ (newCall_id uuids thread op wait)).get id = some d at hd
      rw [hget] at hd
      split at hd
      · obtain rfl := Option.some.inj hd
        cases wait <;> cases hphase
      · exact h.behind id d reply hd hphase
    · intro id d hd hreplied
      change (s.calls.append _ (newCall_id uuids thread op wait)).get id = some d at hd
      rw [hget] at hd
      split at hd
      · rename_i hnew
        have hput := hinv.known id (hinv.mem_puts (hinv.replied id hreplied))
        rw [hnew,Table.get_nextKey] at hput
        cases hput
      · exact h.kept id d hd hreplied
  · exact h

theorem ordered_get (h : Ordered uuids s) : Ordered uuids (get s) := by
  rw [get.eq_def]
  split
  · exact ⟨h.latest,h.puts,(fun _ _ hw => nomatch hw),h.replies,h.behind,h.kept⟩
  · exact h

theorem ordered_process (h : Ordered uuids s) (hinv : Inv uuids handle db₀ s) :
    Ordered uuids (process handle s) := by
  rw [process.eq_def]
  split
  · rename_i id hwriter
    split
    · refine ⟨h.latest,h.puts,?_,h.replies,h.behind,h.kept⟩
      intro k result hw j hj
      cases hw
      -- what has a reply was put before the command that the writer is at
      have hputs := h.puts
      rw [hinv.order,hwriter] at hputs
      exact (List.pairwise_append.mp hputs).2.2 j (hinv.replied j hj) id List.mem_cons_self
    · exact h
  · exact h

/-- A reply to the command that the writer is at is to a later one than those that have theirs. -/
theorem Ordered.before_replying (h : Ordered uuids s) {d : Submission Op R}
    {result : R} (hc : s.calls.get c.id = some c) (hname : c.commandId = uuids.text c.id)
    (hwriter : s.writer = .replying c.id result) {k : ℕ} (hd : s.calls.get k = some d)
    (hthread : d.thread = c.thread) (hk : k ∈ s.replied) {reply : WriteResult R}
    (hreply : reply.commandId = uuids.text k) : reply.Before uuids ⟨c.commandId,result⟩ := by
  refine before_of_lt hreply hname (h.replying c.id result hwriter k hk ?_)
  rw [State.threadOf,State.threadOf,hc,hd,Option.map_some,Option.map_some,hthread]

theorem ordered_reply (h : Ordered uuids s) (hinv : Inv uuids handle db₀ s) (lost : Bool) :
    Ordered uuids (reply s lost) := by
  rw [reply.eq_def]
  split
  · rename_i id result hwriter
    split
    · rename_i c hc
      obtain rfl := (Table.get_eq_some.mp hc).2
      have hname := (hinv.calls c.id c hc).named
      split
      · refine ⟨h.latest,h.puts,(fun _ _ hw => nomatch hw),?_,?_,?_⟩
        · intro t
          change (Function.update s.replies c.thread _ t).Pairwise _
          rw [Function.update_apply]
          split
          · refine List.pairwise_append.mpr ⟨h.replies c.thread,List.pairwise_singleton _ _,?_⟩
            intro reply hreply other hother
            obtain rfl := List.mem_singleton.mp hother
            obtain ⟨d,hd,hthread,hdname,-,hk,-⟩ := hinv.replies c.thread reply hreply
            exact h.before_replying hc hname hwriter hd hthread hk
              (hdname.trans (hinv.calls d.id d hd).named)
          · exact h.replies t
        · intro k d reply hd hphase other hother
          change other ∈ Function.update s.replies c.thread _ d.thread at hother
          rw [Function.update_apply] at hother
          split at hother
          · rename_i hthread
            rcases List.mem_append.mp hother with hother | hother
            · exact h.behind k d reply hd hphase other (hthread ▸ hother)
            · obtain rfl := List.mem_singleton.mp hother
              obtain ⟨hdname,-,hk,-⟩ := (hinv.calls k d hd).returned reply hphase
              exact h.before_replying hc hname hwriter hd hthread hk
                (hdname.trans (hinv.calls k d hd).named)
          · exact h.behind k d reply hd hphase other hother
        · intro k d hd hk
          change _ ∨ d.commandId ∈ (s.dropped ++ Function.update s.replies c.thread _ d.thread).map _
          rcases List.mem_append.mp hk with hk | hk
          · refine (h.kept k d hd hk).imp_right (fun hmem => ?_)
            rw [Function.update_apply]
            split
            · rename_i hthread
              rw [← List.append_assoc,List.map_append,← hthread]
              exact List.mem_append_left _ hmem
            · exact hmem
          · obtain rfl := List.mem_singleton.mp hk
            obtain rfl := Option.some.inj (hc.symm.trans hd)
            rw [Function.update_self,← List.append_assoc,List.map_append]
            exact .inr (List.mem_append_right _ (List.mem_singleton.mpr rfl))
      · exact ⟨h.latest,h.puts,(fun _ _ hw => nomatch hw),h.replies,h.behind,h.kept⟩
    · exact h
  · exact h

theorem ordered_step (h : Ordered uuids s) (hinv : Inv uuids handle db₀ s) (l : Label Op) :
    Ordered uuids (step uuids handle s l) := by
  cases l with
  | submit thread op wait => exact ordered_submit h hinv thread op wait
  | drain id => exact ordered_onCall h hinv (fun _ hc => steps_drain hinv hc)
  | put id => exact ordered_onCall h hinv (fun _ hc => steps_put hinv hc)
  | take id => exact ordered_onCall h hinv (fun _ hc => steps_take hinv hc)
  | timeOut id => exact ordered_onCall h hinv (fun _ _ => steps_timeOut)
  | fail id arrived => exact ordered_onCall h hinv (fun _ _ => steps_fail arrived)
  | get => exact ordered_get h
  | process => exact ordered_process h hinv
  | reply lost => exact ordered_reply h hinv lost

theorem ordered_run (uuids : Uuids) (handle : Op → DB → R × DB) (db₀ : DB) (ls : List (Label Op)) :
    Ordered uuids (run (step uuids handle) (start db₀) ls) :=
  (run_invariant (I := fun s => Ordered uuids s ∧ Inv uuids handle db₀ s)
    (fun _ l h => ⟨ordered_step h.1 h.2 l,inv_step h.2 l⟩)
    ⟨ordered_start uuids db₀,inv_start uuids handle db₀⟩ ls).1

/-- When a call has its reply, the replies to the thread's earlier calls were returned or thrown
away. -/
theorem Ordered.settled (h : Ordered uuids s) (hinv : Inv uuids handle db₀ s) {d : Submission Op R}
    {k id : ℕ} {reply : WriteResult R} (hd : s.calls.get k = some d) (hc : s.calls.get id = some c)
    (hthread : d.thread = c.thread) (hlt : k < id) (hphase : c.phase = .returned (some reply))
    (hk : k ∈ s.replied) : (∃ own, d.phase = .returned (some own)) ∨
      d.commandId ∈ s.dropped.map WriteResult.commandId := by
  refine (h.kept k d hd hk).imp_right (fun hmem => ?_)
  rw [List.map_append] at hmem
  refine (List.mem_append.mp hmem).resolve_right (fun hqueued => ?_)
  obtain ⟨other,hother,hname⟩ := List.mem_map.mp hqueued
  have hreply := ((hinv.calls id c hc).returned reply hphase).1
  have hbefore := h.behind id c reply hc hphase other (hthread ▸ hother) id k
    (hreply.trans (hinv.calls id c hc).named) (hname.trans (hinv.calls k d hd).named)
  omega

/-! What a thread gets -/

/-- A call whose reply was put takes it after the ones before it. -/
theorem Inv.taken (h : Inv uuids handle db₀ s) (hc : s.calls.get c.id = some c)
    (hphase : c.phase = .waiting) {before after : List (WriteResult R)} {own : WriteResult R}
    (hreplies : s.replies c.thread = before ++ own::after) (hname : own.commandId = c.commandId) :
    ∃ d, (run (step uuids handle) s (List.replicate (before.length + 1) (.take c.id))).calls.get c.id =
      some d ∧ d.phase = .returned (some own) := by
  induction before generalizing s with
  | nil =>
    have hstep : step uuids handle s (.take c.id) = { s.endCall c (.returned (some own)) with
        replies := Function.update s.replies c.thread after } := by
      rw [step,onCall,hc,Option.elim_some,take,hphase,hreplies]
      exact if_pos hname
    change ∃ d, (step uuids handle s (.take c.id)).calls.get c.id = some d ∧ _
    rw [hstep]
    exact ⟨_,(get_move hc c.id).trans (if_pos rfl),rfl⟩
  | cons first before ih =>
    have hother : first.commandId ≠ c.commandId := by
      have hnodup := h.distinct c.thread
      rw [hreplies,List.cons_append,List.map_cons,List.nodup_cons] at hnodup
      intro hsame
      refine hnodup.1 (List.mem_map.mpr ⟨own,?_,hname.trans hsame.symm⟩)
      exact List.mem_append_right _ List.mem_cons_self
    have hstep : step uuids handle s (.take c.id) = { s with
        replies := Function.update s.replies c.thread (before ++ own::after)
        dropped := s.dropped ++ [first] } := by
      rw [step,onCall,hc,Option.elim_some,take,hphase,hreplies]
      exact if_neg hother
    have hnext := inv_step h (.take c.id)
    change ∃ d, (run _ (step uuids handle s (.take c.id)) _).calls.get c.id = some d ∧ _
    rw [hstep] at hnext ⊢
    exact ih hnext hc (Function.update_self _ _ _)

/-- What the queues promise of a state. -/
structure Routed (uuids : Uuids) (handle : Op → DB → R × DB) (db₀ : DB) (s : State Op R DB) : Prop where
  order : ∃ waiting, s.puts = s.executed.map Execution.id ++ waiting
  once : s.puts.Nodup
  database : s.db = replay handle db₀ s.executed
  results : ∀ before e after, s.executed = before ++ e::after →
    e.result = (handle e.op (replay handle db₀ before)).1
  asked : ∀ e ∈ s.executed, ∃ c, s.calls.get e.id = some c ∧ c.op = e.op
  own : ∀ id c reply, s.calls.get id = some c → c.phase = .returned (some reply) →
    reply.commandId = c.commandId ∧ s.Result id reply.result
  dropped : ∀ reply ∈ s.dropped, ∃ id c, s.calls.get id = some c ∧
    reply.commandId = c.commandId ∧ c.phase.gaveUp
  settled : ∀ k d id c reply, s.calls.get k = some d → s.calls.get id = some c →
    d.thread = c.thread → k < id → c.phase = .returned (some reply) → k ∈ s.replied →
      (∃ own, d.phase = .returned (some own)) ∨ d.commandId ∈ s.dropped.map WriteResult.commandId
  delivered : ∀ id c, s.calls.get id = some c → c.phase = .waiting → id ∈ s.replied →
    ∃ own, s.Result id own.result ∧ ∃ n ≤ (s.replies c.thread).length, ∃ d,
      (run (step uuids handle) s (List.replicate n (.take id))).calls.get id = some d ∧
        d.phase = .returned (some own)

theorem Inv.routed (h : Inv uuids handle db₀ s) (hordered : Ordered uuids s) :
    Routed uuids handle db₀ s := by
  refine ⟨⟨_,h.order⟩,h.puts,h.database,h.results,h.asked,?_,h.dropped,
    fun _ _ _ _ _ => hordered.settled h,?_⟩
  · intro id c reply hc hphase
    obtain ⟨hname,hresult,-⟩ := (h.calls id c hc).returned reply hphase
    exact ⟨hname,hresult⟩
  · intro id c hc hphase hreplied
    obtain rfl := (Table.get_eq_some.mp hc).2
    obtain ⟨own,hown,hname⟩ := List.mem_map.mp ((h.calls c.id c hc).waiting hphase hreplied)
    obtain ⟨before,after,hreplies⟩ := List.append_of_mem hown
    obtain ⟨d,hd,-,hdname,hresult,-⟩ := h.replies c.thread own hown
    have hsame := h.eq_of_name hd hc (hdname.symm.trans hname)
    refine ⟨own,hsame ▸ hresult,before.length + 1,?_,h.taken hc hphase hreplies hname⟩
    rw [hreplies,List.length_append,List.length_cons]
    omega

/-- In every interleaving of any number of threads. -/
theorem routed_run (uuids : Uuids) (handle : Op → DB → R × DB) (db₀ : DB) (ls : List (Label Op)) :
    Routed uuids handle db₀ (run (step uuids handle) (start db₀) ls) :=
  (inv_run uuids handle db₀ ls).routed (ordered_run uuids handle db₀ ls)

end

end Podly.ReplyQueues
