import Podly.Rpc.System

/-! What every step of the clients and of the writer keeps: each handler, answer and report says what
became of the work of its call, and the database is what the executions left behind. -/
namespace Podly.Rpc
open Protocol Store Writer

/-! The queue of the writer -/

section Admission
variable {limits : Admission.Limits} {s : Admission.State} {l : Admission.Label} {k : ℕ}

theorem isSome_phase_move {id : ℕ} {p : Admission.Phase} (h : (s.phase k).isSome) :
    ((s.move id p).phase k).isSome := by
  rw [Admission.State.phase,Admission.State.move,Table.get_modify,Option.isSome_map] at *
  split
  · rename_i hk
    rwa [Option.isSome_map,← hk]
  · exact h

/-- A step changes one call of `submit` at most, or adds one. -/
theorem calls_step : (Admission.step limits s l).calls = s.calls ∨
    (∃ id p, (Admission.step limits s l).calls = (s.move id p).calls) ∨
    ∃ n, (Admission.step limits s l).calls =
      s.calls.append (Admission.submission n) (Admission.submission_id n) := by
  cases l <;> simp only [Admission.step,Admission.loadAccepting,Admission.tryUpdate,
    Admission.reserveBytes,Admission.trySend,Admission.dropRefused,Admission.recv,Admission.executeOne,
    Admission.dropWork,Admission.endThread,Admission.stop,Admission.takeSender,Admission.takeThread,
    Admission.join]
  case submit n => exact Or.inr (Or.inr ⟨n,rfl⟩)
  case shutdown => exact Or.inl trivial
  all_goals repeat' split
  all_goals first
    | exact Or.inl rfl
    | exact Or.inr (Or.inl ⟨_,_,rfl⟩)

/-- No call of `submit` is forgotten. -/
theorem isSome_phase_step (h : (s.phase k).isSome) : ((Admission.step limits s l).phase k).isSome := by
  rcases @calls_step limits s l with hcalls | ⟨id,p,hcalls⟩ | ⟨n,hcalls⟩
  · rwa [Admission.State.phase,hcalls]
  · rw [Admission.State.phase,hcalls]
    exact isSome_phase_move h
  · rw [Admission.State.phase,hcalls,Table.get_append]
    split
    · rfl
    · exact h

/-- Only an execution is one. -/
theorem executions_step (hl : l ≠ .executeOne) :
    (Admission.step limits s l).executions = s.executions := by
  cases l <;> simp only [Admission.step,Admission.loadAccepting,Admission.tryUpdate,
    Admission.reserveBytes,Admission.trySend,Admission.dropRefused,Admission.recv,
    Admission.dropWork,Admission.endThread,Admission.stop,Admission.takeSender,Admission.takeThread,
    Admission.join]
  case executeOne => exact absurd rfl hl
  all_goals repeat' split
  all_goals rfl

end Admission

variable {F DB : Type}

/-! What became of a call -/

section
variable (work : ℕ → Option (Work F)) (result : ℕ → Option (Except Admission.AdmissionError Unit))

/-- The work of a call was not admitted, if there is any. -/
def Unadmitted (id : ℕ) : Prop := ∀ a w, work a = some w → w.call = id → ∃ e, result a = some (.error e)

/-- What an answer says of the work of its call. -/
def ReplyOk (id : ℕ) : CommandResponse F → Prop
  | .rejected _ _ _ => Unadmitted work result id
  | .accepted _ _ => ∃ a w, work a = some w ∧ w.call = id ∧ result a = some (.ok ())
  | .completed _ success v e => ∃ a w, work a = some w ∧ w.call = id ∧
    ((∃ x, w.outcome = some (.ok x) ∧ success = true ∧ v = some x ∧ e = none) ∨
      ∃ x, w.outcome = some (.error x) ∧ success = false ∧ v = none ∧ e = some x)
  | .unknown _ _ _ => True

/-- A result with an error is the error of the answer, which is a rejection or tells what the execution
came to. -/
def Told (c : Call F) (told : WriteResult F) : Prop :=
  ∃ status response e, c.handler = .answered ⟨status,response⟩ ∧
    told = ⟨c.cmd.id,false,null,some e.text⟩ ∧
    ((∃ commandId admitted, response = .rejected commandId admitted e ∧ Unadmitted work result c.id) ∨
      ∃ commandId a w, response = .completed commandId false none (some e) ∧ work a = some w ∧
        w.call = c.id ∧ w.outcome = some (.error e))

/-- What a report says of the work of its call. -/
structure ReportOk (c : Call F) (report : Report F) : Prop where
  failed : report.failed → c.handler = .absent ∨ c.handler.past
  refused : report.refused → Unadmitted work result c.id
  told : ∀ told, report = .returned (some told) → told.success = false → Told work result c told
  succeeded : ∀ data, report.succeeded = some data → c.wait ∧
    ∃ a w v, work a = some w ∧ w.call = c.id ∧ w.outcome = some (.ok v) ∧ legacyData c.cmd v = .ok data
  admitted : report.admitted → c.wait = false ∧
    ∃ a w, work a = some w ∧ w.call = c.id ∧ result a = some (.ok ())

/-- What holds of a call at every point of it. -/
structure CallOk (cfg : Setup F DB) (c : Call F) : Prop where
  unsent : c.handler = .absent ∨ c.client = .sent ∨ ∃ report, c.client = .ended report
  encoded : c.client = .encoded ∨ c.client = .connected ∨ c.handler ≠ .absent →
    cfg.encode c.cmd c.wait = some c.body
  fresh : c.handler.past = false → ∀ a w, work a = some w → w.call ≠ c.id
  submitted : ∀ a, c.handler = .submitting a ∨ c.handler = .awaiting a →
    ∃ w, work a = some w ∧ w.call = c.id
  awaiting : ∀ a, c.handler = .awaiting a → result a = some (.ok ())
  answered : ∀ reply, c.handler = .answered reply → ReplyOk work result c.id reply.response
  ended : ∀ report, c.client = .ended report → ReportOk work result c report

end

/-- The work of a call is still there, with what has become of it. -/
structure Extends (id : ℕ) (work work' : ℕ → Option (Work F)) : Prop where
  forth : ∀ a w, work a = some w → w.call = id → ∃ w', work' a = some w' ∧ w'.call = id ∧
    ∀ o, w.outcome = some o → w'.outcome = some o
  back : ∀ a w', work' a = some w' → w'.call = id → ∃ w, work a = some w ∧ w.call = id ∧
    ∀ o, w.outcome = some o → w'.outcome = some o

theorem Extends.refl (id : ℕ) (work : ℕ → Option (Work F)) : Extends id work work :=
  ⟨fun _ w hw hid => ⟨w,hw,hid,fun _ h => h⟩,fun _ w hw hid => ⟨w,hw,hid,fun _ h => h⟩⟩

section Extends
variable {work work' : ℕ → Option (Work F)}
  {result result' : ℕ → Option (Except Admission.AdmissionError Unit)}

theorem Unadmitted.extends {id : ℕ} (h : Unadmitted work result id) (hwork : Extends id work work')
    (hresult : ∀ a o, result a = some o → result' a = some o) : Unadmitted work' result' id := by
  intro a w' hw' hid
  obtain ⟨w,hw,hcall,-⟩ := hwork.back a w' hw' hid
  obtain ⟨e,he⟩ := h a w hw hcall
  exact ⟨e,hresult _ _ he⟩

theorem ReplyOk.extends {id : ℕ} {response : CommandResponse F} (h : ReplyOk work result id response)
    (hwork : Extends id work work') (hresult : ∀ a o, result a = some o → result' a = some o) :
    ReplyOk work' result' id response := by
  cases response with
  | rejected commandId admitted e => exact Unadmitted.extends h hwork hresult
  | accepted commandId admitted =>
    obtain ⟨a,w,hw,hcall,hok⟩ := h
    obtain ⟨w',hw',hcall',-⟩ := hwork.forth a w hw hcall
    exact ⟨a,w',hw',hcall',hresult _ _ hok⟩
  | completed commandId success v e =>
    obtain ⟨a,w,hw,hcall,h⟩ := h
    obtain ⟨w',hw',hcall',hkeep⟩ := hwork.forth a w hw hcall
    refine ⟨a,w',hw',hcall',?_⟩
    rcases h with ⟨x,hx,h⟩ | ⟨x,hx,h⟩
    · exact Or.inl ⟨x,hkeep _ hx,h⟩
    · exact Or.inr ⟨x,hkeep _ hx,h⟩
  | unknown commandId admitted e => trivial

theorem Told.extends {c : Call F} {told : WriteResult F} (h : Told work result c told)
    (hwork : Extends c.id work work') (hresult : ∀ a o, result a = some o → result' a = some o) :
    Told work' result' c told := by
  obtain ⟨status,response,e,hhandler,htold,h⟩ := h
  refine ⟨status,response,e,hhandler,htold,?_⟩
  rcases h with ⟨commandId,admitted,hresponse,hnot⟩ | ⟨commandId,a,w,hresponse,hw,hcall,he⟩
  · exact Or.inl ⟨commandId,admitted,hresponse,hnot.extends hwork hresult⟩
  · obtain ⟨w',hw',hcall',hkeep⟩ := hwork.forth a w hw hcall
    exact Or.inr ⟨commandId,a,w',hresponse,hw',hcall',hkeep _ he⟩

theorem ReportOk.extends {c : Call F} {report : Report F} (h : ReportOk work result c report)
    (hwork : Extends c.id work work') (hresult : ∀ a o, result a = some o → result' a = some o) :
    ReportOk work' result' c report := by
  refine ⟨h.failed,fun hrefused => (h.refused hrefused).extends hwork hresult,
    fun told hreport hfailed => (h.told told hreport hfailed).extends hwork hresult,?_,?_⟩
  · intro data hdata
    obtain ⟨hwait,a,w,v,hw,hcall,hv,hlegacy⟩ := h.succeeded data hdata
    obtain ⟨w',hw',hcall',hkeep⟩ := hwork.forth a w hw hcall
    exact ⟨hwait,a,w',v,hw',hcall',hkeep _ hv,hlegacy⟩
  · intro hadmitted
    obtain ⟨hwait,a,w,hw,hcall,hok⟩ := h.admitted hadmitted
    obtain ⟨w',hw',hcall',-⟩ := hwork.forth a w hw hcall
    exact ⟨hwait,a,w',hw',hcall',hresult _ _ hok⟩

/-- A call that does not move sees its work go on. -/
theorem CallOk.extends {cfg : Setup F DB} {c : Call F} (h : CallOk work result cfg c)
    (hwork : Extends c.id work work') (hresult : ∀ a o, result a = some o → result' a = some o) :
    CallOk work' result' cfg c := by
  refine ⟨h.unsent,h.encoded,?_,?_,fun a ha => hresult _ _ (h.awaiting a ha),
    fun reply hreply => (h.answered reply hreply).extends hwork hresult,
    fun report hreport => (h.ended report hreport).extends hwork hresult⟩
  · intro hpast a w' hw' hid
    obtain ⟨w,hw,hcall,-⟩ := hwork.back a w' hw' hid
    exact h.fresh hpast a w hw hcall
  · intro a ha
    obtain ⟨w,hw,hcall⟩ := h.submitted a ha
    obtain ⟨w',hw',hcall',-⟩ := hwork.forth a w hw hcall
    exact ⟨w',hw',hcall'⟩

theorem update_eq_some {a b : ℕ} {w v : Work F} (h : Function.update work a (some w) b = some v) :
    (b = a ∧ v = w) ∨ (b ≠ a ∧ work b = some v) := by
  rw [Function.update_apply] at h
  split at h
  · rename_i hb
    exact Or.inl ⟨hb,(Option.some.inj h).symm⟩
  · rename_i hb
    exact Or.inr ⟨hb,h⟩

theorem ne_of_new {a b : ℕ} {w : Work F} (hnew : work a = none) (hw : work b = some w) : b ≠ a := by
  rintro rfl
  rw [hnew] at hw
  cases hw

/-- A new work item leaves the others as they are. -/
theorem update_new {a b : ℕ} {v w : Work F} (hnew : work a = none) (hw : work b = some w) :
    Function.update work a (some v) b = some w :=
  (Function.update_of_ne (ne_of_new hnew hw) _ _).trans hw

/-- A new work item is nothing to the other calls. -/
theorem Extends.update_new {id a : ℕ} {w : Work F} (hnew : work a = none) (hid : w.call ≠ id) :
    Extends id work (Function.update work a (some w)) := by
  refine ⟨fun b v hv hcall => ⟨v,Rpc.update_new hnew hv,hcall,fun _ ho => ho⟩,fun b v hv hcall => ?_⟩
  rcases update_eq_some hv with ⟨rfl,rfl⟩ | ⟨-,hv⟩
  · exact absurd hcall hid
  · exact ⟨v,hv,hcall,fun _ ho => ho⟩

/-- A work item that comes to its outcome is otherwise the one it was. -/
theorem update_outcome {a b : ℕ} {v w : Work F} (hw : work a = some w) (hnone : w.outcome = none)
    (outcome : Except RpcError (Value F)) (hv : work b = some v) :
    ∃ v', Function.update work a (some { w with outcome := some outcome }) b = some v' ∧
      v'.call = v.call ∧ v'.command = v.command ∧ ∀ o, v.outcome = some o → v'.outcome = some o := by
  by_cases hb : b = a
  · obtain rfl := hb
    obtain rfl := Option.some.inj (hw.symm.trans hv)
    refine ⟨_,Function.update_self _ _ _,rfl,rfl,fun o ho => ?_⟩
    rw [hnone] at ho
    cases ho
  · exact ⟨v,(Function.update_of_ne hb _ _).trans hv,rfl,rfl,fun _ ho => ho⟩

theorem Extends.update_outcome {a : ℕ} {w : Work F} (id : ℕ) (hw : work a = some w)
    (hnone : w.outcome = none) (outcome : Except RpcError (Value F)) :
    Extends id work (Function.update work a (some { w with outcome := some outcome })) := by
  constructor
  · intro b v hv hcall
    obtain ⟨v',hv',hcall',-,hkeep⟩ := Rpc.update_outcome hw hnone outcome hv
    exact ⟨v',hv',hcall'.trans hcall,hkeep⟩
  · intro b v' hv' hcall
    rcases update_eq_some hv' with ⟨rfl,rfl⟩ | ⟨-,hv⟩
    · refine ⟨w,hw,hcall,fun o ho => ?_⟩
      rw [hnone] at ho
      cases ho
    · exact ⟨v',hv,hcall,fun _ ho => ho⟩

theorem map_call_update_outcome {a : ℕ} {w : Work F} (hw : work a = some w)
    (outcome : Except RpcError (Value F)) (b : ℕ) :
    (Function.update work a (some { w with outcome := some outcome }) b).map Work.call =
      (work b).map Work.call := by
  rw [Function.update_apply]
  split
  · rename_i hb
    rw [hb,hw]
    rfl
  · rfl

end Extends

/-! The database -/

/-- The effects of some executions, one after another. -/
def replay (h : Handlers F DB) (db : DB) (history : List (ℕ × Operation F)) : DB :=
  history.foldl (fun db entry => (effect h entry.2 db).2) db

theorem replay_append (h : Handlers F DB) (db : DB) (xs ys : List (ℕ × Operation F)) :
    replay h db (xs ++ ys) = replay h (replay h db xs) ys := List.foldl_append

/-- What the outcome of a work item says of the executions: it is what the command came to where the
work item stands among them. -/
def OutcomeOk (h : Handlers F DB) (db₀ : DB) (history : List (ℕ × Operation F)) (w : Work F) : Prop :=
  match w.outcome with
  | none => w.call ∉ history.map Prod.fst
  | some outcome => ∃ faults before after, history = before ++ w.left outcome ++ after ∧
    (executeOne h faults w.command.operation (replay h db₀ before)).1 = outcome ∧
    w.call ∉ (before ++ after).map Prod.fst

/-- What holds of a work item at every point of it. -/
structure WorkOk (cfg : Setup F DB) (db₀ : DB) (s : State F DB) (a : ℕ) (w : Work F) : Prop where
  call : ∃ c, s.calls.get w.call = some c ∧ c.handler.past ∧ checked cfg.read c.body = .ok w.command
  known : (s.admission.phase a).isSome
  executed : w.outcome.isSome ↔ a ∈ s.admission.executions
  outcome : OutcomeOk cfg.handlers db₀ s.history w

structure Inv (cfg : Setup F DB) (db₀ : DB) (s : State F DB) : Prop where
  admission : Admission.Inv cfg.limits s.admission
  replayed : s.db = replay cfg.handlers db₀ s.history
  logged : (s.history.map Prod.fst).Sublist s.executed
  named : ∀ a ∈ s.admission.executions, (s.work a).isSome
  kept : ∀ entry ∈ s.history, ∃ a w, s.work a = some w ∧ w.call = entry.1 ∧
    w.command.operation = entry.2 ∧ w.outcome.isSome
  work : ∀ a w, s.work a = some w → WorkOk cfg db₀ s a w
  unique : ∀ a b v w, s.work a = some v → s.work b = some w → v.call = w.call → a = b
  calls : ∀ id c, s.calls.get id = some c → CallOk s.work s.admission.result cfg c

/-- Executions whose work items keep their calls. -/
theorem logged_congr {s t : State F DB} (h : (s.history.map Prod.fst).Sublist s.executed)
    (hhistory : t.history = s.history) (hexecutions : t.admission.executions = s.admission.executions)
    (hwork : ∀ a ∈ s.admission.executions, (t.work a).map Work.call = (s.work a).map Work.call) :
    (t.history.map Prod.fst).Sublist t.executed := by
  rw [hhistory,State.executed,hexecutions,List.filterMap_congr hwork]
  exact h

theorem inv_start (cfg : Setup F DB) (db : DB) : Inv cfg db (start db) := by
  refine ⟨Admission.inv_start cfg.limits,rfl,List.Sublist.refl _,(fun _ ha => nomatch ha),?_,?_,?_,?_⟩
  · intro entry hentry
    cases hentry
  · intro a w hw
    cases hw
  · intro a b v w hv
    cases hv
  · intro id c hc
    cases hc

/-! The steps of a call -/

/-- A handler that has an answer to give. -/
def Handler.busy : Handler F → Bool
  | .absent | .answered _ | .dropped => false
  | _ => true

theorem Handler.ne_absent {handler : Handler F} (h : handler.busy) : handler ≠ .absent := by
  rintro rfl
  cases h

theorem Handler.ne_answered {handler : Handler F} (h : handler.busy) (reply : Reply F) :
    handler ≠ .answered reply := by
  rintro rfl
  cases h

section Call
variable {cfg : Setup F DB} {db₀ : DB} {s : State F DB} {c : Call F} {work : ℕ → Option (Work F)}
  {result : ℕ → Option (Except Admission.AdmissionError Unit)}

theorem CallOk.withClient (h : CallOk work result cfg c) {client : Client F}
    (hsent : c.handler = .absent ∨ client = .sent ∨ ∃ report, client = .ended report)
    (hencoded : client = .encoded ∨ client = .connected → cfg.encode c.cmd c.wait = some c.body)
    (hended : ∀ report, client = .ended report → ReportOk work result c report) :
    CallOk work result cfg (c.withClient client) := by
  refine ⟨hsent,?_,h.fresh,h.submitted,h.awaiting,h.answered,?_⟩
  · rintro (henc | henc | henc)
    · exact hencoded (Or.inl henc)
    · exact hencoded (Or.inr henc)
    · exact h.encoded (Or.inr (Or.inr henc))
  · intro report hreport
    have hok := hended report hreport
    exact ⟨hok.failed,hok.refused,hok.told,hok.succeeded,hok.admitted⟩

/-- A call that ends with a report. -/
theorem CallOk.end (h : CallOk work result cfg c) {report : Report F}
    (hreport : ReportOk work result c report) : CallOk work result cfg (c.withClient (.ended report)) := by
  refine h.withClient (Or.inr (Or.inr ⟨report,rfl⟩)) (by rintro (h | h) <;> cases h) ?_
  rintro report' ⟨⟩
  exact hreport

theorem CallOk.withHandler (h : CallOk work result cfg c) {handler : Handler F}
    (hbusy : c.handler.busy) (hpast : c.handler.past → handler.past)
    (hfresh : handler.past = false → c.handler.past = false)
    (hsubmitted : ∀ a, handler = .submitting a ∨ handler = .awaiting a →
      ∃ w, work a = some w ∧ w.call = c.id)
    (hawaiting : ∀ a, handler = .awaiting a → result a = some (.ok ()))
    (hanswered : ∀ reply, handler = .answered reply → ReplyOk work result c.id reply.response) :
    CallOk work result cfg (c.withHandler handler) := by
  refine ⟨Or.inr (h.unsent.resolve_left (Handler.ne_absent hbusy)),
    fun _ => h.encoded (Or.inr (Or.inr (Handler.ne_absent hbusy))),
    fun hnew => h.fresh (hfresh hnew),hsubmitted,hawaiting,hanswered,?_⟩
  intro report hreport
  have hok := h.ended report hreport
  refine ⟨fun hfailed =>
      Or.inr (hpast ((hok.failed hfailed).resolve_left (Handler.ne_absent hbusy))),
    hok.refused,?_,hok.succeeded,hok.admitted⟩
  intro told hreturned hfailed
  obtain ⟨status,response,e,hhandler,-⟩ := hok.told told hreturned hfailed
  exact absurd hhandler (Handler.ne_answered hbusy _)

/-- A handler that answers. -/
theorem CallOk.answer (h : CallOk work result cfg c) (hbusy : c.handler.busy) {reply : Reply F}
    (hreply : ReplyOk work result c.id reply.response) :
    CallOk work result cfg (c.withHandler (.answered reply)) := by
  refine h.withHandler hbusy (fun _ => rfl) (fun h => nomatch h) ?_
    (fun _ h => nomatch h) ?_
  · rintro a (h | h) <;> cases h
  · rintro reply' ⟨⟩
    exact hreply

theorem Unadmitted.fresh {id : ℕ} (h : ∀ a w, work a = some w → w.call ≠ id) :
    Unadmitted work result id :=
  fun a w hw hid => absurd hid (h a w hw)

/-- A report without a result, to a call without work. -/
theorem ReportOk.fresh {report : Report F} (hreport : report.refused) (hhandler : c.handler = .absent)
    (h : ∀ a w, work a = some w → w.call ≠ c.id) : ReportOk work result c report := by
  refine ⟨fun _ => Or.inl hhandler,fun _ => .fresh h,?_,?_,?_⟩
  · rintro told rfl
    cases hreport
  · intro data hdata
    cases report with
    | returned r => cases hreport
    | _ => cases hdata
  · intro hadmitted
    cases report with
    | returned r => cases hreport
    | _ => cases hadmitted

/-- A report that says nothing. -/
theorem ReportOk.unknown (message : String) : ReportOk work result c (.outcomeUnknown message) :=
  ⟨(fun h => nomatch h),(fun h => nomatch h),(fun _ h => nomatch h),(fun _ h => nomatch h),
    (fun h => nomatch h)⟩

/-- One call moves. -/
theorem Inv.modify (h : Inv cfg db₀ s) {id : ℕ} (hc : s.calls.get id = some c) {f : Call F → Call F}
    {hf : ∀ c, (f c).id = c.id} (hcall : CallOk s.work s.admission.result cfg (f c))
    (hpast : c.handler.past → (f c).handler.past ∧ (f c).body = c.body) :
    Inv cfg db₀ (s.modify id f hf) := by
  refine ⟨h.admission,h.replayed,h.logged,h.named,h.kept,?_,h.unique,?_⟩
  · intro a w hw
    have hwork := h.work a w hw
    refine ⟨?_,hwork.known,hwork.executed,hwork.outcome⟩
    obtain ⟨d,hd,hdpast,hchecked⟩ := hwork.call
    by_cases hid : w.call = id
    · obtain rfl : c = d := Option.some.inj (hc.symm.trans (hid ▸ hd))
      obtain ⟨hnew,hbody⟩ := hpast hdpast
      refine ⟨f c,?_,hnew,hbody.symm ▸ hchecked⟩
      rw [State.modify,Table.get_modify,if_pos hid,hc,Option.map_some]
    · refine ⟨d,?_,hdpast,hchecked⟩
      rw [State.modify,Table.get_modify,if_neg hid,hd]
  · intro k d hd
    rw [State.modify,Table.get_modify] at hd
    split at hd
    · rw [hc,Option.map_some] at hd
      exact Option.some.inj hd ▸ hcall
    · exact h.calls k d hd

theorem inv_onCall (h : Inv cfg db₀ s) {id : ℕ} {f : Call F → State F DB}
    (hstep : ∀ c, s.calls.get c.id = some c → CallOk s.work s.admission.result cfg c →
      Inv cfg db₀ (f c)) : Inv cfg db₀ (onCall s id f) := by
  rw [onCall]
  cases hc : s.calls.get id with
  | none => exact h
  | some c =>
    obtain rfl := (Table.get_eq_some.mp hc).2
    exact hstep c hc (h.calls c.id c hc)

theorem inv_submitRust (h : Inv cfg db₀ s) (cmd : WriteCommand F) (wait : Bool) (timeout : ℤ) :
    Inv cfg db₀ (step cfg s (.submitRust cmd wait timeout)) := by
  have hget : ∀ id, (step cfg s (.submitRust cmd wait timeout)).calls.get id =
      if id = s.calls.nextKey then some (newCall cmd wait timeout id) else s.calls.get id := by
    intro id
    change (s.calls.append _ (newCall_id cmd wait timeout)).get id = _
    rw [Table.get_append]
    split
    · rename_i hid
      rw [hid]
    · rfl
  refine ⟨h.admission,h.replayed,h.logged,h.named,h.kept,?_,h.unique,?_⟩
  · intro a w hw
    have hwork := h.work a w hw
    refine ⟨?_,hwork.known,hwork.executed,hwork.outcome⟩
    obtain ⟨d,hd,hrest⟩ := hwork.call
    refine ⟨d,?_,hrest⟩
    rw [hget,if_neg,hd]
    intro hid
    rw [hid,Table.get_nextKey] at hd
    cases hd
  · intro id c hc
    rw [hget] at hc
    split at hc
    · rename_i hid
      obtain rfl := Option.some.inj hc
      refine ⟨Or.inl rfl,?_,?_,?_,(by rintro _ ⟨⟩),(by rintro _ ⟨⟩),(by rintro _ ⟨⟩)⟩
      · rintro (henc | henc | henc)
        · cases henc
        · cases henc
        · exact absurd rfl henc
      · intro _ a w hw hcall
        obtain ⟨d,hd,-⟩ := (h.work a w hw).call
        rw [hcall] at hd
        change s.calls.get id = _ at hd
        rw [hid,Table.get_nextKey] at hd
        cases hd
      · rintro a (ha | ha) <;> cases ha
    · exact h.calls id c hc

theorem inv_encode (h : Inv cfg db₀ s) (hc : s.calls.get c.id = some c)
    (hok : CallOk s.work s.admission.result cfg c) : Inv cfg db₀ (encode cfg s c) := by
  rw [encode.eq_def]
  split
  · rename_i hclient
    have habsent : c.handler = .absent := by
      rcases hok.unsent with h | h | ⟨report,h⟩
      · exact h
      · cases hclient.symm.trans h
      · cases hclient.symm.trans h
    have hfresh := hok.fresh (by rw [habsent]; rfl)
    have hend : ∀ report : Report F, report.refused → Inv cfg db₀ (s.toClient c.id (.ended report)) :=
      fun report hreport => h.modify hc (hok.end (.fresh hreport habsent hfresh)) (fun hp => ⟨hp,rfl⟩)
    split
    · exact hend _ rfl
    · split
      · exact hend _ rfl
      · exact hend _ rfl
      · rename_i body hbody hsome
        split
        · exact hend _ rfl
        · refine h.modify hc ?_ ?_
          · exact ⟨Or.inl habsent,fun _ => hbody,hok.fresh,hok.submitted,hok.awaiting,hok.answered,
              fun _ hr => nomatch hr⟩
          · intro hp
            rw [habsent] at hp
            cases hp
  · exact h

theorem inv_connect (h : Inv cfg db₀ s) (hc : s.calls.get c.id = some c)
    (hok : CallOk s.work s.admission.result cfg c) (failure : Option ConnectFailure) :
    Inv cfg db₀ (connect s c failure) := by
  have habsent : c.client = .encoded → c.handler = .absent := by
    intro hclient
    rcases hok.unsent with h | h | ⟨report,h⟩
    · exact h
    · cases hclient.symm.trans h
    · cases hclient.symm.trans h
  rw [connect.eq_def]
  split
  · split
    · rename_i hclient
      exact h.modify hc (hok.withClient (Or.inl (habsent hclient))
        (fun _ => hok.encoded (Or.inl hclient)) (fun _ hr => nomatch hr)) (fun hp => ⟨hp,rfl⟩)
    · exact h
  · split
    · rename_i hclient
      exact h.modify hc (hok.end (.fresh rfl (habsent hclient)
        (hok.fresh (by rw [habsent hclient]; rfl)))) (fun hp => ⟨hp,rfl⟩)
    · exact h

theorem inv_send (h : Inv cfg db₀ s) (hc : s.calls.get c.id = some c)
    (hok : CallOk s.work s.admission.result cfg c) : Inv cfg db₀ (send s c) := by
  rw [send.eq_def]
  split
  · rename_i hclient
    have habsent : c.handler = .absent := by
      rcases hok.unsent with h | h | ⟨report,h⟩
      · exact h
      · cases hclient.symm.trans h
      · cases hclient.symm.trans h
    refine h.modify hc ⟨Or.inr (Or.inl rfl),fun _ => hok.encoded (Or.inr (Or.inl hclient)),
      fun _ => hok.fresh (by rw [habsent]; rfl),?_,(fun _ ha => nomatch ha),(fun _ hr => nomatch hr),
      (fun _ hr => nomatch hr)⟩ ?_
    · rintro a (ha | ha) <;> cases ha
    · intro hp
      rw [habsent] at hp
      cases hp
  · exact h

theorem inv_lose (h : Inv cfg db₀ s) (hc : s.calls.get c.id = some c)
    (hok : CallOk s.work s.admission.result cfg c) (loss : Loss) : Inv cfg db₀ (lose s c loss) := by
  rw [lose.eq_def]
  split
  · exact h.modify hc (hok.end (.unknown _)) (fun hp => ⟨hp,rfl⟩)
  · exact h

/-- The report of an answer says what the answer says. -/
theorem ReplyOk.report {py : Python F} {reply : Reply F}
    (h : ReplyOk work result c.id reply.response) (hhandler : c.handler = .answered reply) :
    ReportOk work result c (adaptRustResponse py c.cmd c.wait reply.status reply.response.toJson) := by
  have hpast : c.handler = .absent ∨ c.handler.past := by
    rw [hhandler]
    exact Or.inr rfl
  obtain ⟨status,response⟩ := reply
  cases response with
  | rejected commandId admitted e =>
    rcases @adapt_rejected F py c.cmd c.wait status commandId admitted e with ⟨message,heq⟩ | heq
    · rw [heq]
      exact .unknown _
    · rw [heq]
      cases c.wait with
      | false =>
        exact ⟨fun _ => hpast,fun _ => h,(fun _ ht => nomatch ht),(fun _ hd => nomatch hd),
          (fun ha => nomatch ha)⟩
      | true =>
        refine ⟨fun _ => hpast,(fun hr => nomatch hr),?_,(fun _ hd => nomatch hd),
          (fun ha => nomatch ha)⟩
        rintro told ⟨⟩ -
        exact ⟨status,_,e,hhandler,rfl,Or.inl ⟨commandId,admitted,rfl,h⟩⟩
  | accepted commandId admitted =>
    rcases @adapt_accepted F py c.cmd c.wait status commandId admitted with heq | ⟨heq,hwait⟩
    · rw [heq]
      exact .unknown _
    · rw [heq]
      exact ⟨(fun hf => nomatch hf),(fun hr => nomatch hr),(fun _ ht => nomatch ht),
        (fun _ hd => nomatch hd),fun _ => ⟨hwait,h⟩⟩
  | completed commandId success v e =>
    obtain ⟨a,w,hw,hid,⟨x,hx,rfl,rfl,rfl⟩ | ⟨x,hx,rfl,rfl,rfl⟩⟩ := h
    · rcases @adapt_succeeded F py c.cmd c.wait status commandId x with
        ⟨message,heq⟩ | ⟨hwait,data,hdata,heq⟩
      · rw [heq]
        exact .unknown _
      · rw [heq]
        refine ⟨(fun hf => nomatch hf),(fun hr => nomatch hr),?_,?_,(fun ha => nomatch ha)⟩
        · rintro told ⟨⟩ hfailed
          cases hfailed
        · rintro data' ⟨⟩
          exact ⟨hwait,a,w,x,hw,hid,hx,hdata⟩
    · rcases @adapt_failed F py c.cmd c.wait status commandId x with ⟨message,heq⟩ | heq
      · rw [heq]
        exact .unknown _
      · rw [heq]
        refine ⟨fun _ => hpast,(fun hr => nomatch hr),?_,(fun _ hd => nomatch hd),
          (fun ha => nomatch ha)⟩
        rintro told ⟨⟩ -
        exact ⟨status,_,x,hhandler,rfl,Or.inr ⟨commandId,a,w,rfl,hw,hid,hx⟩⟩
  | unknown commandId admitted e => exact .unknown _

theorem inv_receive (h : Inv cfg db₀ s) (hc : s.calls.get c.id = some c)
    (hok : CallOk s.work s.admission.result cfg c) : Inv cfg db₀ (receive cfg s c) := by
  rw [receive.eq_def]
  split
  · rename_i reply hclient hhandler
    exact h.modify hc (hok.end ((hok.answered reply hhandler).report hhandler))
      (fun hp => ⟨hp,rfl⟩)
  · exact h

/-! The steps of its handler -/

/-- The handler of a call without work answers. -/
theorem Inv.answer_fresh (h : Inv cfg db₀ s) (hc : s.calls.get c.id = some c)
    (hok : CallOk s.work s.admission.result cfg c) (hbusy : c.handler.busy)
    (hpast : c.handler.past = false) (status : ℕ) (commandId : Option String) (admitted : Bool)
    (e : RpcError) :
    Inv cfg db₀ (s.toHandler c.id (.answered ⟨status,.rejected commandId admitted e⟩)) :=
  h.modify hc (hok.answer hbusy (Unadmitted.fresh (hok.fresh hpast))) (fun _ => ⟨rfl,rfl⟩)

theorem inv_arrive (h : Inv cfg db₀ s) (hc : s.calls.get c.id = some c)
    (hok : CallOk s.work s.admission.result cfg c) : Inv cfg db₀ (arrive cfg s c) := by
  rw [arrive.eq_def]
  split
  · rename_i hhandler
    have hbusy : c.handler.busy := by rw [hhandler]; rfl
    have hpast : c.handler.past = false := by
      rw [hhandler]
      rfl
    split
    · rename_i failure hauth
      cases failure <;> exact h.answer_fresh hc hok hbusy hpast _ _ _ _
    · split
      · exact h.answer_fresh hc hok hbusy hpast _ _ _ _
      · refine h.modify hc (hok.withHandler hbusy ?_ (fun _ => hpast) ?_ (fun _ ha => nomatch ha)
          (fun _ hr => nomatch hr)) ?_
        · intro hp
          rw [hpast] at hp
          cases hp
        · rintro a (ha | ha) <;> cases ha
        · intro hp
          rw [hpast] at hp
          cases hp
  · exact h

theorem inv_admitted (h : Inv cfg db₀ s) (hc : s.calls.get c.id = some c)
    (hok : CallOk s.work s.admission.result cfg c) : Inv cfg db₀ (admitted s c) := by
  rw [admitted.eq_def]
  split
  · rename_i a hhandler
    have hbusy : c.handler.busy := by rw [hhandler]; rfl
    obtain ⟨w,hw,hid⟩ := hok.submitted a (Or.inl hhandler)
    split
    · rename_i e w' hresult hw'
      have hreply : ∀ commandId admitted e', ReplyOk s.work s.admission.result c.id
          (.rejected commandId admitted e' : CommandResponse F) := by
        intro commandId admitted e' b v hv hvid
        obtain rfl := h.unique a b w v hw hv (hid.trans hvid.symm)
        exact ⟨e,hresult⟩
      cases e <;> exact h.modify hc (hok.answer hbusy (hreply _ _ _)) (fun _ => ⟨rfl,rfl⟩)
    · rename_i w' hresult hw'
      split
      · refine h.modify hc (hok.withHandler hbusy (fun _ => rfl) (fun hf => nomatch hf) ?_ ?_
          (fun _ hr => nomatch hr)) (fun _ => ⟨rfl,rfl⟩)
        · rintro b (hb | hb)
          · cases hb
          · cases hb
            exact ⟨w,hw,hid⟩
        · rintro b ⟨⟩
          exact hresult
      · exact h.modify hc (hok.answer hbusy ⟨a,w,hw,hid,hresult⟩) (fun _ => ⟨rfl,rfl⟩)
    · exact h
  · exact h

theorem inv_finish (h : Inv cfg db₀ s) (hc : s.calls.get c.id = some c)
    (hok : CallOk s.work s.admission.result cfg c) : Inv cfg db₀ (finish s c) := by
  rw [finish.eq_def]
  split
  · rename_i a hhandler
    have hbusy : c.handler.busy := by rw [hhandler]; rfl
    obtain ⟨w,hw,hid⟩ := hok.submitted a (Or.inr hhandler)
    split
    · rename_i call command outcome hwork
      obtain rfl := Option.some.inj (hw.symm.trans hwork)
      refine h.modify hc (hok.answer hbusy ?_) (fun _ => ⟨rfl,rfl⟩)
      cases outcome with
      | ok x => exact ⟨a,_,hw,hid,Or.inl ⟨x,rfl,rfl,rfl,rfl⟩⟩
      | error x => exact ⟨a,_,hw,hid,Or.inr ⟨x,rfl,rfl,rfl,rfl⟩⟩
    · exact h
  · exact h

theorem inv_expire (h : Inv cfg db₀ s) (hc : s.calls.get c.id = some c)
    (hok : CallOk s.work s.admission.result cfg c) : Inv cfg db₀ (expire s c) := by
  rw [expire.eq_def]
  split
  · rename_i a hhandler
    have hbusy : c.handler.busy := by rw [hhandler]; rfl
    split
    · exact h.modify hc (hok.answer hbusy trivial) (fun _ => ⟨rfl,rfl⟩)
    · exact h
  · exact h

theorem inv_dropHandler (h : Inv cfg db₀ s) (hc : s.calls.get c.id = some c)
    (hok : CallOk s.work s.admission.result cfg c) : Inv cfg db₀ (dropHandler s c) := by
  have hdrop : c.handler.busy → Inv cfg db₀ (s.toHandler c.id .dropped) := by
    intro hbusy
    refine h.modify hc (hok.withHandler hbusy (fun _ => rfl) (fun hf => nomatch hf) ?_
      (fun _ ha => nomatch ha) (fun _ hr => nomatch hr)) (fun _ => ⟨rfl,rfl⟩)
    rintro a (ha | ha) <;> cases ha
  rw [dropHandler.eq_def]
  split
  · rename_i hhandler
    exact hdrop (by rw [hhandler]; rfl)
  · rename_i hhandler
    exact hdrop (by rw [hhandler]; rfl)
  · rename_i a hhandler
    exact hdrop (by rw [hhandler]; rfl)
  · exact h

/-- Whatever is wrong with a body is answered with a rejection. -/
theorem rejected_of_checked {read : List UInt8 → Option (Value F × List UInt8)} {body : List UInt8}
    {reply : Reply F} (h : checked read body = .error reply) :
    ∃ status commandId admitted e, reply = ⟨status,.rejected commandId admitted e⟩ := by
  rw [checked] at h
  split at h
  · cases h
    exact ⟨_,_,_,_,rfl⟩
  · split_ifs at h
    · cases h
      exact ⟨_,_,_,_,rfl⟩
    · cases h
      exact ⟨_,_,_,_,rfl⟩
    · split at h
      · cases h
        exact ⟨_,_,_,_,rfl⟩
      · cases h

/-- The report that a call has before its submission leaves open what becomes of it. -/
theorem ReportOk.unfinished {report : Report F} (h : ReportOk work result c report)
    (hbusy : c.handler.busy) (hpast : c.handler.past = false)
    (hfresh : ∀ a w, work a = some w → w.call ≠ c.id) {c' : Call F} {work' : ℕ → Option (Work F)}
    {result' : ℕ → Option (Except Admission.AdmissionError Unit)} :
    ReportOk work' result' c' report := by
  have hopen : report.failed = false := by
    by_contra hfailed
    rcases h.failed (by simpa using hfailed) with habsent | hp
    · exact Handler.ne_absent hbusy habsent
    · rw [hpast] at hp
      cases hp
  refine ⟨fun hfailed => ?_,fun hrefused => ?_,fun told hreturned hfailed => ?_,fun data hdata => ?_,
    fun hadmitted => ?_⟩
  · exact absurd hfailed (by simp [hopen])
  · cases report with
    | returned r => cases hrefused
    | outcomeUnknown message => cases hrefused
    | attributeError => cases hrefused
    | _ => cases hopen
  · rw [hreturned,Report.failed,hfailed] at hopen
    cases hopen
  · obtain ⟨-,a,w,v,hw,hid,-⟩ := h.succeeded data hdata
    exact absurd hid (hfresh a w hw)
  · obtain ⟨-,a,w,hw,hid,-⟩ := h.admitted hadmitted
    exact absurd hid (hfresh a w hw)

/-- A call whose command is submitted. -/
theorem CallOk.submit (h : CallOk work result cfg c) (hbusy : c.handler.busy)
    (hpast : c.handler.past = false) (a : ℕ) (command : Command F)
    {result' : ℕ → Option (Except Admission.AdmissionError Unit)} :
    CallOk (Function.update work a (some ⟨c.id,command,none⟩)) result' cfg
      (c.withHandler (.submitting a)) := by
  refine ⟨Or.inr (h.unsent.resolve_left (Handler.ne_absent hbusy)),
    fun _ => h.encoded (Or.inr (Or.inr (Handler.ne_absent hbusy))),(by rintro ⟨⟩),?_,
    (by rintro _ ⟨⟩),(by rintro _ ⟨⟩),
    fun report hreport => (h.ended report hreport).unfinished hbusy hpast (h.fresh hpast)⟩
  rintro b (hb | hb)
  · cases hb
    exact ⟨_,Function.update_self _ _ _,rfl⟩
  · cases hb

theorem Inv.work_nextKey (h : Inv cfg db₀ s) : s.work s.admission.calls.nextKey = none := by
  by_contra hsome
  obtain ⟨w,hw⟩ := Option.ne_none_iff_exists'.mp hsome
  have hknown := (h.work _ w hw).known
  rw [Admission.State.phase,Table.get_nextKey] at hknown
  cases hknown

theorem Inv.nextKey_not_executed (h : Inv cfg db₀ s) :
    s.admission.calls.nextKey ∉ s.admission.executions := by
  intro hexecuted
  obtain ⟨w,hw⟩ := Option.isSome_iff_exists.mp (h.named _ hexecuted)
  rw [h.work_nextKey] at hw
  cases hw

/-- A call without work has left nothing behind. -/
theorem Inv.fresh_history (h : Inv cfg db₀ s) {id : ℕ}
    (hfresh : ∀ a w, s.work a = some w → w.call ≠ id) : id ∉ s.history.map Prod.fst := by
  intro hmem
  obtain ⟨entry,hentry,hid⟩ := List.mem_map.mp hmem
  obtain ⟨a,w,hw,hcall,-⟩ := h.kept entry hentry
  exact hfresh a w hw (hcall.trans hid)

theorem get_toHandler (hc : s.calls.get c.id = some c) (handler : Handler F) (id : ℕ) :
    (s.toHandler c.id handler).calls.get id =
      if id = c.id then some (c.withHandler handler) else s.calls.get id := by
  rw [State.toHandler,State.modify,Table.get_modify]
  split
  · rw [hc,Option.map_some]
  · rfl

/-- A command that is submitted gets its work item. -/
theorem Inv.submit (h : Inv cfg db₀ s) (hc : s.calls.get c.id = some c)
    (hok : CallOk s.work s.admission.result cfg c) (hbusy : c.handler.busy)
    (hpast : c.handler.past = false) {command : Command F}
    (hchecked : checked cfg.read c.body = .ok command) :
    Inv cfg db₀ { s.toHandler c.id (.submitting s.admission.calls.nextKey) with
      admission := Admission.step cfg.limits s.admission (.submit c.body.length)
      work := Function.update s.work s.admission.calls.nextKey (some ⟨c.id,command,none⟩) } := by
  have hfresh := hok.fresh hpast
  have hnew := h.work_nextKey
  have hexecutions : (Admission.step cfg.limits s.admission (.submit c.body.length)).executions =
      s.admission.executions := executions_step (by rintro ⟨⟩)
  refine ⟨Admission.inv_step h.admission (.submit c.body.length),h.replayed,?_,?_,?_,?_,?_,?_⟩
  · refine logged_congr h.logged rfl hexecutions (fun a ha => ?_)
    obtain ⟨w,hw⟩ := Option.isSome_iff_exists.mp (h.named a ha)
    exact (congrArg _ (update_new hnew hw)).trans (congrArg _ hw.symm)
  · intro a ha
    obtain ⟨w,hw⟩ := Option.isSome_iff_exists.mp (h.named a (hexecutions ▸ ha))
    exact Option.isSome_iff_exists.mpr ⟨w,update_new hnew hw⟩
  · intro entry hentry
    obtain ⟨a,w,hw,hrest⟩ := h.kept entry hentry
    exact ⟨a,w,update_new hnew hw,hrest⟩
  · intro a w hw
    rcases update_eq_some hw with ⟨rfl,rfl⟩ | ⟨-,hw⟩
    · refine ⟨⟨_,(get_toHandler hc _ c.id).trans (if_pos rfl),rfl,hchecked⟩,?_,?_,
        h.fresh_history hfresh⟩
      · change ((s.admission.calls.append _ (Admission.submission_id _)).get _ |>.map _).isSome
        rw [Table.get_append,if_pos rfl]
        rfl
      · rw [hexecutions]
        exact iff_of_false (by simp) h.nextKey_not_executed
    · have hwork := h.work a w hw
      obtain ⟨d,hd,hdpast,hdchecked⟩ := hwork.call
      refine ⟨⟨d,?_,hdpast,hdchecked⟩,isSome_phase_step hwork.known,?_,hwork.outcome⟩
      · exact (get_toHandler hc _ w.call).trans ((if_neg (hfresh a w hw)).trans hd)
      · rw [hexecutions]
        exact hwork.executed
  · intro a b v w hv hw hsame
    rcases update_eq_some hv with ⟨rfl,rfl⟩ | ⟨-,hv⟩
    · rcases update_eq_some hw with ⟨rfl,rfl⟩ | ⟨-,hw⟩
      · rfl
      · exact absurd hsame.symm (hfresh b w hw)
    · rcases update_eq_some hw with ⟨rfl,rfl⟩ | ⟨-,hw⟩
      · exact absurd hsame (hfresh a v hv)
      · exact h.unique a b v w hv hw hsame
  · intro id d hd
    replace hd := (get_toHandler hc _ id).symm.trans hd
    split at hd
    · exact Option.some.inj hd ▸ hok.submit hbusy hpast _ command
    · rename_i hid
      refine (h.calls id d hd).extends (.update_new hnew ?_)
        (Admission.keeps_step h.admission (.submit c.body.length))
      rw [(Table.get_eq_some.mp hd).2]
      exact Ne.symm hid

theorem inv_readBody (h : Inv cfg db₀ s) (hc : s.calls.get c.id = some c)
    (hok : CallOk s.work s.admission.result cfg c) (body : BodyRead) :
    Inv cfg db₀ (readBody cfg s c body) := by
  have hreading : c.handler = .reading → c.handler.busy ∧ c.handler.past = false := by
    intro hhandler
    rw [hhandler]
    exact ⟨rfl,rfl⟩
  rw [readBody.eq_def]
  split
  · split
    · rename_i hhandler
      obtain ⟨hbusy,hpast⟩ := hreading hhandler
      cases hchecked : checked cfg.read c.body with
      | error reply =>
        obtain ⟨status,commandId,admitted,e,rfl⟩ := rejected_of_checked hchecked
        exact h.answer_fresh hc hok hbusy hpast _ _ _ _
      | ok command => exact h.submit hc hok hbusy hpast hchecked
    · exact h
  · split
    · rename_i hhandler
      obtain ⟨hbusy,hpast⟩ := hreading hhandler
      exact h.answer_fresh hc hok hbusy hpast _ _ _ _
    · exact h
  · split
    · rename_i hhandler
      obtain ⟨hbusy,hpast⟩ := hreading hhandler
      exact h.answer_fresh hc hok hbusy hpast _ _ _ _
    · exact h

end Call

/-! The steps of the writer -/

section Writer
variable {cfg : Setup F DB} {db₀ : DB} {s : State F DB}

/-- A step of the queue that executes nothing. -/
theorem Inv.admission_step (h : Inv cfg db₀ s) {l : Admission.Label} (hl : l ≠ .executeOne) :
    Inv cfg db₀ { s with admission := Admission.step cfg.limits s.admission l } := by
  refine ⟨Admission.inv_step h.admission l,h.replayed,?_,?_,h.kept,?_,h.unique,?_⟩
  · exact logged_congr h.logged rfl (executions_step hl) (fun _ _ => rfl)
  · intro a ha
    exact h.named a ((executions_step hl) ▸ ha)
  · intro a w hw
    have hwork := h.work a w hw
    exact ⟨hwork.call,isSome_phase_step hwork.known,(executions_step hl).symm ▸ hwork.executed,
      hwork.outcome⟩
  · intro id c hc
    exact (h.calls id c hc).extends (.refl _ _) (Admission.keeps_step h.admission l)

theorem inv_advance (h : Inv cfg db₀ s) (l : Admission.Label) : Inv cfg db₀ (advance cfg s l) := by
  rw [advance.eq_def]
  split
  · exact h
  · exact h
  · rename_i hexecute
    exact h.admission_step hexecute

theorem Inv.lifecycle (h : Inv cfg db₀ s) (alive draining : Bool) :
    Inv cfg db₀ { s with alive := alive, draining := draining } := by
  refine ⟨h.admission,h.replayed,h.logged,h.named,h.kept,?_,h.unique,h.calls⟩
  intro a w hw
  have hwork := h.work a w hw
  exact ⟨hwork.call,hwork.known,hwork.executed,hwork.outcome⟩

/-- The history follows the database through an execution. -/
theorem replay_left {handlers : Handlers F DB} {faults : Faults} {w : Work F} {db db' : DB}
    {history : List (ℕ × Operation F)} {outcome : Except RpcError (Value F)}
    (hdb : db = replay handlers db₀ history)
    (h : executeOne handlers faults w.command.operation db = (outcome,db')) :
    db' = replay handlers db₀ (history ++ w.left outcome) := by
  rw [replay_append,← hdb]
  rcases executeOne_cases handlers faults w.command.operation db with heq | ⟨hatomic,e,heq⟩
  · have hleft : db' = replay handlers db [(w.call,w.command.operation)] :=
      (congrArg Prod.snd (h.symm.trans heq))
    cases outcome with
    | ok v => exact hleft
    | error e =>
      rw [Work.left]
      split
      · exact hleft
      · rename_i hatomic
        exact executeOne_error handlers (by simpa using hatomic) h
  · cases h.symm.trans heq
    rw [Work.left,hatomic]
    rfl

/-- An outcome stays what it is when other calls leave something behind. -/
theorem OutcomeOk.append {handlers : Handlers F DB} {w : Work F}
    {history added : List (ℕ × Operation F)} (h : OutcomeOk handlers db₀ history w)
    (hadded : w.call ∉ added.map Prod.fst) : OutcomeOk handlers db₀ (history ++ added) w := by
  have happend : w.call ∉ history.map Prod.fst → w.call ∉ (history ++ added).map Prod.fst := by
    intro hnot hmem
    rw [List.map_append] at hmem
    exact (List.mem_append.mp hmem).elim hnot hadded
  rw [OutcomeOk] at *
  split
  · rename_i hnone
    rw [hnone] at h
    exact happend h
  · rename_i outcome houtcome
    rw [houtcome] at h
    obtain ⟨faults,before,after,rfl,hresult,hnot⟩ := h
    refine ⟨faults,before,after ++ added,(List.append_assoc _ _ _),hresult,?_⟩
    rw [← List.append_assoc,List.map_append]
    exact fun hmem => (List.mem_append.mp hmem).elim hnot hadded

/-- The outcome of an execution says what it left behind. -/
theorem outcomeOk_left {handlers : Handlers F DB} {faults : Faults} {w : Work F} {db db' : DB}
    {history : List (ℕ × Operation F)} {outcome : Except RpcError (Value F)}
    (hdb : db = replay handlers db₀ history) (hnew : w.call ∉ history.map Prod.fst)
    (h : executeOne handlers faults w.command.operation db = (outcome,db')) :
    OutcomeOk handlers db₀ (history ++ w.left outcome) { w with outcome := some outcome } := by
  refine ⟨faults,history,[],(List.append_nil _).symm,?_,?_⟩
  · rw [← hdb]
    exact congrArg Prod.fst h
  · rwa [List.append_nil]

/-- The call of an execution that leaves something behind. -/
theorem eq_of_mem_left {w : Work F} {outcome : Except RpcError (Value F)} {entry : ℕ × Operation F}
    (h : entry ∈ w.left outcome) : entry = (w.call,w.command.operation) := by
  cases outcome with
  | ok v => exact List.mem_singleton.mp h
  | error e =>
    rw [Work.left] at h
    split at h
    · exact List.mem_singleton.mp h
    · cases h

theorem sublist_left (w : Work F) (outcome : Except RpcError (Value F)) :
    ((w.left outcome).map Prod.fst).Sublist [w.call] := by
  cases outcome with
  | ok v => exact List.Sublist.refl _
  | error e =>
    rw [Work.left]
    split
    · exact List.Sublist.refl _
    · exact List.nil_sublist _

theorem not_mem_left {w : Work F} {outcome : Except RpcError (Value F)} {id : ℕ} (h : id ≠ w.call) :
    id ∉ (w.left outcome).map Prod.fst := by
  intro hmem
  obtain ⟨entry,hentry,rfl⟩ := List.mem_map.mp hmem
  rw [eq_of_mem_left hentry] at h
  exact h rfl

theorem executions_executeOne {a : ℕ} (hworker : s.admission.worker = .executing a) :
    (Admission.step cfg.limits s.admission .executeOne).executions =
      s.admission.executions ++ [a] := by
  change (Admission.executeOne s.admission).executions = _
  rw [Admission.executeOne,hworker]

/-- What the worker executes has not been executed. -/
theorem Inv.executing (h : Inv cfg db₀ s) {a : ℕ} {w : Work F}
    (hworker : s.admission.worker = .executing a) (hw : s.work a = some w) :
    w.outcome = none ∧ w.call ∉ s.history.map Prod.fst := by
  have hwork := h.work a w hw
  have hnot : a ∉ s.admission.executions := by
    have hplaced := h.admission.channel a
    have hcount := hplaced.executions
    rw [hplaced.running.mpr hworker] at hcount
    exact List.count_eq_zero.mp (hcount.trans (by simp))
  have hnone : w.outcome = none :=
    Option.not_isSome_iff_eq_none.mp (fun hsome => hnot (hwork.executed.mp hsome))
  have houtcome := hwork.outcome
  rw [OutcomeOk,hnone] at houtcome
  exact ⟨hnone,houtcome⟩

/-- The worker executes the command of a work item. -/
theorem Inv.execute (h : Inv cfg db₀ s) {a : ℕ} {w : Work F} {faults : Faults} {db : DB}
    {outcome : Except RpcError (Value F)} (hworker : s.admission.worker = .executing a)
    (hw : s.work a = some w)
    (hresult : executeOne cfg.handlers faults w.command.operation s.db = (outcome,db)) :
    Inv cfg db₀ { s with
      admission := Admission.step cfg.limits s.admission .executeOne
      work := Function.update s.work a (some { w with outcome := some outcome })
      db := db
      history := s.history ++ w.left outcome } := by
  obtain ⟨hnone,hnew⟩ := h.executing hworker hw
  have hexecutions : (Admission.step cfg.limits s.admission .executeOne).executions =
      s.admission.executions ++ [a] := executions_executeOne hworker
  have hwork := h.work a w hw
  refine ⟨Admission.inv_step h.admission .executeOne,replay_left h.replayed hresult,?_,?_,?_,?_,?_,?_⟩
  · rw [State.executed]
    simp only [hexecutions,map_call_update_outcome hw]
    rw [List.map_append,List.filterMap_append]
    refine h.logged.append ?_
    simp only [List.filterMap_cons,List.filterMap_nil,hw,Option.map_some]
    exact sublist_left w outcome
  · intro b hb
    obtain ⟨v,hv⟩ : ∃ v, s.work b = some v := by
      rcases List.mem_append.mp (hexecutions ▸ hb) with hb | hb
      · exact Option.isSome_iff_exists.mp (h.named b hb)
      · exact ⟨w,List.mem_singleton.mp hb ▸ hw⟩
    obtain ⟨v',hv',-⟩ := update_outcome hw hnone outcome hv
    exact Option.isSome_iff_exists.mpr ⟨v',hv'⟩
  · intro entry hentry
    rcases List.mem_append.mp hentry with hentry | hentry
    · obtain ⟨b,v,hv,hcall,hoperation,hsome⟩ := h.kept entry hentry
      obtain ⟨v',hv',hcall',hcommand,hkeep⟩ := update_outcome hw hnone outcome hv
      obtain ⟨o,ho⟩ := Option.isSome_iff_exists.mp hsome
      exact ⟨b,v',hv',hcall'.trans hcall,hcommand ▸ hoperation,by rw [hkeep o ho]; rfl⟩
    · obtain rfl := eq_of_mem_left hentry
      exact ⟨a,_,Function.update_self _ _ _,rfl,rfl,rfl⟩
  · intro b v hv
    rcases update_eq_some hv with ⟨rfl,rfl⟩ | ⟨hb,hv⟩
    · refine ⟨hwork.call,isSome_phase_step hwork.known,?_,outcomeOk_left h.replayed hnew hresult⟩
      rw [hexecutions]
      exact iff_of_true rfl (List.mem_append_right _ (List.mem_singleton.mpr rfl))
    · have hother := h.work b v hv
      refine ⟨hother.call,isSome_phase_step hother.known,?_,hother.outcome.append (not_mem_left ?_)⟩
      · rw [hexecutions,hother.executed,List.mem_append,List.mem_singleton]
        exact (or_iff_left hb).symm
      · exact fun hsame => hb (h.unique b a v w hv hw hsame)
  · intro b k v v' hv hv' hsame
    rcases update_eq_some hv with ⟨rfl,rfl⟩ | ⟨hb,hold⟩
    · rcases update_eq_some hv' with ⟨rfl,rfl⟩ | ⟨hk,hold'⟩
      · rfl
      · exact h.unique _ _ _ _ hw hold' hsame
    · rcases update_eq_some hv' with ⟨rfl,rfl⟩ | ⟨hk,hold'⟩
      · exact h.unique _ _ _ _ hold hw hsame
      · exact h.unique _ _ _ _ hold hold' hsame
  · intro id c hc
    exact (h.calls id c hc).extends (.update_outcome c.id hw hnone outcome)
      (Admission.keeps_step h.admission .executeOne)

theorem inv_executeWork (h : Inv cfg db₀ s) (faults : Faults) :
    Inv cfg db₀ (executeWork cfg s faults) := by
  rw [executeWork]
  split
  · rename_i a hworker
    split
    · rename_i w hw
      exact h.execute hworker hw rfl
    · exact h
  · exact h

end Writer

section Step
variable {cfg : Setup F DB} {db₀ : DB} {s : State F DB}

theorem inv_whileAlive {t : State F DB} (h : Inv cfg db₀ s) (ht : Inv cfg db₀ t) :
    Inv cfg db₀ (whileAlive s t) := by
  rw [whileAlive]
  split
  · exact ht
  · exact h

theorem inv_step (h : Inv cfg db₀ s) (l : Label F) : Inv cfg db₀ (step cfg s l) := by
  cases l with
  | submitRust cmd wait timeout => exact inv_submitRust h cmd wait timeout
  | encode id => exact inv_onCall h (fun c hc hok => inv_encode h hc hok)
  | connect id failure => exact inv_onCall h (fun c hc hok => inv_connect h hc hok failure)
  | send id => exact inv_onCall h (fun c hc hok => inv_send h hc hok)
  | lose id loss => exact inv_onCall h (fun c hc hok => inv_lose h hc hok loss)
  | receive id => exact inv_onCall h (fun c hc hok => inv_receive h hc hok)
  | arrive id => exact inv_whileAlive h (inv_onCall h (fun c hc hok => inv_arrive h hc hok))
  | readBody id body =>
    exact inv_whileAlive h (inv_onCall h (fun c hc hok => inv_readBody h hc hok body))
  | advance l => exact inv_whileAlive h (inv_advance h l)
  | admitted id => exact inv_whileAlive h (inv_onCall h (fun c hc hok => inv_admitted h hc hok))
  | executeWork faults => exact inv_whileAlive h (inv_executeWork h faults)
  | finish id => exact inv_whileAlive h (inv_onCall h (fun c hc hok => inv_finish h hc hok))
  | expire id => exact inv_whileAlive h (inv_onCall h (fun c hc hok => inv_expire h hc hok))
  | dropHandler id => exact inv_whileAlive h (inv_onCall h (fun c hc hok => inv_dropHandler h hc hok))
  | drain => exact h.lifecycle s.alive true
  | exit => exact h.lifecycle false s.draining

theorem inv_run (cfg : Setup F DB) (db₀ : DB) (ls : List (Label F)) :
    Inv cfg db₀ (run (step cfg) (start db₀) ls) :=
  run_invariant (I := Inv cfg db₀) (fun _ l h => inv_step h l) (inv_start cfg db₀) ls

end Step

end Podly.Rpc
