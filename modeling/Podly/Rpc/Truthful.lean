import Podly.Protocol.RoundTrip
import Podly.Rpc.Invariant

/-! In every run the clients are told the truth: a success was committed once, a failure never was, and
an admitted command is executed. -/
namespace Podly.Rpc
open Protocol Store Writer
open Json (depth)

variable {F DB : Type}

/-- Each call is still there, and what it has reported is its report. -/
def Keeps (s t : State F DB) : Prop :=
  ∀ id c, s.calls.get id = some c → ∃ d, t.calls.get id = some d ∧ d.cmd = c.cmd ∧ d.wait = c.wait ∧
    ∀ report, c.report = some report → d.report = some report

section Keeps
variable {cfg : Setup F DB} {s t u : State F DB}

theorem Keeps.refl (s : State F DB) : Keeps s s := fun _ c hc => ⟨c,hc,rfl,rfl,fun _ h => h⟩

theorem Keeps.trans (hst : Keeps s t) (htu : Keeps t u) : Keeps s u := by
  intro id c hc
  obtain ⟨d,hd,hcmd,hwait,hreport⟩ := hst id c hc
  obtain ⟨e,he,hcmd',hwait',hreport'⟩ := htu id d hd
  exact ⟨e,he,hcmd'.trans hcmd,hwait'.trans hwait,fun report h => hreport' report (hreport report h)⟩

theorem Keeps.of_calls (h : t.calls = s.calls) : Keeps s t := by
  intro id c hc
  exact ⟨c,h.symm ▸ hc,rfl,rfl,fun _ h => h⟩

/-- A call moves, before its report or without one. -/
theorem keeps_modify {c : Call F} {f : Call F → Call F} {hf : ∀ c, (f c).id = c.id}
    (hc : s.calls.get c.id = some c) (hcmd : (f c).cmd = c.cmd) (hwait : (f c).wait = c.wait)
    (hreport : ∀ report, c.report = some report → (f c).report = some report) :
    Keeps s (s.modify c.id f hf) := by
  intro id d hd
  by_cases hid : id = c.id
  · obtain rfl : c = d := Option.some.inj (hc.symm.trans (hid ▸ hd))
    refine ⟨f c,?_,hcmd,hwait,hreport⟩
    rw [State.modify,Table.get_modify,if_pos hid,hc,Option.map_some]
  · refine ⟨d,?_,rfl,rfl,fun _ h => h⟩
    rw [State.modify,Table.get_modify,if_neg hid,hd]

theorem unreported {c : Call F} (hnone : c.report = none) {p : Report F → Prop} :
    ∀ report, c.report = some report → p report := by
  intro report h
  rw [hnone] at h
  cases h

theorem keeps_toHandler {c : Call F} (hc : s.calls.get c.id = some c) (handler : Handler F) :
    Keeps s (s.toHandler c.id handler) := keeps_modify hc rfl rfl (fun _ h => h)

theorem keeps_toClient {c : Call F} (hc : s.calls.get c.id = some c) (client : Client F)
    (hnone : c.report = none) : Keeps s (s.toClient c.id client) :=
  keeps_modify hc rfl rfl (unreported hnone)

theorem keeps_onCall {id : ℕ} {f : Call F → State F DB}
    (hstep : ∀ c, s.calls.get c.id = some c → Keeps s (f c)) : Keeps s (onCall s id f) := by
  rw [onCall]
  cases hc : s.calls.get id with
  | none => exact .refl s
  | some c =>
    obtain rfl := (Table.get_eq_some.mp hc).2
    exact hstep c hc

theorem keeps_whileAlive (h : Keeps s t) : Keeps s (whileAlive s t) := by
  rw [whileAlive]
  split
  · exact h
  · exact .refl s

section Call
variable {c : Call F} (hc : s.calls.get c.id = some c)
include hc

theorem keeps_encode : Keeps s (encode cfg s c) := by
  rw [encode.eq_def]
  split
  · rename_i hclient
    have hnone : c.report = none := by rw [Call.report,hclient]
    split
    · exact keeps_toClient hc _ hnone
    · split
      · exact keeps_toClient hc _ hnone
      · exact keeps_toClient hc _ hnone
      · split
        · exact keeps_toClient hc _ hnone
        · exact keeps_modify hc rfl rfl (unreported hnone)
  · exact .refl s

theorem keeps_connect (failure : Option ConnectFailure) : Keeps s (connect s c failure) := by
  rw [connect.eq_def]
  split
  · split
    · rename_i hclient
      exact keeps_toClient hc _ (by rw [Call.report,hclient])
    · exact .refl s
  · split
    · rename_i hclient
      exact keeps_toClient hc _ (by rw [Call.report,hclient])
    · exact .refl s

theorem keeps_send : Keeps s (send s c) := by
  rw [send.eq_def]
  split
  · rename_i hclient
    have hnone : c.report = none := by rw [Call.report,hclient]
    exact keeps_modify hc rfl rfl (unreported hnone)
  · exact .refl s

theorem keeps_lose (loss : Loss) : Keeps s (lose s c loss) := by
  rw [lose.eq_def]
  split
  · rename_i hclient
    exact keeps_toClient hc _ (by rw [Call.report,hclient])
  · exact .refl s

theorem keeps_receive : Keeps s (receive cfg s c) := by
  rw [receive.eq_def]
  split
  · rename_i reply hclient hhandler
    exact keeps_toClient hc _ (by rw [Call.report,hclient])
  · exact .refl s

theorem keeps_arrive : Keeps s (arrive cfg s c) := by
  rw [arrive.eq_def]
  repeat' split
  all_goals first
    | exact keeps_toHandler hc _
    | exact .refl s

theorem keeps_readBody (body : BodyRead) : Keeps s (readBody cfg s c body) := by
  rw [readBody.eq_def]
  repeat' split
  all_goals first
    | exact keeps_toHandler hc _
    | exact .refl s

theorem keeps_admitted : Keeps s (admitted s c) := by
  rw [admitted.eq_def]
  repeat' split
  all_goals first
    | exact keeps_toHandler hc _
    | exact .refl s

theorem keeps_finish : Keeps s (finish s c) := by
  rw [finish.eq_def]
  repeat' split
  all_goals first
    | exact keeps_toHandler hc _
    | exact .refl s

theorem keeps_expire : Keeps s (expire s c) := by
  rw [expire.eq_def]
  repeat' split
  all_goals first
    | exact keeps_toHandler hc _
    | exact .refl s

theorem keeps_dropHandler : Keeps s (dropHandler s c) := by
  rw [dropHandler.eq_def]
  repeat' split
  all_goals first
    | exact keeps_toHandler hc _
    | exact .refl s

end Call

theorem keeps_submitRust (cmd : WriteCommand F) (wait : Bool) (timeout : ℤ) :
    Keeps s (step cfg s (.submitRust cmd wait timeout)) := by
  intro id c hc
  refine ⟨c,?_,rfl,rfl,fun _ h => h⟩
  change (s.calls.append _ (newCall_id cmd wait timeout)).get id = _
  rw [Table.get_append,if_neg,hc]
  rintro rfl
  rw [Table.get_nextKey] at hc
  cases hc

theorem keeps_advance (l : Admission.Label) : Keeps s (advance cfg s l) := by
  rw [advance.eq_def]
  split <;> exact .of_calls rfl

theorem keeps_executeWork (faults : Faults) : Keeps s (executeWork cfg s faults) := by
  rw [executeWork]
  repeat' split
  all_goals exact .of_calls rfl

theorem keeps_step (l : Label F) : Keeps s (step cfg s l) := by
  cases l with
  | submitRust cmd wait timeout => exact keeps_submitRust cmd wait timeout
  | encode id => exact keeps_onCall (fun c hc => keeps_encode hc)
  | connect id failure => exact keeps_onCall (fun c hc => keeps_connect hc failure)
  | send id => exact keeps_onCall (fun c hc => keeps_send hc)
  | lose id loss => exact keeps_onCall (fun c hc => keeps_lose hc loss)
  | receive id => exact keeps_onCall (fun c hc => keeps_receive hc)
  | arrive id => exact keeps_whileAlive (keeps_onCall (fun c hc => keeps_arrive hc))
  | readBody id body => exact keeps_whileAlive (keeps_onCall (fun c hc => keeps_readBody hc body))
  | advance l => exact keeps_whileAlive (keeps_advance l)
  | admitted id => exact keeps_whileAlive (keeps_onCall (fun c hc => keeps_admitted hc))
  | executeWork faults => exact keeps_whileAlive (keeps_executeWork faults)
  | finish id => exact keeps_whileAlive (keeps_onCall (fun c hc => keeps_finish hc))
  | expire id => exact keeps_whileAlive (keeps_onCall (fun c hc => keeps_expire hc))
  | dropHandler id => exact keeps_whileAlive (keeps_onCall (fun c hc => keeps_dropHandler hc))
  | drain => exact .of_calls rfl
  | exit => exact .of_calls rfl

theorem keeps_run (ls : List (Label F)) : Keeps s (run (step cfg) s ls) := by
  induction ls generalizing s with
  | nil => exact .refl s
  | cons l ls ih => exact (keeps_step l).trans ih

end Keeps

section Executed
variable {cfg : Setup F DB} {db₀ : DB} {s t u : State F DB}

theorem executed_onCall {id : ℕ} {f : Call F → State F DB}
    (h : ∀ c, (f c).executed = s.executed) : (onCall s id f).executed = s.executed := by
  rw [onCall]
  cases s.calls.get id with
  | none => rfl
  | some c => exact h c

theorem executed_whileAlive (h : t.executed = s.executed) :
    (whileAlive s t).executed = s.executed := by
  rw [whileAlive]
  split
  · exact h
  · rfl

theorem executed_readBody (h : Inv cfg db₀ s) (c : Call F) (body : BodyRead) :
    (readBody cfg s c body).executed = s.executed := by
  rw [readBody.eq_def]
  repeat' split
  all_goals try rfl
  rename_i command _
  change (Admission.step cfg.limits s.admission (.submit c.body.length)).executions.filterMap
    (fun a => (Function.update s.work s.admission.calls.nextKey (some ⟨c.id,command,none⟩) a).map
      Work.call) = _
  rw [executions_step (by rintro ⟨⟩)]
  refine List.filterMap_congr (fun a ha => ?_)
  rw [Function.update_of_ne]
  rintro rfl
  -- What is executed was submitted before.
  obtain ⟨w,hw⟩ := Option.isSome_iff_exists.mp (h.named _ ha)
  have hknown := (h.work _ w hw).known
  rw [Admission.State.phase,Table.get_nextKey] at hknown
  cases hknown

theorem executed_advance (l : Admission.Label) : (advance cfg s l).executed = s.executed := by
  rw [advance.eq_def]
  split
  · rfl
  · rfl
  · rename_i hexecute
    exact congrArg (List.filterMap (fun a => (s.work a).map Work.call)) (executions_step hexecute)

/-- The worker executes the command in its hands, and nothing else executes one. -/
theorem executed_executeWork (faults : Faults) :
    (executeWork cfg s faults).executed = s.executed ∨ ∃ a w, s.admission.worker = .executing a ∧
      s.work a = some w ∧ (executeWork cfg s faults).executed = s.executed ++ [w.call] := by
  rw [executeWork]
  split
  · rename_i a hworker
    split
    · rename_i w hw
      refine Or.inr ⟨a,w,hworker,hw,?_⟩
      have hexecutions : (Admission.step cfg.limits s.admission .executeOne).executions =
          s.admission.executions ++ [a] := by
        change (Admission.executeOne s.admission).executions = _
        rw [Admission.executeOne,hworker]
      change (Admission.step cfg.limits s.admission .executeOne).executions.filterMap _ = _
      rw [hexecutions,List.filterMap_append,State.executed]
      refine congrArg₂ _ (List.filterMap_congr (fun b _ => ?_)) ?_
      · change (Function.update s.work a _ b).map Work.call = _
        rw [Function.update_apply]
        split
        · rename_i hb
          rw [hb,hw]
          rfl
        · rfl
      · simp [Function.update_self]
    · exact Or.inl rfl
  · exact Or.inl rfl

theorem executed_step (h : Inv cfg db₀ s) (l : Label F) : (step cfg s l).executed = s.executed ∨
    ∃ a w, s.admission.worker = .executing a ∧ s.work a = some w ∧
      (step cfg s l).executed = s.executed ++ [w.call] := by
  cases l with
  | executeWork faults =>
    change (whileAlive _ _).executed = _ ∨ ∃ a w, _ ∧ _ ∧ (whileAlive _ _).executed = _
    rw [whileAlive]
    split
    · exact executed_executeWork faults
    · exact Or.inl rfl
  | encode id =>
    refine Or.inl (executed_onCall (fun c => ?_))
    rw [encode.eq_def]
    repeat' split
    all_goals rfl
  | connect id failure =>
    refine Or.inl (executed_onCall (fun c => ?_))
    rw [connect.eq_def]
    repeat' split
    all_goals rfl
  | send id =>
    refine Or.inl (executed_onCall (fun c => ?_))
    rw [send.eq_def]
    split <;> rfl
  | lose id loss =>
    refine Or.inl (executed_onCall (fun c => ?_))
    rw [lose.eq_def]
    split <;> rfl
  | receive id =>
    refine Or.inl (executed_onCall (fun c => ?_))
    rw [receive.eq_def]
    split <;> rfl
  | arrive id =>
    refine Or.inl (executed_whileAlive (executed_onCall (fun c => ?_)))
    rw [arrive.eq_def]
    repeat' split
    all_goals rfl
  | readBody id body =>
    exact Or.inl (executed_whileAlive (executed_onCall (fun c => executed_readBody h c body)))
  | advance l => exact Or.inl (executed_whileAlive (executed_advance l))
  | admitted id =>
    refine Or.inl (executed_whileAlive (executed_onCall (fun c => ?_)))
    rw [admitted.eq_def]
    repeat' split
    all_goals rfl
  | finish id =>
    refine Or.inl (executed_whileAlive (executed_onCall (fun c => ?_)))
    rw [finish.eq_def]
    repeat' split
    all_goals rfl
  | expire id =>
    refine Or.inl (executed_whileAlive (executed_onCall (fun c => ?_)))
    rw [expire.eq_def]
    repeat' split
    all_goals rfl
  | dropHandler id =>
    refine Or.inl (executed_whileAlive (executed_onCall (fun c => ?_)))
    rw [dropHandler.eq_def]
    split <;> rfl
  | submitRust cmd wait timeout => exact Or.inl rfl
  | drain => exact Or.inl rfl
  | exit => exact Or.inl rfl

/-- What the invariant says of a call that was told it failed: its work was not admitted or is
executed. -/
theorem Inv.unadmitted (h : Inv cfg db₀ s) {c : Call F} {report : Report F}
    (hok : ReportOk s.work s.admission.result c report) (hfailed : report.failed)
    (hnot : c.id ∉ s.executed) : Unadmitted s.work s.admission.result c.id := by
  cases report with
  | returned r =>
    cases r with
    | none => cases hfailed
    | some told =>
      obtain ⟨-,-,e,-,-,⟨-,-,-,hunadmitted⟩ | ⟨-,a,w,-,hw,hcall,he⟩⟩ :=
        hok.told told rfl (by simpa [Report.failed] using hfailed)
      · exact hunadmitted
      · refine absurd (List.mem_filterMap.mpr ⟨a,?_,?_⟩) hnot
        · exact (h.work a w hw).executed.mp (by rw [he]; rfl)
        · rw [hw,Option.map_some,hcall]
  | valueError => exact hok.refused rfl
  | transportError message => exact hok.refused rfl
  | outcomeUnknown message => cases hfailed
  | attributeError => cases hfailed

/-- A call that was told it failed and is not executed never is. -/
def StaysOut (s t : State F DB) : Prop :=
  ∀ id c report, s.calls.get id = some c → c.report = some report → report.failed →
    id ∉ s.executed → id ∉ t.executed

theorem client_of_report {c : Call F} {report : Report F} (h : c.report = some report) :
    c.client = .ended report := by
  rw [Call.report] at h
  split at h
  · rename_i r hclient
    exact hclient.trans (congrArg _ (Option.some.inj h))
  · cases h

theorem staysOut_step (h : Inv cfg db₀ s) (l : Label F) : StaysOut s (step cfg s l) := by
  intro id c report hc hreport hfailed hnot
  obtain rfl := (Table.get_eq_some.mp hc).2
  rcases executed_step h l with heq | ⟨a,w,hworker,hw,heq⟩
  · rwa [heq]
  · rw [heq]
    intro hmem
    rcases List.mem_append.mp hmem with hmem | hmem
    · exact hnot hmem
    · -- What the worker has in its hands was admitted.
      have hok := (h.calls _ c hc).ended report (client_of_report hreport)
      obtain ⟨e,he⟩ := h.unadmitted hok hfailed hnot a w hw (List.mem_singleton.mp hmem).symm
      have hrunning := (h.admission.channel a).running.mpr hworker
      rw [Admission.State.result,hrunning] at he
      cases he

theorem staysOut_run (h : Inv cfg db₀ s) (ls : List (Label F)) :
    StaysOut s (run (step cfg) s ls) := by
  induction ls generalizing s with
  | nil => exact fun _ _ _ _ _ _ hnot => hnot
  | cons l ls ih =>
    intro id c report hc hreport hfailed hnot
    obtain ⟨d,hd,-,-,hkeep⟩ := keeps_step l id c hc
    exact ih (inv_step h l) id d report hd (hkeep report hreport) hfailed
      (staysOut_step h l id c report hc hreport hfailed hnot)

end Executed

/-- The command of a call was executed and came to an outcome, which is what its operation comes to
where the execution stands in the history. -/
def CameTo (cfg : Setup F DB) (db₀ : DB) (s : State F DB) (id : ℕ)
    (outcome : Except RpcError (Value F)) : Prop :=
  ∃ a w faults before after, a ∈ s.admission.executions ∧ s.work a = some w ∧ w.call = id ∧
    s.history = before ++ w.left outcome ++ after ∧
    (executeOne cfg.handlers faults w.command.operation (replay cfg.handlers db₀ before)).1 = outcome ∧
    id ∉ (before ++ after).map Prod.fst

/-- What the reports of a state say is so, and the database is what the history says. -/
structure Truthful (cfg : Setup F DB) (db₀ : DB) (s : State F DB) : Prop where
  database : s.db = replay cfg.handlers db₀ s.history
  named : ∀ a ∈ s.admission.executions, (s.work a).isSome
  once : s.executed.Nodup
  logged : (s.history.map Prod.fst).Sublist s.executed
  asked : ∀ entry ∈ s.history, ∃ c body command, s.calls.get entry.1 = some c ∧
    cfg.encode c.cmd c.wait = some body ∧ decodeCommand cfg.read body = some command ∧
    validate command.operation = .ok () ∧ command.operation = entry.2
  said : ReadsDumps cfg.repr cfg.read → ∀ entry ∈ s.history, ∀ c payload,
    s.calls.get entry.1 = some c → c.cmd.Dicts →
    rustCommandPayload cfg.py.str c.cmd c.wait = some payload → depth payload < recursionLimit →
    c.cmd.operation cfg.py.str = some entry.2
  succeeded : ∀ id c report data, s.calls.get id = some c → c.report = some report →
    report.succeeded = some data → ∃ before operation after v,
      s.history = before ++ (id,operation)::after ∧
      (effect cfg.handlers operation (replay cfg.handlers db₀ before)).1 = .ok v ∧
      legacyData c.cmd v = .ok data
  refused : ∀ id c report, s.calls.get id = some c → c.report = some report → report.refused →
    id ∉ s.executed
  told : ∀ id c told, s.calls.get id = some c → c.report = some (.returned (some told)) →
    told.success = false → ∃ status response e, c.handler = .answered ⟨status,response⟩ ∧
      told = ⟨c.cmd.id,false,null,some e.text⟩ ∧
      ((∃ commandId admitted, response = .rejected commandId admitted e ∧ id ∉ s.executed) ∨
        ∃ commandId, response = .completed commandId false none (some e) ∧
          CameTo cfg db₀ s id (.error e))
  failed : ∀ id c report, s.calls.get id = some c → c.report = some report → report.failed →
    ∀ entry ∈ s.history, entry.1 = id → Operation.nonAtomic entry.2
  admitted : ∀ id c report, s.calls.get id = some c → c.report = some report → report.admitted →
    (∃ d ∈ s.admission.shutdowns.rows, d.phase = .returned) →
      ∃ a w, s.work a = some w ∧ w.call = id ∧ w.outcome.isSome

section Truthful
variable {cfg : Setup F DB} {db₀ : DB} {s : State F DB}

theorem decode_of_checked {read : List UInt8 → Option (Value F × List UInt8)} {body : List UInt8}
    {command : Command F} (h : checked read body = .ok command) :
    decodeCommand read body = some command ∧ validate command.operation = .ok () := by
  rw [checked] at h
  split at h
  · cases h
  · rename_i decoded hdecoded
    split_ifs at h
    split at h
    · cases h
    · rename_i hvalid
      obtain rfl := Except.ok.inj h
      exact ⟨hdecoded,hvalid⟩

/-- What was executed came in the body of its call. -/
theorem Inv.asked (h : Inv cfg db₀ s) {entry : ℕ × Operation F} (hentry : entry ∈ s.history) :
    ∃ c body command, s.calls.get entry.1 = some c ∧ cfg.encode c.cmd c.wait = some body ∧
      decodeCommand cfg.read body = some command ∧ validate command.operation = .ok () ∧
      command.operation = entry.2 := by
  obtain ⟨a,w,hw,hcall,hoperation,-⟩ := h.kept entry hentry
  obtain ⟨c,hc,hpast,hchecked⟩ := (h.work a w hw).call
  obtain ⟨hdecode,hvalid⟩ := decode_of_checked hchecked
  have hbusy : c.handler ≠ .absent := by
    intro habsent
    rw [habsent] at hpast
    cases hpast
  exact ⟨c,c.body,w.command,hcall ▸ hc,(h.calls _ c hc).encoded (Or.inr (Or.inr hbusy)),hdecode,
    hvalid,hoperation⟩

theorem Inv.once (h : Inv cfg db₀ s) : s.executed.Nodup := by
  refine List.Nodup.filterMap ?_ (List.nodup_iff_count_le_one.mpr h.admission.exact.once)
  intro a b id ha hb
  obtain ⟨v,hv,hcall⟩ := Option.map_eq_some_iff.mp ha
  obtain ⟨w,hw,hcall'⟩ := Option.map_eq_some_iff.mp hb
  exact h.unique a b v w hv hw (hcall.trans hcall'.symm)

/-- What is not admitted is not executed. -/
theorem Inv.not_executed (h : Inv cfg db₀ s) {id : ℕ}
    (hnot : Unadmitted s.work s.admission.result id) : id ∉ s.executed := by
  intro hmem
  obtain ⟨a,ha,hcall⟩ := List.mem_filterMap.mp hmem
  obtain ⟨w,hw,hid⟩ := Option.map_eq_some_iff.mp hcall
  obtain ⟨e,he⟩ := hnot a w hw hid
  exact List.count_eq_zero.mp (h.admission.exact.rejected a e he) ha

/-- The outcome of a work item is what its execution came to. -/
theorem Inv.cameTo (h : Inv cfg db₀ s) {a : ℕ} {w : Work F} {outcome : Except RpcError (Value F)}
    (hw : s.work a = some w) (houtcome : w.outcome = some outcome) :
    CameTo cfg db₀ s w.call outcome := by
  have hexecuted := (h.work a w hw).executed.mp (by rw [houtcome]; rfl)
  have hok := (h.work a w hw).outcome
  rw [OutcomeOk,houtcome] at hok
  obtain ⟨faults,before,after,hhistory,hresult,hnot⟩ := hok
  exact ⟨a,w,faults,before,after,hexecuted,hw,rfl,hhistory,hresult,hnot⟩

theorem Inv.succeeded (h : Inv cfg db₀ s) {a : ℕ} {w : Work F} {v : Value F}
    (hw : s.work a = some w) (hv : w.outcome = some (.ok v)) : ∃ before after,
    s.history = before ++ (w.call,w.command.operation)::after ∧
      (effect cfg.handlers w.command.operation (replay cfg.handlers db₀ before)).1 = .ok v := by
  have hok := (h.work a w hw).outcome
  rw [OutcomeOk,hv] at hok
  obtain ⟨faults,before,after,hhistory,hresult,-⟩ := hok
  refine ⟨before,after,?_,?_⟩
  · rw [hhistory,Work.left,List.append_assoc]
    rfl
  · rcases executeOne_cases cfg.handlers faults w.command.operation (replay cfg.handlers db₀ before)
      with heq | ⟨-,e,heq⟩
    · rw [← heq,hresult]
    · rw [heq] at hresult
      cases hresult

/-- An atomic command that failed left nothing behind. -/
theorem CameTo.atomic {id : ℕ} {e : RpcError} (h : CameTo cfg db₀ s id (.error e)) {entry : ℕ × Operation F} (hentry : entry ∈ s.history)
    (hid : entry.1 = id) : Operation.nonAtomic entry.2 := by
  obtain ⟨a,w,faults,before,after,-,hw,hcall,hhistory,-,hnot⟩ := h
  rw [hhistory,List.mem_append,List.mem_append] at hentry
  have hother : entry ∉ before ++ after := by
    intro hmem
    exact hnot (List.mem_map.mpr ⟨entry,hmem,hid⟩)
  rw [List.mem_append] at hother
  have hleft : entry ∈ w.left (.error e) := by
    by_contra hleft
    exact hentry.elim (fun hmem => hmem.elim (fun hbefore => hother (Or.inl hbefore)) hleft)
      (fun hafter => hother (Or.inr hafter))
  rw [Work.left] at hleft
  split at hleft
  · rename_i hatomic
    rwa [List.mem_singleton.mp hleft]
  · cases hleft

theorem Inv.truthful (h : Inv cfg db₀ s) : Truthful cfg db₀ s := by
  have hended : ∀ id c report, s.calls.get id = some c → c.report = some report →
      c.id = id ∧ ReportOk s.work s.admission.result c report := by
    intro id c report hc hreport
    exact ⟨(Table.get_eq_some.mp hc).2,(h.calls id c hc).ended report (client_of_report hreport)⟩
  have htold : ∀ id c told, s.calls.get id = some c → c.report = some (.returned (some told)) →
      told.success = false → ∃ status response e, c.handler = .answered ⟨status,response⟩ ∧
        told = ⟨c.cmd.id,false,null,some e.text⟩ ∧
        ((∃ commandId admitted, response = .rejected commandId admitted e ∧ id ∉ s.executed) ∨
          ∃ commandId, response = .completed commandId false none (some e) ∧
            CameTo cfg db₀ s id (.error e)) := by
    intro id c told hc hreport hfailed
    obtain ⟨rfl,hok⟩ := hended id c _ hc hreport
    obtain ⟨status,response,e,hhandler,htold,hwork⟩ := hok.told told rfl hfailed
    refine ⟨status,response,e,hhandler,htold,?_⟩
    rcases hwork with ⟨commandId,admitted,hresponse,hnot⟩ | ⟨commandId,a,w,hresponse,hw,hcall,he⟩
    · exact Or.inl ⟨commandId,admitted,hresponse,h.not_executed hnot⟩
    · exact Or.inr ⟨commandId,hresponse,hcall ▸ h.cameTo hw he⟩
  refine ⟨h.replayed,h.named,h.once,h.logged,fun entry hentry => h.asked hentry,?_,?_,?_,htold,?_,?_⟩
  · intro hread entry hentry c payload hc hcmd hpayload hdepth
    obtain ⟨d,body,command,hd,hbody,hdecode,-,hoperation⟩ := h.asked hentry
    obtain rfl := Option.some.inj (hc.symm.trans hd)
    rw [decodeCommand_encodeRustCommand hread hcmd hpayload hdepth hbody] at hdecode
    obtain ⟨operation,hsaid,rfl⟩ := Option.map_eq_some_iff.mp hdecode
    exact hsaid.trans (congrArg some hoperation)
  · intro id c report data hc hreport hdata
    obtain ⟨rfl,hok⟩ := hended id c report hc hreport
    obtain ⟨-,a,w,v,hw,hid,hv,hlegacy⟩ := hok.succeeded data hdata
    obtain ⟨before,after,hhistory,hresult⟩ := h.succeeded hw hv
    exact ⟨before,w.command.operation,after,v,hid ▸ hhistory,hresult,hlegacy⟩
  · intro id c report hc hreport hrefused
    obtain ⟨rfl,hok⟩ := hended id c report hc hreport
    exact h.not_executed (hok.refused hrefused)
  · intro id c report hc hreport hfailed entry hentry hid
    obtain ⟨rfl,hok⟩ := hended id c report hc hreport
    by_cases hexecuted : c.id ∈ s.executed
    · -- Only a result can be told of what was executed.
      cases report with
      | returned r =>
        cases r with
        | none => cases hfailed
        | some told =>
          obtain ⟨-,-,e,-,-,⟨-,-,-,hnot⟩ | ⟨-,-,hcame⟩⟩ :=
            htold c.id c told hc hreport (by simpa [Report.failed] using hfailed)
          · exact absurd hexecuted hnot
          · exact hcame.atomic hentry hid
      | valueError => exact absurd hexecuted (h.not_executed (hok.refused rfl))
      | transportError message => exact absurd hexecuted (h.not_executed (hok.refused rfl))
      | outcomeUnknown message => cases hfailed
      | attributeError => cases hfailed
    · exact absurd (h.logged.subset (List.mem_map.mpr ⟨entry,hentry,hid⟩)) hexecuted
  · intro id c report hc hreport hadmitted hshutdown
    obtain ⟨rfl,hok⟩ := hended id c report hc hreport
    obtain ⟨-,a,w,hw,hcall,hok⟩ := hok.admitted hadmitted
    have hcount := h.admission.exact.executed hshutdown a hok
    refine ⟨a,w,hw,hcall,(h.work a w hw).executed.mpr ?_⟩
    exact List.count_pos_iff.mp (by omega)

/-- In every run, and at every point of it for what was reported before. -/
theorem truthful_run (cfg : Setup F DB) (db₀ : DB) (ls : List (Label F)) :
    Truthful cfg db₀ (run (step cfg) (start db₀) ls) ∧ ∀ before, before <+: ls →
      Keeps (run (step cfg) (start db₀) before) (run (step cfg) (start db₀) ls) ∧
      StaysOut (run (step cfg) (start db₀) before) (run (step cfg) (start db₀) ls) := by
  refine ⟨(inv_run cfg db₀ ls).truthful,?_⟩
  rintro before ⟨after,rfl⟩
  rw [run_append]
  exact ⟨keeps_run after,staysOut_run (inv_run cfg db₀ before) after⟩

end Truthful

namespace OneCall

def setup : Setup Empty ℕ where
  py := ⟨fun _ => "",(fun x => nomatch x),(fun x => nomatch x)⟩
  repr := fun x => nomatch x
  read := fun _ => some (.object (common "c1" true ++ [("operation",.text "action"),
    ("action",.text "add_feed"),("params",.object [])]),[])
  authKey := [1]
  writerKey := [1]
  registryComplete := true
  limits := ⟨8,1000⟩
  handlers := ⟨fun _ _ db => (.ok null,db + 1),fun _ _ _ db => (.ok null,db),
    fun _ _ db => (.ok null,db),fun _ db => (.ok null,db)⟩

def cmd : WriteCommand Empty := ⟨"c1",.action,none,[("action",.text "add_feed")],[]⟩

/-- An action is committed and its client is told so. -/
example : let s := run (step setup) (start 0) [.submitRust cmd true 30,.encode 1,.connect 1 none,
      .send 1,.arrive 1,.readBody 1 .complete,.advance (.loadAccepting 1),.advance (.tryUpdate 1),
      .advance (.reserveBytes 1),.advance (.trySend 1),.admitted 1,.advance .recv,.executeWork ⟨true,true⟩,
      .finish 1,.receive 1]
    s.db = 1 ∧ s.history.map Prod.fst = [1] ∧
      (((s.calls.get 1).bind Call.report).bind Report.succeeded).isSome := by
  decide +kernel

end OneCall

end Podly.Rpc
