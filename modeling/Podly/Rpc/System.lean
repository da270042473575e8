import Podly.Rpc.Server
import Podly.Writer.AdmissionRuns

/-! Python clients and the Rust writer, with the connections between them: every call of `_submit_rust`
and its handler go on step by step, beside the queue and the worker of the writer. Deadlines and lost
connections come at any time. -/
namespace Podly.Rpc
open Protocol Store Writer

variable {F DB : Type}

/-- Where a call of `_submit_rust` stands; `sent` is from the first byte of its request on. -/
inductive Client (F : Type)
  | begun
  | encoded
  | connected
  | sent
  | ended (report : Report F)

/-- Where the handler of its request stands; `submitting` and `awaiting` know the call of `submit`. -/
inductive Handler (F : Type)
  | absent
  | offered
  | reading
  | submitting (submission : ℕ)
  | awaiting (submission : ℕ)
  | answered (reply : Reply F)
  | dropped

/-- A handler that reads no body any more. -/
def Handler.past : Handler F → Bool
  | .absent | .offered | .reading => false
  | _ => true

structure Call (F : Type) where
  id : ℕ
  cmd : WriteCommand F
  wait : Bool
  timeout : ℤ
  body : List UInt8
  client : Client F
  handler : Handler F

namespace Call

def withClient (client : Client F) (c : Call F) : Call F := { c with client := client }

theorem withClient_id (client : Client F) (c : Call F) : (c.withClient client).id = c.id := rfl

def withHandler (handler : Handler F) (c : Call F) : Call F := { c with handler := handler }

theorem withHandler_id (handler : Handler F) (c : Call F) : (c.withHandler handler).id = c.id := rfl

def report (c : Call F) : Option (Report F) :=
  match c.client with
  | .ended report => some report
  | _ => none

end Call

/-- A work item, with the call that it came from and what became of it. -/
structure Work (F : Type) where
  call : ℕ
  command : Command F
  outcome : Option (Except RpcError (Value F))

/-- What an execution adds to the history. -/
def Work.left (w : Work F) : Except RpcError (Value F) → List (ℕ × Operation F)
  | .ok _ => [(w.call,w.command.operation)]
  | .error _ => if Operation.nonAtomic w.command.operation then [(w.call,w.command.operation)] else []

/-- The two programs and how they are set up. -/
structure Setup (F DB : Type) where
  py : Python F
  repr : F → List Char
  read : List UInt8 → Option (Value F × List UInt8)
  authKey : List UInt8
  writerKey : List UInt8
  registryComplete : Bool
  limits : Admission.Limits
  handlers : Handlers F DB

/-- `history` lists the executions that left something behind or succeeded, each with its call. -/
structure State (F DB : Type) where
  calls : Table (Call.id (F := F))
  alive : Bool
  draining : Bool
  admission : Admission.State
  work : ℕ → Option (Work F)
  db : DB
  history : List (ℕ × Operation F)

def start (db : DB) : State F DB := ⟨.empty,true,false,Admission.start,fun _ => none,db,[]⟩

namespace State

/-- The calls whose commands were executed, in the order of the executions, failed ones too. -/
def executed (s : State F DB) : List ℕ :=
  s.admission.executions.filterMap (fun a => (s.work a).map Work.call)

def modify (s : State F DB) (id : ℕ) (f : Call F → Call F) (hf : ∀ c, (f c).id = c.id) : State F DB :=
  { s with calls := s.calls.modify id f hf }

def toClient (s : State F DB) (id : ℕ) (client : Client F) : State F DB :=
  s.modify id (Call.withClient client) (Call.withClient_id client)

def toHandler (s : State F DB) (id : ℕ) (handler : Handler F) : State F DB :=
  s.modify id (Call.withHandler handler) (Call.withHandler_id handler)

end State

section Client
variable (cfg : Setup F DB)

/-- The body of a call. -/
def Setup.encode (cmd : WriteCommand F) (wait : Bool) : Option (List UInt8) :=
  encodeRustCommand cfg.repr cfg.py.str cmd wait

/-- What `_submit_rust` does before it opens a connection. -/
def encode (s : State F DB) (c : Call F) : State F DB :=
  match c.client with
  | .begun =>
    if c.timeout ≤ 0 then s.toClient c.id (.ended .valueError)
    else match rustCommandPayload cfg.py.str c.cmd c.wait, cfg.encode c.cmd c.wait with
      | none, _ => s.toClient c.id (.ended .valueError)
      | _, none => s.toClient c.id
        (.ended (.transportError "Rust writer command exceeds the request size limit"))
      | _, some body =>
        if cfg.authKey = [] then s.toClient c.id
          (.ended (.transportError "PODLY_IPC_AUTHKEY is required for Rust writer mode"))
        else s.modify c.id (fun c => { c with body := body, client := .encoded }) (fun _ => rfl)
  | _ => s

/-- Why there is no connection. -/
inductive ConnectFailure
  | exhausted
  | failed
  | expired

/-- An expired deadline raises a connection error as well, so it is told as a failed connection. -/
def ConnectFailure.message : ConnectFailure → String
  | .exhausted => "Rust writer connection capacity is exhausted"
  | .failed | .expired => "Rust writer connection failed"

/-- `_open_rust_connection` -/
def connect (s : State F DB) (c : Call F) : Option ConnectFailure → State F DB
  | none =>
    match c.client with
    | .encoded => s.toClient c.id .connected
    | _ => s
  | some failure =>
    match c.client with
    | .encoded => s.toClient c.id (.ended (.transportError failure.message))
    | _ => s

/-- `connection.request`, from which on the writer can have the request. -/
def send (s : State F DB) (c : Call F) : State F DB :=
  match c.client with
  | .connected => s.modify c.id (fun c => { c with client := .sent, handler := .offered }) (fun _ => rfl)
  | _ => s

/-- Why there is no response after the request was sent, in whole or in part. -/
inductive Loss
  | ended
  | expired
  | tooLarge
  | invalidJson

def Loss.message : Loss → String
  | .ended => "connection ended after request send"
  | .expired => "request deadline expired after send"
  | .tooLarge => "writer response exceeded size limit"
  | .invalidJson => "writer returned invalid JSON"

def lose (s : State F DB) (c : Call F) (loss : Loss) : State F DB :=
  match c.client with
  | .sent => s.toClient c.id (.ended (.outcomeUnknown loss.message))
  | _ => s

/-- `_read_rust_response` and `_adapt_rust_response` -/
def receive (s : State F DB) (c : Call F) : State F DB :=
  match c.client, c.handler with
  | .sent, .answered reply => s.toClient c.id
    (.ended (adaptRustResponse cfg.py c.cmd c.wait reply.status reply.response.toJson))
  | _, _ => s

end Client

section Writer
variable (cfg : Setup F DB)

/-- The handler up to the body. -/
def arrive (s : State F DB) (c : Call F) : State F DB :=
  match c.handler with
  | .offered =>
    match authenticate (some (authorization cfg.authKey)) cfg.writerKey with
    | .error failure => s.toHandler c.id (.answered failure.reply)
    | .ok () =>
      if cfg.registryComplete = false ∨ s.draining then s.toHandler c.id (.answered
        (rejected 503 none "not_ready" "writer is not ready" true))
      else s.toHandler c.id .reading
  | _ => s

/-- How the body is read. -/
inductive BodyRead
  | complete
  | tooLarge
  | expired

/-- The handler from the body to the beginning of `submit`. -/
def readBody (s : State F DB) (c : Call F) : BodyRead → State F DB
  | .complete =>
    match c.handler with
    | .reading =>
      match checked cfg.read c.body with
      | .error reply => s.toHandler c.id (.answered reply)
      | .ok command =>
        { s.toHandler c.id (.submitting s.admission.calls.nextKey) with
          admission := Admission.step cfg.limits s.admission (.submit c.body.length)
          work := Function.update s.work s.admission.calls.nextKey (some ⟨c.id,command,none⟩) }
    | _ => s
  | .tooLarge =>
    match c.handler with
    | .reading => s.toHandler c.id (.answered
      (rejected 413 none "payload_too_large" "request body exceeds the configured limit" false))
    | _ => s
  | .expired =>
    match c.handler with
    | .reading => s.toHandler c.id (.answered
      (rejected 400 none "malformed" "request body deadline exceeded" true))
    | _ => s

/-- The steps of `submit`, of the worker but for its executions, and of a shutdown. -/
def advance (s : State F DB) (l : Admission.Label) : State F DB :=
  match l with
  | .submit _ | .executeOne => s
  | l => { s with admission := Admission.step cfg.limits s.admission l }

/-- The handler when `submit` has returned. -/
def admitted (s : State F DB) (c : Call F) : State F DB :=
  match c.handler with
  | .submitting submission =>
    match s.admission.result submission, s.work submission with
    | some (.error e), some work =>
      s.toHandler c.id (.answered (refusal work.command.commandId e))
    | some (.ok ()), some work =>
      if work.command.wait then s.toHandler c.id (.awaiting submission)
      else s.toHandler c.id (.answered ⟨202,.accepted work.command.commandId true⟩)
    | _, _ => s
  | _ => s

/-- The worker executes the command in its hands and sends the result. -/
def executeWork (s : State F DB) (faults : Faults) : State F DB :=
  match s.admission.worker with
  | .executing submission =>
    match s.work submission with
    | some work =>
      let (outcome,db) := executeOne cfg.handlers faults work.command.operation s.db
      { s with
        admission := Admission.step cfg.limits s.admission .executeOne
        work := Function.update s.work submission (some { work with outcome := some outcome })
        db := db
        history := s.history ++ work.left outcome }
    | none => s
  | _ => s

/-- The handler receives the result. -/
def finish (s : State F DB) (c : Call F) : State F DB :=
  match c.handler with
  | .awaiting submission =>
    match s.work submission with
    | some ⟨_,command,some outcome⟩ =>
      s.toHandler c.id (.answered (completion command.commandId outcome))
    | _ => s
  | _ => s

/-- The deadline of the handler, or the end of the worker before the result. -/
def expire (s : State F DB) (c : Call F) : State F DB :=
  match c.handler with
  | .awaiting submission =>
    match s.work submission with
    | some work => s.toHandler c.id (.answered (unknown work.command.commandId))
    | none => s
  | _ => s

/-- The handler is dropped with its connection, where it waits for something. -/
def dropHandler (s : State F DB) (c : Call F) : State F DB :=
  match c.handler with
  | .offered | .reading | .awaiting _ => s.toHandler c.id .dropped
  | _ => s

end Writer

inductive Label (F : Type)
  | submitRust (cmd : WriteCommand F) (wait : Bool) (timeout : ℤ)
  | encode (id : ℕ)
  | connect (id : ℕ) (failure : Option ConnectFailure)
  | send (id : ℕ)
  | lose (id : ℕ) (loss : Loss)
  | receive (id : ℕ)
  | arrive (id : ℕ)
  | readBody (id : ℕ) (body : BodyRead)
  | advance (l : Admission.Label)
  | admitted (id : ℕ)
  | executeWork (faults : Faults)
  | finish (id : ℕ)
  | expire (id : ℕ)
  | dropHandler (id : ℕ)
  | drain
  | exit

/-- A step of a call that there is. -/
def onCall (s : State F DB) (id : ℕ) (f : Call F → State F DB) : State F DB :=
  (s.calls.get id).elim s f

/-- A step of a writer that has not exited. -/
def whileAlive (s : State F DB) (t : State F DB) : State F DB := if s.alive then t else s

def newCall (cmd : WriteCommand F) (wait : Bool) (timeout : ℤ) (id : ℕ) : Call F :=
  ⟨id,cmd,wait,timeout,[],.begun,.absent⟩

theorem newCall_id (cmd : WriteCommand F) (wait : Bool) (timeout : ℤ) (id : ℕ) :
    (newCall cmd wait timeout id).id = id := rfl

def step (cfg : Setup F DB) (s : State F DB) : Label F → State F DB
  | .submitRust cmd wait timeout =>
    { s with calls := s.calls.append (newCall cmd wait timeout) (newCall_id cmd wait timeout) }
  | .encode id => onCall s id (Rpc.encode cfg s)
  | .connect id failure => onCall s id (Rpc.connect s · failure)
  | .send id => onCall s id (Rpc.send s)
  | .lose id loss => onCall s id (Rpc.lose s · loss)
  | .receive id => onCall s id (Rpc.receive cfg s)
  | .arrive id => whileAlive s (onCall s id (Rpc.arrive cfg s))
  | .readBody id body => whileAlive s (onCall s id (Rpc.readBody cfg s · body))
  | .advance l => whileAlive s (Rpc.advance cfg s l)
  | .admitted id => whileAlive s (onCall s id (Rpc.admitted s))
  | .executeWork faults => whileAlive s (Rpc.executeWork cfg s faults)
  | .finish id => whileAlive s (onCall s id (Rpc.finish s))
  | .expire id => whileAlive s (onCall s id (Rpc.expire s))
  | .dropHandler id => whileAlive s (onCall s id (Rpc.dropHandler s))
  | .drain => { s with draining := true }
  | .exit => { s with alive := false }

end Podly.Rpc
