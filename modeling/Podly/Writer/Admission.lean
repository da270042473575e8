import Podly.Store.Run
import Podly.Store.Totals

/-! The admission of commands to the writer: `submit`, the loop of the worker, `stop_admission` and
`shutdown` of the executor, one access of a shared counter, flag, lock or channel a step. A panic,
which would poison the locks, is left out. -/
namespace Podly.Writer.Admission
open Store

inductive AdmissionError
  | notReady
  | capacityExhausted
  | payloadTooLarge
deriving DecidableEq

/-- Where a call of `submit`, and after it its command, stands. -/
inductive Phase
  | called
  | accepted
  | entryTaken
  | reserved
  | refused (e : AdmissionError)
  | rejected (e : AdmissionError)
  | queued
  | running
  | executed
  | done
deriving DecidableEq

/-- The phases with a `CapacityReservation` that is not dropped. -/
def Phase.live : Phase → Bool
  | .reserved | .refused _ | .queued | .running | .executed => true
  | _ => false

/-- The phase inside `reserve`, with an entry and no bytes. -/
def Phase.attempting : Phase → Bool
  | .entryTaken => true
  | _ => false

/-- The phases after `submit` returned an `Admission`. -/
def Phase.admitted : Phase → Bool
  | .queued | .running | .executed | .done => true
  | _ => false

/-- What `submit` has returned, if it has: an `Admission` or its error. -/
def Phase.result : Phase → Option (Except AdmissionError Unit)
  | .rejected e => some (.error e)
  | .queued | .running | .executed | .done => some (.ok ())
  | _ => none

/-- The phases in which `submit` has taken its entry and has not returned. -/
def Phase.reserving : Phase → Bool
  | .entryTaken | .reserved | .refused _ => true
  | _ => false

/-- A call of `submit` with the size of its command. -/
structure Submission where
  id : ℕ
  serializedBytes : ℕ
  phase : Phase

namespace Submission

def goTo (p : Phase) (c : Submission) : Submission := { c with phase := p }

theorem goTo_id (p : Phase) (c : Submission) : (c.goTo p).id = c.id := rfl

def live (c : Submission) : Bool := c.phase.live

def attempting (c : Submission) : Bool := c.phase.attempting

/-- The entries it holds. -/
def entries (c : Submission) : ℕ := c.live.toNat + c.attempting.toNat

/-- The bytes it holds. -/
def bytes (c : Submission) : ℕ := if c.live then c.serializedBytes else 0

end Submission

/-- The loop of the worker: receiving, with a command before and after its execution, and after the
channel was found closed. -/
inductive Worker
  | receiving
  | executing (id : ℕ)
  | dropping (id : ℕ)
  | leaving
  | ended
deriving DecidableEq

/-- The worker has a command in its hands. -/
def Worker.busy : Worker → Bool
  | .executing _ | .dropping _ => true
  | _ => false

/-- Where a call of `shutdown` stands. -/
inductive ShutdownPhase
  | called
  | stopped
  | senderTaken
  | joining
  | returned
deriving DecidableEq

structure Shutdown where
  id : ℕ
  phase : ShutdownPhase

namespace Shutdown

def goTo (p : ShutdownPhase) (d : Shutdown) : Shutdown := { d with phase := p }

theorem goTo_id (p : ShutdownPhase) (d : Shutdown) : (d.goTo p).id = d.id := rfl

end Shutdown

/-- `maximum_entries`, which is also the length of the channel, and the maximum of the budget. -/
structure Limits where
  maximumEntries : ℕ
  maximumBytes : ℕ

/-- `sender` and `thread` say whether there still is one to take, `threadLocked` whether a shutdown
holds the lock of `thread`. -/
structure State where
  accepting : Bool
  sender : Bool
  entriesUsed : ℕ
  bytesUsed : ℕ
  calls : Table Submission.id
  queue : List ℕ
  worker : Worker
  executions : List ℕ
  thread : Bool
  threadLocked : Bool
  shutdowns : Table Shutdown.id

/-- `WriterExecutor::start`. -/
def start : State := ⟨true,true,0,0,.empty,[],.receiving,[],true,false,.empty⟩

namespace State

def phase (s : State) (id : ℕ) : Option Phase := (s.calls.get id).map Submission.phase

/-- What a call of `submit` has returned. -/
def result (s : State) (id : ℕ) : Option (Except AdmissionError Unit) :=
  (s.phase id).bind Phase.result

def move (s : State) (id : ℕ) (p : Phase) : State :=
  { s with calls := s.calls.modify id (Submission.goTo p) (Submission.goTo_id p) }

def shutdownPhase (s : State) (id : ℕ) : Option ShutdownPhase :=
  (s.shutdowns.get id).map Shutdown.phase

def moveShutdown (s : State) (id : ℕ) (p : ShutdownPhase) : State :=
  { s with shutdowns := s.shutdowns.modify id (Shutdown.goTo p) (Shutdown.goTo_id p) }

end State

def usizeMax : ℕ := 2 ^ 64 - 1

/-- `fetch_sub(1)`, which wraps around. -/
def fetchSub (n : ℕ) : ℕ := if n = 0 then usizeMax else n - 1

def checkedAdd (m n : ℕ) : Option ℕ := if m + n ≤ usizeMax then some (m + n) else none

/-! `submit` and `reserve` -/

/-- The test of `accepting`. -/
def loadAccepting (s : State) (id : ℕ) : State :=
  if s.phase id = some .called then
    s.move id (if s.accepting then .accepted else .rejected .notReady)
  else s

/-- `entries_used.try_update`. -/
def tryUpdate (limits : Limits) (s : State) (id : ℕ) : State :=
  if s.phase id = some .accepted then
    if s.entriesUsed < limits.maximumEntries then
      { s.move id .entryTaken with entriesUsed := s.entriesUsed + 1 }
    else s.move id (.rejected .capacityExhausted)
  else s

/-- The rest of `reserve`, which holds the lock of the budget from its addition on. -/
def reserveBytes (limits : Limits) (s : State) (id : ℕ) : State :=
  match s.calls.get id with
  | some ⟨_,bytes,.entryTaken⟩ =>
    if limits.maximumBytes < bytes then
      { s.move id (.rejected .payloadTooLarge) with entriesUsed := fetchSub s.entriesUsed }
    else
      match checkedAdd s.bytesUsed bytes with
      | none =>
        { s.move id (.rejected .capacityExhausted) with entriesUsed := fetchSub s.entriesUsed }
      | some next =>
        if limits.maximumBytes < next then
          { s.move id (.rejected .capacityExhausted) with entriesUsed := fetchSub s.entriesUsed }
        else { s.move id .reserved with bytesUsed := next }
  | _ => s

/-- `try_send` under the lock of `sender`. The receiver is gone when the thread has ended. -/
def trySend (limits : Limits) (s : State) (id : ℕ) : State :=
  if s.phase id = some .reserved then
    if s.sender = false ∨ s.worker = .ended then s.move id (.refused .notReady)
    else if s.queue.length < limits.maximumEntries then
      { s.move id .queued with queue := s.queue ++ [id] }
    else s.move id (.refused .capacityExhausted)
  else s

/-- `drop` of a `CapacityReservation`: the lock of the budget is held over both of its halves. -/
def dropReservation (s : State) (id bytes : ℕ) (p : Phase) : State :=
  { s.move id p with
    bytesUsed := s.bytesUsed - bytes
    entriesUsed := fetchSub s.entriesUsed }

/-- The refused command is dropped, after the lock of `sender`, and `submit` returns its error. -/
def dropRefused (s : State) (id : ℕ) : State :=
  match s.calls.get id with
  | some ⟨_,bytes,.refused e⟩ => dropReservation s id bytes (.rejected e)
  | _ => s

/-! The loop of the worker -/

/-- `receiver.recv()`, or a `recv_timeout` that does not time out. -/
def recv (s : State) : State :=
  match s.worker,s.queue with
  | .receiving,id::queue => { s.move id .running with queue := queue, worker := .executing id }
  | .receiving,[] => if s.sender then s else { s with worker := .leaving }
  | _,_ => s

/-- `execute_one`, whatever its result. -/
def executeOne (s : State) : State :=
  match s.worker with
  | .executing id =>
    { s.move id .executed with executions := s.executions ++ [id], worker := .dropping id }
  | _ => s

/-- `drop(work)`. -/
def dropWork (s : State) : State :=
  match s.worker with
  | .dropping id =>
    match s.calls.get id with
    | some call => { dropReservation s id call.serializedBytes .done with worker := .receiving }
    | none => s
  | _ => s

/-- `thread_accepting.store(false)` at the end of the thread. -/
def endThread (s : State) : State :=
  match s.worker with
  | .leaving => { s with accepting := false, worker := .ended }
  | _ => s

/-! `stop_admission` and `shutdown` -/

def stopAdmission (s : State) : State := { s with accepting := false }

/-- `shutdown` stops admission first. -/
def stop (s : State) (id : ℕ) : State :=
  if s.shutdownPhase id = some .called then (stopAdmission s).moveShutdown id .stopped else s

def takeSender (s : State) (id : ℕ) : State :=
  if s.shutdownPhase id = some .stopped then
    { s.moveShutdown id .senderTaken with sender := false }
  else s

/-- The lock of `thread` is kept while its handle is joined, and let go when there is none. -/
def takeThread (s : State) (id : ℕ) : State :=
  if s.shutdownPhase id = some .senderTaken ∧ s.threadLocked = false then
    if s.thread then
      { s.moveShutdown id .joining with thread := false, threadLocked := true }
    else s.moveShutdown id .returned
  else s

def join (s : State) (id : ℕ) : State :=
  if s.shutdownPhase id = some .joining ∧ s.worker = .ended then
    { s.moveShutdown id .returned with threadLocked := false }
  else s

/-- A step of a call of `submit` or of `shutdown`, or of the worker. -/
inductive Label
  | submit (serializedBytes : ℕ)
  | loadAccepting (id : ℕ)
  | tryUpdate (id : ℕ)
  | reserveBytes (id : ℕ)
  | trySend (id : ℕ)
  | dropRefused (id : ℕ)
  | recv
  | executeOne
  | dropWork
  | endThread
  | stopAdmission
  | shutdown
  | stop (id : ℕ)
  | takeSender (id : ℕ)
  | takeThread (id : ℕ)
  | join (id : ℕ)

def submission (serializedBytes id : ℕ) : Submission := ⟨id,serializedBytes,.called⟩

theorem submission_id (serializedBytes id : ℕ) : (submission serializedBytes id).id = id := rfl

def newShutdown (id : ℕ) : Shutdown := ⟨id,.called⟩

theorem newShutdown_id (id : ℕ) : (newShutdown id).id = id := rfl

def step (limits : Limits) (s : State) : Label → State
  | .submit serializedBytes =>
    { s with calls := s.calls.append (submission serializedBytes) (submission_id serializedBytes) }
  | .loadAccepting id => Admission.loadAccepting s id
  | .tryUpdate id => Admission.tryUpdate limits s id
  | .reserveBytes id => Admission.reserveBytes limits s id
  | .trySend id => Admission.trySend limits s id
  | .dropRefused id => Admission.dropRefused s id
  | .recv => Admission.recv s
  | .executeOne => Admission.executeOne s
  | .dropWork => Admission.dropWork s
  | .endThread => Admission.endThread s
  | .stopAdmission => Admission.stopAdmission s
  | .shutdown => { s with shutdowns := s.shutdowns.append newShutdown newShutdown_id }
  | .stop id => Admission.stop s id
  | .takeSender id => Admission.takeSender s id
  | .takeThread id => Admission.takeThread s id
  | .join id => Admission.join s id

end Podly.Writer.Admission
