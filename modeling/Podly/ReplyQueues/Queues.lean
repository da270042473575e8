import Podly.Store.Run
import Podly.Store.Table

/-! The Python writer behind its queues: each thread of a client has one queue for the replies to all of
its commands, and the writer takes the commands of all threads from one queue. A client can stop
waiting, or lose its manager, at any time. -/
namespace Podly.ReplyQueues
open Store

variable {Op R DB : Type}

/-- How `uuid4` names the commands, no two of them alike. -/
structure Uuids where
  text : ℕ → String
  injective : Function.Injective text

/-- `WriteResult`, with what it says apart from the id. -/
structure WriteResult (R : Type) where
  commandId : String
  result : R
deriving DecidableEq

/-- Where a call of `submit` stands, and how it ends. -/
inductive Phase (R : Type)
  | draining
  | putting
  | waiting
  | returned (result : Option (WriteResult R))
  | timedOut
  | failed

/-- The phases of a call that has not ended. -/
def Phase.live : Phase R → Bool
  | .draining | .putting | .waiting => true
  | _ => false

structure Submission (Op R : Type) where
  id : ℕ
  thread : ℕ
  commandId : String
  op : Op
  wait : Bool
  phase : Phase R

namespace Submission

def goTo (p : Phase R) (c : Submission Op R) : Submission Op R := { c with phase := p }

theorem goTo_id (p : Phase R) (c : Submission Op R) : (c.goTo p).id = c.id := rfl

end Submission

/-- The loop of the writer: without a command, with one, and with its result. -/
inductive Writer (R : Type)
  | idle
  | holding (id : ℕ)
  | replying (id : ℕ) (result : R)

/-- A command with its result. -/
structure Execution (Op R : Type) where
  id : ℕ
  op : Op
  result : R

/-- `puts`, `executed`, `replied` and `dropped` note the commands that were put and the executions in
their order, the commands whose replies were put, and the replies that were thrown away. -/
structure State (Op R DB : Type) where
  calls : Table (Submission.id : Submission Op R → ℕ)
  current : ℕ → Option ℕ
  commands : List ℕ
  writer : Writer R
  db : DB
  replies : ℕ → List (WriteResult R)
  puts : List ℕ
  executed : List (Execution Op R)
  replied : List ℕ
  dropped : List (WriteResult R)

def start (db : DB) : State Op R DB :=
  ⟨.empty,fun _ => none,[],.idle,db,fun _ => [],[],[],[],[]⟩

namespace State

def move (s : State Op R DB) (id : ℕ) (p : Phase R) : State Op R DB :=
  { s with calls := s.calls.modify id (Submission.goTo p) (Submission.goTo_id p) }

/-- The call ends, and its thread can make another. -/
def endCall (s : State Op R DB) (c : Submission Op R) (p : Phase R) : State Op R DB :=
  { s.move c.id p with current := Function.update s.current c.thread none }

end State

def newCall (uuids : Uuids) (thread : ℕ) (op : Op) (wait : Bool) (id : ℕ) : Submission Op R :=
  ⟨id,thread,uuids.text id,op,wait,if wait then .draining else .putting⟩

theorem newCall_id (uuids : Uuids) (thread : ℕ) (op : Op) (wait : Bool) (id : ℕ) :
    (newCall uuids thread op wait id : Submission Op R).id = id := rfl

/-- `submit`, by a thread that is in no other. -/
def submit (uuids : Uuids) (s : State Op R DB) (thread : ℕ) (op : Op) (wait : Bool) : State Op R DB :=
  match s.current thread with
  | none => { s with
      calls := s.calls.append (newCall uuids thread op wait) (newCall_id uuids thread op wait)
      current := Function.update s.current thread (some s.calls.nextKey) }
  | some _ => s

/-- One round of `_drain_queue`. -/
def drain (s : State Op R DB) (c : Submission Op R) : State Op R DB :=
  match c.phase with
  | .draining =>
    match s.replies c.thread with
    | [] => s.move c.id .putting
    | reply::rest => { s with
        replies := Function.update s.replies c.thread rest, dropped := s.dropped ++ [reply] }
  | _ => s

/-- `self.queue.put(cmd)`, and the end of a call that does not wait. -/
def put (s : State Op R DB) (c : Submission Op R) : State Op R DB :=
  match c.phase with
  | .putting =>
    if c.wait then
      { s.move c.id .waiting with commands := s.commands ++ [c.id], puts := s.puts ++ [c.id] }
    else { s.endCall c (.returned none) with
      commands := s.commands ++ [c.id], puts := s.puts ++ [c.id] }
  | _ => s

/-- One round of `_await_reply`. -/
def take (s : State Op R DB) (c : Submission Op R) : State Op R DB :=
  match c.phase with
  | .waiting =>
    match s.replies c.thread with
    | [] => s
    | reply::rest =>
      if reply.commandId = c.commandId then
        { s.endCall c (.returned (some reply)) with
          replies := Function.update s.replies c.thread rest }
      else { s with
        replies := Function.update s.replies c.thread rest, dropped := s.dropped ++ [reply] }
  | _ => s

/-- `TimeoutError` of `_await_reply`. -/
def timeOut (s : State Op R DB) (c : Submission Op R) : State Op R DB :=
  match c.phase with
  | .waiting => s.endCall c .timedOut
  | _ => s

/-- The manager is lost: the call raises an error, and a command that was just put may be there. -/
def fail (s : State Op R DB) (c : Submission Op R) (arrived : Bool) : State Op R DB :=
  match c.phase with
  | .putting =>
    if arrived then
      { s.endCall c .failed with commands := s.commands ++ [c.id], puts := s.puts ++ [c.id] }
    else s.endCall c .failed
  | .draining | .waiting => s.endCall c .failed
  | _ => s

/-- `queue.get()` of the writer. -/
def get (s : State Op R DB) : State Op R DB :=
  match s.writer, s.commands with
  | .idle, id::rest => { s with writer := .holding id, commands := rest }
  | _, _ => s

/-- `process_command` -/
def process (handle : Op → DB → R × DB) (s : State Op R DB) : State Op R DB :=
  match s.writer with
  | .holding id =>
    match s.calls.get id with
    | some c => { s with
        writer := .replying id (handle c.op s.db).1
        db := (handle c.op s.db).2
        executed := s.executed ++ [⟨id,c.op,(handle c.op s.db).1⟩] }
    | none => s
  | _ => s

/-- `cmd.reply_queue.put(result)`, where there is such a queue; the error of a lost one is logged. -/
def reply (s : State Op R DB) (lost : Bool) : State Op R DB :=
  match s.writer with
  | .replying id result =>
    match s.calls.get id with
    | some c =>
      if c.wait = true ∧ lost = false then { s with
        writer := .idle
        replies := Function.update s.replies c.thread
          (s.replies c.thread ++ [⟨c.commandId,result⟩])
        replied := s.replied ++ [id] }
      else { s with writer := .idle }
    | none => s
  | _ => s

inductive Label (Op : Type)
  | submit (thread : ℕ) (op : Op) (wait : Bool)
  | drain (id : ℕ)
  | put (id : ℕ)
  | take (id : ℕ)
  | timeOut (id : ℕ)
  | fail (id : ℕ) (arrived : Bool)
  | get
  | process
  | reply (lost : Bool)

/-- A step of a call that there is. -/
def onCall (s : State Op R DB) (id : ℕ) (f : Submission Op R → State Op R DB) : State Op R DB :=
  (s.calls.get id).elim s f

def step (uuids : Uuids) (handle : Op → DB → R × DB) (s : State Op R DB) :
    Label Op → State Op R DB
  | .submit thread op wait => ReplyQueues.submit uuids s thread op wait
  | .drain id => onCall s id (ReplyQueues.drain s)
  | .put id => onCall s id (ReplyQueues.put s)
  | .take id => onCall s id (ReplyQueues.take s)
  | .timeOut id => onCall s id (ReplyQueues.timeOut s)
  | .fail id arrived => onCall s id (ReplyQueues.fail s · arrived)
  | .get => ReplyQueues.get s
  | .process => ReplyQueues.process handle s
  | .reply lost => ReplyQueues.reply s lost

end Podly.ReplyQueues
