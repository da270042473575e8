import Podly.AutoRetry.Process
import Podly.Store.Run

/-! The calls of the processor in one process and the locks of the episodes, with every step that
reads or changes a lock a step of its own. -/
namespace Podly.EpisodeLocks
open Store
open AutoRetry (Failure)

inductive Outcome
  | returned
  | raised (failure : Failure)

/-- What a call does next. -/
inductive Phase
  /-- The job is looked up, outside of every handler. -/
  | entering
  /-- Everything up to the paths that `_acquire_processing_lock` starts with. -/
  | preparing
  /-- `with PodcastProcessor.lock_lock` -/
  | waiting
  | testing
  | creating
  | taking
  | leaving (locked : Bool)
  /-- The lock was there before, and is tried outside of `lock_lock`. -/
  | trying
  | cancelling
  | makingDirs
  | processing
  /-- The `finally`: look the lock up, ask whether it is locked, release it. -/
  | looking (outcome : Outcome)
  | asking (outcome : Outcome)
  | releasing (outcome : Outcome)
  /-- The handlers of the errors, which update the status of the job. -/
  | reporting (failure : Failure)
  | ended (outcome : Outcome)

structure Call (Guid : Type*) where
  guid : Guid
  phase : Phase

/-- The holder of `lock_lock`, the table of the locks and the calls. A lock that is taken carries our
note of the call that took it; the calls only ask whether it is taken. -/
structure State (Guid : Type*) where
  lockLock : Option ℕ
  locks : Guid → Option (Option ℕ)
  calls : ℕ → Option (Call Guid)

/-- A new call for an episode, or what a call does next: it goes on, returns, or raises an error. -/
inductive Label (Guid : Type*)
  | call (i : ℕ) (guid : Guid)
  | goOn (i : ℕ)
  | giveBack (i : ℕ)
  | raise (i : ℕ) (failure : Failure)

/-- What follows the `finally`. -/
def Outcome.next : Outcome → Phase
  | .returned => .ended .returned
  | .raised failure => .reporting failure

variable {Guid : Type*}

def Label.caller : Label Guid → ℕ
  | .call i _ | .goOn i | .giveBack i | .raise i _ => i

def start : State Guid := ⟨none,fun _ => none,fun _ => none⟩

variable [DecidableEq Guid]

namespace State

def goTo (s : State Guid) (i : ℕ) (phase : Phase) : State Guid :=
  { s with calls := Function.update s.calls i ((s.calls i).map (fun call => { call with phase })) }

def setLock (s : State Guid) (guid : Guid) (lock : Option ℕ) : State Guid :=
  { s with locks := Function.update s.locks guid (some lock) }

end State

/-- The next statement of a call, where it raises no error. -/
def goOn (s : State Guid) (i : ℕ) (call : Call Guid) : State Guid :=
  match call.phase with
  | .entering => s.goTo i .preparing
  | .preparing => s.goTo i .waiting
  | .waiting =>
    if s.lockLock = none then { s.goTo i .testing with lockLock := some i } else s
  | .testing =>
    if s.locks call.guid = none then s.goTo i .creating else s.goTo i (.leaving false)
  | .creating => (s.setLock call.guid none).goTo i .taking
  | .taking =>
    -- `acquire(blocking=False)`, whose result is not looked at
    if s.locks call.guid = some none then (s.setLock call.guid (some i)).goTo i (.leaving true)
    else s.goTo i (.leaving true)
  | .leaving locked =>
    { s.goTo i (if locked then .cancelling else .trying) with lockLock := none }
  | .trying =>
    match s.locks call.guid with
    | none => s.goTo i (.reporting (.other "KeyError"))
    | some none => (s.setLock call.guid (some i)).goTo i .cancelling
    | some (some _) => s.goTo i (.reporting (.processor "Processing job in progress"))
  | .cancelling => s.goTo i .makingDirs
  | .makingDirs => s.goTo i .processing
  | .processing => s
  | .looking outcome =>
    if s.locks call.guid = none then s.goTo i outcome.next else s.goTo i (.asking outcome)
  | .asking outcome =>
    if (s.locks call.guid).any Option.isSome then s.goTo i (.releasing outcome)
    else s.goTo i outcome.next
  | .releasing outcome => (s.setLock call.guid none).goTo i outcome.next
  | .reporting failure => s.goTo i (.ended (.raised failure))
  | .ended _ => s

/-- A call returns early while it prepares, or at the end of the processing. -/
def giveBack (s : State Guid) (i : ℕ) (call : Call Guid) : State Guid :=
  match call.phase with
  | .preparing => s.goTo i (.ended .returned)
  | .processing => s.goTo i (.looking .returned)
  | _ => s

/-- A call raises an error in any of its steps but those at the locks. Only an error in the
processing meets the `finally`. -/
def raise (s : State Guid) (i : ℕ) (call : Call Guid) (failure : Failure) : State Guid :=
  match call.phase with
  | .entering => s.goTo i (.ended (.raised failure))
  | .preparing | .cancelling | .makingDirs => s.goTo i (.reporting failure)
  | .processing => s.goTo i (.looking (.raised failure))
  | .reporting _ => s.goTo i (.ended (.raised failure))
  | _ => s

def step (s : State Guid) : Label Guid → State Guid
  | .call i guid =>
    if (s.calls i).isSome then s
    else { s with calls := Function.update s.calls i (some ⟨guid,.entering⟩) }
  | .goOn i => (s.calls i).elim s (goOn s i)
  | .giveBack i => (s.calls i).elim s (giveBack s i)
  | .raise i failure => (s.calls i).elim s (fun call => raise s i call failure)

/-- The call has its episode's lock: from the step that takes it to the one that releases it. -/
def Phase.Holds : Phase → Prop
  | .leaving true | .cancelling | .makingDirs | .processing
  | .looking _ | .asking _ | .releasing _ => True
  | _ => False

/-- The older jobs are cancelled and the directories made. -/
def Phase.SetsUp : Phase → Prop
  | .cancelling | .makingDirs => True
  | _ => False

def Phase.IsEnded : Phase → Prop
  | .ended _ => True
  | _ => False

/-! What the locks are for -/

/-- One call at most is in the processing section of an episode. -/
def AtMostOne (s : State Guid) : Prop :=
  ∀ i j call call', s.calls i = some call → s.calls j = some call' → call.phase.Holds →
    call'.phase.Holds → call.guid = call'.guid → i = j

/-- A lock that a call took is not left taken by it at its end. -/
def LeftFree (s : State Guid) : Prop :=
  ∀ i call, s.calls i = some call → call.phase.IsEnded → ∀ guid, s.locks guid ≠ some (some i)

/-- A lock that is taken stays taken, unless its taker makes the step. -/
def ReleasedByTaker (s : State Guid) (l : Label Guid) : Prop :=
  ∀ guid i, s.locks guid = some (some i) → (step s l).locks guid ≠ some (some i) → l.caller = i

/-- Over a run, the lock of an episode is released exactly by its holder. -/
def ReleasedExactly (ls : List (Label Guid)) : Prop :=
  (∀ before, before <+: ls → AtMostOne (run step start before) ∧ LeftFree (run step start before)) ∧
    AllSteps step ReleasedByTaker start ls

/-- No call fails between the step that takes its lock and the `try` that releases it. -/
def SetUpGoesThrough (s : State Guid) : Label Guid → Prop
  | .raise i _ => ∀ call, s.calls i = some call → ¬call.phase.SetsUp
  | _ => True

end Podly.EpisodeLocks
