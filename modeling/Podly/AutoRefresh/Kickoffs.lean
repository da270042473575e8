import Mathlib.Algebra.Order.Field.Rat
import Mathlib.Data.Finset.Card
import Podly.Store.Run

/-! The refreshes that reads of the feeds start in one process, in any interleaving. What is done
under the lock is one step, and so is each look at the clock and each start of a thread. -/
namespace Podly.AutoRefresh
open Store

def maxAutoRefreshConcurrency : ℕ := 2

def autoRefreshCooldownSeconds : ℚ := 60

/-- How far a read has come: it has looked at the clock, got a slot, marked its feed. Then its thread
runs to its end, or is not started and the mark is to be taken back. -/
inductive Phase
  | asking
  | admitted
  | marked
  | unstarted
  | running
  | refreshed
  | ended
deriving DecidableEq

structure Read where
  feedId : ℕ
  now : ℚ
  phase : Phase
deriving DecidableEq

/-- The clock, the two variables of the module, the reads, and for each feed our note of the slot that
was given back last. -/
structure State where
  clock : ℚ
  lastKickoff : ℕ → Option ℚ
  inFlight : Finset ℕ
  reads : ℕ → Option Read
  givenBack : ℕ → Option ℚ

inductive Label
  | tick (now : ℚ)
  | read (i feedId : ℕ)
  | check (i : ℕ)
  | spawn (i : ℕ)
  | start (i : ℕ) (starts : Bool)
  | unmark (i : ℕ)
  /-- The refresh returns or raises an error; the `finally` does not tell them apart. -/
  | finish (i : ℕ) (raises : Bool)

def start (clock : ℚ) : State := ⟨clock,fun _ => none,∅,fun _ => none,fun _ => none⟩

namespace State

def goTo (s : State) (i : ℕ) (r : Read) (phase : Phase) : State :=
  { s with reads := Function.update s.reads i (some { r with phase }) }

def reserve (s : State) (feedId : ℕ) (now : ℚ) : State :=
  { s with lastKickoff := Function.update s.lastKickoff feedId (some now) }

/-- `_BACKGROUND_REFRESH_LAST_KICKOFF.pop` -/
def giveBack (s : State) (feedId : ℕ) : State :=
  { s with
    lastKickoff := Function.update s.lastKickoff feedId none
    givenBack := Function.update s.givenBack feedId
      (s.lastKickoff feedId <|> s.givenBack feedId) }

def mark (s : State) (feedId : ℕ) : State := { s with inFlight := insert feedId s.inFlight }

def discard (s : State) (feedId : ℕ) : State := { s with inFlight := s.inFlight.erase feedId }

/-- As many refreshes are in flight as may be. -/
def Full (s : State) : Prop := maxAutoRefreshConcurrency ≤ s.inFlight.card

instance (s : State) : Decidable s.Full := inferInstanceAs (Decidable (_ ≤ _))

end State

/-- Whether `_should_kickoff_async_refresh` reserves the slot. -/
def ShouldKickoff (s : State) (feedId : ℕ) (now : ℚ) : Prop :=
  ¬(feedId ∈ s.inFlight ∨ s.Full) ∧
    ∀ last ∈ s.lastKickoff feedId, ¬now - last < autoRefreshCooldownSeconds

instance (s : State) (feedId : ℕ) (now : ℚ) : Decidable (ShouldKickoff s feedId now) :=
  inferInstanceAs (Decidable (_ ∧ ∀ last ∈ s.lastKickoff feedId, _))

/-- `_should_kickoff_async_refresh`, from the lock on. -/
def shouldKickoffAsyncRefresh (s : State) (i : ℕ) (r : Read) : State :=
  if ShouldKickoff s r.feedId r.now then (s.reserve r.feedId r.now).goTo i r .admitted
  else s.goTo i r .ended

/-- `_spawn_async_refresh`, up to the thread. -/
def spawnAsyncRefresh (s : State) (i : ℕ) (r : Read) : State :=
  if r.feedId ∈ s.inFlight then s.goTo i r .ended
  else if s.Full then (s.giveBack r.feedId).goTo i r .ended
  else (s.mark r.feedId).goTo i r .marked

/-- What a read in a phase does; in another phase nothing happens. -/
def act (s : State) (i : ℕ) (phase : Phase) (f : Read → State) : State :=
  match s.reads i with
  | none => s
  | some r => if r.phase = phase then f r else s

def step (s : State) : Label → State
  | .tick now => { s with clock := max s.clock now }
  | .read i feedId =>
    if s.reads i = none then
      { s with reads := Function.update s.reads i (some ⟨feedId,s.clock,.asking⟩) }
    else s
  | .check i => act s i .asking (shouldKickoffAsyncRefresh s i)
  | .spawn i => act s i .admitted (spawnAsyncRefresh s i)
  | .start i starts =>
    act s i .marked (fun r => s.goTo i r (if starts then .running else .unstarted))
  | .unmark i =>
    act s i .unstarted (fun r => ((s.discard r.feedId).giveBack r.feedId).goTo i r .ended)
  | .finish i _ => act s i .running (fun r => (s.discard r.feedId).goTo i r .refreshed)

/-- The read has its feed marked. -/
def Phase.Marks : Phase → Prop
  | .marked | .unstarted | .running => True
  | _ => False

/-- The refresh of the read has run, or runs. -/
def Phase.Ran : Phase → Prop
  | .running | .refreshed => True
  | _ => False

/-- The steps that are left to a read that has its feed marked. -/
def Phase.rest (i : ℕ) : Phase → List Label
  | .marked => [.start i true,.finish i false]
  | .unstarted => [.unmark i]
  | .running => [.finish i false]
  | _ => []

/-! What is promised -/

/-- The refreshes are bounded, and no feed stays marked: behind each mark is a read with a thread that
runs, or one that is about to start it or to take the mark back, and its own steps lead to that. -/
structure Bounded (s : State) : Prop where
  inFlight : s.inFlight.card ≤ maxAutoRefreshConcurrency
  atMost : ∀ T : Finset ℕ, (∀ i ∈ T, ∃ r, s.reads i = some r ∧ r.phase = .running) →
    T.card ≤ maxAutoRefreshConcurrency
  onePerFeed : ∀ i j r r', s.reads i = some r → s.reads j = some r' → r.phase = .running →
    r'.phase = .running → r.feedId = r'.feedId → i = j
  notStuck : ∀ feedId ∈ s.inFlight, ∃ i r, s.reads i = some r ∧ r.feedId = feedId ∧
    r.phase.Marks ∧ feedId ∉ (run step s (r.phase.rest i)).inFlight

/-- Two refreshes of a feed that ran were kicked off at least the cooldown apart. -/
def KickoffsApart (s : State) : Prop :=
  ∀ i j r r', s.reads i = some r → s.reads j = some r' → i ≠ j → r.phase.Ran → r'.phase.Ran →
    r.feedId = r'.feedId → autoRefreshCooldownSeconds ≤ |r.now - r'.now|

/-- A read that is admitted without a slot before it has not looked at the clock before the slot that
was given back, and a read gives back no slot but its own. -/
def Careful (s : State) : Label → Prop
  | .check i => ∀ r ∈ s.reads i, r.phase = .asking → ShouldKickoff s r.feedId r.now →
    s.lastKickoff r.feedId = none → ∀ slot ∈ s.givenBack r.feedId, slot ≤ r.now
  | .spawn i => ∀ r ∈ s.reads i, r.phase = .admitted → r.feedId ∉ s.inFlight → s.Full →
    ∀ slot ∈ s.lastKickoff r.feedId, slot = r.now
  | .unmark i => ∀ r ∈ s.reads i, r.phase = .unstarted →
    ∀ slot ∈ s.lastKickoff r.feedId, slot = r.now
  | _ => True

instance (s : State) (l : Label) : Decidable (Careful s l) :=
  match l with
  | .check _ | .spawn _ | .unmark _ => inferInstanceAs (Decidable (∀ _ ∈ _, _))
  | .tick _ | .read _ _ | .start _ _ | .finish _ _ => inferInstanceAs (Decidable True)

end Podly.AutoRefresh
