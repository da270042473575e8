import Mathlib.Algebra.Order.Ring.Int
import Podly.Store.Run
import Podly.Store.Table

/-! The limiter of failed logins, and the calls one key gets from a caller that asks before each
attempt. Times are in microseconds. -/
namespace Podly.RateLimits
open Store

abbrev seconds (n : ℤ) : ℤ := n * 1000000

structure FailureState (κ : Type*) where
  key : κ
  attempts : ℕ
  blockedUntil : Option ℤ
  lastAttempt : ℤ
deriving DecidableEq

/-- The tracker. Its storage is in the order of the first failures. -/
structure FailureRateLimiter (κ : Type*) where
  storage : Table (FailureState.key (κ := κ))
  maxBackoffSeconds : ℕ
  warmUpAttempts : ℕ
  maxEntries : ℕ
  lastPrune : Option ℤ

namespace FailureRateLimiter
variable {κ : Type*} [DecidableEq κ]

/-- Stale keys go at most once a minute; beyond `max_entries` the oldest keys go. -/
def prune (limiter : FailureRateLimiter κ) (now : ℤ) : FailureRateLimiter κ :=
  let swept : FailureRateLimiter κ :=
    if ∀ last ∈ limiter.lastPrune, seconds 60 < now - last then
      { limiter with
        lastPrune := some now
        storage := limiter.storage.deleteWhere
          (fun state => decide (seconds 3600 < now - state.lastAttempt)) }
    else limiter
  { swept with
    storage := swept.storage.dropOldest (swept.storage.rows.length - swept.maxEntries) }

/-- The back-off that a number of attempts brings. -/
def backoffSeconds (limiter : FailureRateLimiter κ) (attempts : ℕ) : ℕ :=
  if attempts > limiter.warmUpAttempts then
    min (2 ^ (attempts - limiter.warmUpAttempts)) limiter.maxBackoffSeconds
  else 0

def registerFailure (limiter : FailureRateLimiter κ) (key : κ) (now : ℤ) :
    FailureRateLimiter κ × ℕ :=
  let attempts :=
    match limiter.storage.get key with
    | none => 1
    | some state => state.attempts + 1
  let backoff := limiter.backoffSeconds attempts
  let blockedUntil :=
    if attempts > limiter.warmUpAttempts then some (now + seconds backoff) else none
  ({ limiter with storage := limiter.storage.put ⟨key,attempts,blockedUntil,now⟩ }.prune now,
    backoff)

def forget (limiter : FailureRateLimiter κ) (key : κ) : FailureRateLimiter κ :=
  { limiter with storage := limiter.storage.deleteWhere (fun state => decide (state.key = key)) }

def registerSuccess (limiter : FailureRateLimiter κ) (key : κ) : FailureRateLimiter κ :=
  limiter.forget key

/-- The whole seconds left of a back-off. A back-off that is over is deleted, and so is one with
less than a second left. -/
def retryAfter (limiter : FailureRateLimiter κ) (key : κ) (now : ℤ) :
    FailureRateLimiter κ × Option ℤ :=
  match (limiter.storage.get key).bind FailureState.blockedUntil with
  | none => (limiter,none)
  | some blockedUntil =>
    if blockedUntil ≤ now then (limiter.forget key,none)
    else
      let remaining := (blockedUntil - now) / 1000000
      if remaining ≤ 0 then (limiter.forget key,none) else (limiter,some remaining)

end FailureRateLimiter

/-- The calls the limiter gets, each with the clock reading it makes. -/
inductive FailureEvent (κ : Type*)
  | ask (key : κ) (now : ℤ)
  | failure (key : κ) (now : ℤ)
  | success (key : κ) (now : ℤ)

def FailureEvent.now {κ : Type*} : FailureEvent κ → ℤ
  | .ask _ now | .failure _ now | .success _ now => now

/-- The limiter, and what has happened to one key: the failures so far, the time and back-off of the
last one, and whether an ask has been let through since. -/
structure Watched (κ : Type*) where
  limiter : FailureRateLimiter κ
  clock : ℤ
  failures : ℕ
  lastFailure : Option (ℤ × ℕ)
  admitted : Bool

namespace Watched
variable {κ : Type*} [DecidableEq κ]

def start (limiter : FailureRateLimiter κ) (clock : ℤ) : Watched κ := ⟨limiter,clock,0,none,false⟩

def step (key : κ) (watched : Watched κ) : FailureEvent κ → Watched κ
  | .ask asked now =>
    let (limiter,answer) := watched.limiter.retryAfter asked now
    { watched with
      limiter
      clock := now
      admitted := if asked = key ∧ answer = none then true else watched.admitted }
  | .failure failed now =>
    let (limiter,backoff) := watched.limiter.registerFailure failed now
    if failed = key then ⟨limiter,now,watched.failures + 1,some (now,backoff),false⟩
    else { watched with limiter, clock := now }
  | .success succeeded now =>
    { watched with limiter := watched.limiter.registerSuccess succeeded, clock := now }

/-- A call of a run as the middleware makes it: the clock does not go back, the storage is not full,
the key fails only after an ask that let it through and less than an hour after its last failure,
and it never succeeds. -/
def Disciplined (key : κ) (watched : Watched κ) (event : FailureEvent κ) : Prop :=
  watched.clock ≤ event.now ∧
    watched.limiter.storage.rows.length < watched.limiter.maxEntries ∧
    match event with
    | .ask _ _ => True
    | .failure failed now => failed = key →
      watched.admitted = true ∧ ∀ last ∈ watched.lastFailure, now - last.1 < seconds 3600
    | .success succeeded _ => succeeded ≠ key

/-- The failures of the key past the warm-up bring exponential back-offs, and an ask during a
back-off is answered with a positive wait. -/
def BacksOff (key : κ) (watched : Watched κ) : FailureEvent κ → Prop
  | .ask asked now => asked = key →
    ∀ last ∈ watched.lastFailure, now < last.1 + seconds last.2 →
      ∃ wait ∈ (watched.limiter.retryAfter key now).2, 0 < wait
  | .failure failed now => failed = key →
    watched.failures + 1 > watched.limiter.warmUpAttempts →
      (watched.limiter.registerFailure key now).2 =
        min (2 ^ (watched.failures + 1 - watched.limiter.warmUpAttempts))
          watched.limiter.maxBackoffSeconds
  | .success _ _ => True

/-- The back-offs do not grow: they are all zero, or capped before the first doubling. -/
def Flat (limiter : FailureRateLimiter κ) : Prop :=
  limiter.maxBackoffSeconds = 0 ∨ (limiter.warmUpAttempts = 0 ∧ limiter.maxBackoffSeconds ≤ 2)

/-- No ask finds the key blocked with less than a second left, and no failure comes after the first
back-off, unless the back-offs are flat. -/
def WithinFirstBackoff (key : κ) (watched : Watched κ) : FailureEvent κ → Prop
  | .ask asked now => asked = key →
    ∀ blockedUntil ∈ (watched.limiter.storage.get key).bind FailureState.blockedUntil,
      now < blockedUntil → now + seconds 1 ≤ blockedUntil
  | .failure failed _ => failed = key →
    watched.failures ≤ watched.limiter.warmUpAttempts ∨ Flat watched.limiter
  | .success _ _ => True

instance (key : κ) (watched : Watched κ) (event : FailureEvent κ) :
    Decidable (Disciplined key watched event) :=
  match event with
  | .ask _ _ => inferInstanceAs (Decidable (_ ∧ _ ∧ True))
  | .failure _ _ => inferInstanceAs (Decidable (_ ∧ _ ∧ (_ → _ ∧ ∀ _ ∈ watched.lastFailure, _)))
  | .success _ _ => inferInstanceAs (Decidable (_ ∧ _ ∧ _ ≠ _))

instance (key : κ) (watched : Watched κ) (event : FailureEvent κ) :
    Decidable (BacksOff key watched event) :=
  match event with
  | .ask _ _ => inferInstanceAs (Decidable (_ → ∀ _ ∈ watched.lastFailure, _ →
      ∃ _ ∈ (watched.limiter.retryAfter key _).2, _))
  | .failure _ _ => inferInstanceAs (Decidable (_ → _ → _ = _))
  | .success _ _ => isTrue trivial

instance (key : κ) (watched : Watched κ) (event : FailureEvent κ) :
    Decidable (WithinFirstBackoff key watched event) :=
  match event with
  | .ask _ _ => inferInstanceAs (Decidable (_ → ∀ _ ∈ Option.bind _ _, _ → _))
  | .failure _ _ => inferInstanceAs (Decidable (_ → _ ∨ _ ∨ _ ∧ _))
  | .success _ _ => isTrue trivial

end Watched

end Podly.RateLimits
