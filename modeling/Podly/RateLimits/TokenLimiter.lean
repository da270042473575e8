import Mathlib.Algebra.Order.Ring.Rat
import Podly.Sliding.Window
import Podly.Store.Run

/-! The client-side token limiter and the threads that share it. A call of `wait_if_needed` reads
the clock and takes the lock twice, once to check and once to record; between these points any steps
of other threads may come. -/
namespace Podly.RateLimits

/-- A message of a request; only its content is counted. -/
structure Message where
  role : String
  content : Option String
deriving DecidableEq

structure TokenRateLimiter where
  tokensPerMinute : ℕ
  windowSeconds : ℚ
  tokenUsage : List (ℚ × ℕ)
deriving DecidableEq

namespace TokenRateLimiter

def create (tokensPerMinute : ℕ) (windowMinutes : ℤ) : TokenRateLimiter :=
  ⟨tokensPerMinute,windowMinutes * 60,[]⟩

/-- About four characters a token. -/
def countTokens (messages : List Message) : ℕ :=
  (messages.map (fun msg => (msg.content.getD "").length)).sum / 4

def cleanupOldUsage (limiter : TokenRateLimiter) (currentTime : ℚ) : TokenRateLimiter :=
  let cutoffTime := currentTime - limiter.windowSeconds
  { limiter with
    tokenUsage := limiter.tokenUsage.dropWhile (fun usage => decide (usage.1 < cutoffTime)) }

/-- `_get_current_usage` cleans up first and sums what is left. -/
def getCurrentUsage (limiter : TokenRateLimiter) (currentTime : ℚ) : TokenRateLimiter × ℕ :=
  (limiter.cleanupOldUsage currentTime,
    ((limiter.cleanupOldUsage currentTime).tokenUsage.map Prod.snd).sum)

/-- The critical section of `check_rate_limit`: may the request proceed, and how long is it told to
wait. The wait ends when the first record leaves the window. -/
def checkRateLimit (limiter : TokenRateLimiter) (tokenCount : ℕ) (currentTime : ℚ) :
    TokenRateLimiter × Bool × ℚ :=
  let (cleaned,currentUsage) := limiter.getCurrentUsage currentTime
  if currentUsage + tokenCount ≤ limiter.tokensPerMinute then (cleaned,true,0)
  else
    match cleaned.tokenUsage with
    | [] => (cleaned,true,0)
    | oldest::_ =>
      (cleaned,false,max 0 (oldest.1 + limiter.windowSeconds - currentTime))

/-- The critical section of `record_usage`. -/
def recordUsage (limiter : TokenRateLimiter) (tokenCount : ℕ) (currentTime : ℚ) :
    TokenRateLimiter :=
  { limiter with tokenUsage := limiter.tokenUsage ++ [(currentTime,tokenCount)] }

end TokenRateLimiter

/-- Where a thread stands in `wait_if_needed`. `seen` is how many requests had been recorded when
its check returned, `wakeAt` the earliest time at which its sleep ends. -/
inductive Phase
  | idle
  | checking (tokenCount : ℕ) (currentTime : ℚ)
  | sleeping (tokenCount : ℕ) (canProceed : Bool) (seen : ℕ) (wakeAt : ℚ)
  | recording (tokenCount : ℕ) (canProceed : Bool) (seen : ℕ) (currentTime : ℚ)
deriving DecidableEq

/-- The shared limiter, the clock, every request recorded so far, and the threads. -/
structure SharedLimiter (ι : Type*) where
  limiter : TokenRateLimiter
  clock : ℚ
  recorded : List (ℚ × ℕ)
  phase : ι → Phase

/-- The clock advances, a thread enters `wait_if_needed` and reads the clock, its check runs, it
wakes and reads the clock again, its record runs. -/
inductive Label (ι : Type*)
  | advance (seconds : ℚ)
  | call (thread : ι) (messages : List Message)
  | check (thread : ι)
  | wake (thread : ι)
  | record (thread : ι)

namespace SharedLimiter
variable {ι : Type*} [DecidableEq ι]

def start (limiter : TokenRateLimiter) (clock : ℚ) : SharedLimiter ι :=
  ⟨limiter,clock,[],fun _ => .idle⟩

def setPhase (sys : SharedLimiter ι) (thread : ι) (phase : Phase) : SharedLimiter ι :=
  { sys with phase := Function.update sys.phase thread phase }

/-- The time a caller sleeps after its check. -/
def pause (canProceed : Bool) (waitSeconds : ℚ) : ℚ :=
  if ¬canProceed ∧ 0 < waitSeconds then waitSeconds else 0

/-- One step. A thread that is not at the point a label names does not move, a sleeping thread
does not wake early, and the clock does not go back. -/
def step (sys : SharedLimiter ι) : Label ι → SharedLimiter ι
  | .advance seconds =>
    if 0 ≤ seconds then { sys with clock := sys.clock + seconds } else sys
  | .call thread messages =>
    match sys.phase thread with
    | .idle =>
      sys.setPhase thread (.checking (TokenRateLimiter.countTokens messages) sys.clock)
    | _ => sys
  | .check thread =>
    match sys.phase thread with
    | .checking tokenCount currentTime =>
      let (limiter,canProceed,waitSeconds) := sys.limiter.checkRateLimit tokenCount currentTime
      { sys with limiter }.setPhase thread (.sleeping tokenCount canProceed sys.recorded.length
        (sys.clock + pause canProceed waitSeconds))
    | _ => sys
  | .wake thread =>
    match sys.phase thread with
    | .sleeping tokenCount canProceed seen wakeAt =>
      if wakeAt ≤ sys.clock then
        sys.setPhase thread (.recording tokenCount canProceed seen sys.clock)
      else sys
    | _ => sys
  | .record thread =>
    match sys.phase thread with
    | .recording tokenCount _ _ currentTime =>
      { sys with
        limiter := sys.limiter.recordUsage tokenCount currentTime
        recorded := sys.recorded ++ [(currentTime,tokenCount)] }.setPhase thread .idle
    | _ => sys

end SharedLimiter

end Podly.RateLimits
