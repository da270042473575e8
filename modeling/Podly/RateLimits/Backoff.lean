import Mathlib.Tactic.Ring
import Podly.RateLimits.FailureLimiter

/-! How far the back-off of one key gets. An ask that finds a back-off over, or in its last second,
deletes the count of attempts with it, and so the first back-off is also the last one that the
count explains. -/
namespace Podly.RateLimits
open Store

namespace FailureRateLimiter
variable {κ : Type*} [DecidableEq κ] {limiter : FailureRateLimiter κ} {key k : κ} {now : ℤ}

@[simp] theorem forget_get : (limiter.forget key).storage.get k =
    if k = key then none else limiter.storage.get k := by
  rw [forget,Table.get_deleteWhere]
  cases hrow : limiter.storage.get k with
  | none => simp
  | some state =>
    have hkey : state.key = k := (Table.get_eq_some.mp hrow).2
    by_cases hk : k = key <;> simp [hkey,hk]

/-- Pruning a storage that is not over its bound deletes only stale keys. -/
theorem prune_get (limiter : FailureRateLimiter κ) (now : ℤ) (k : κ)
    (hroom : limiter.storage.rows.length ≤ limiter.maxEntries) :
    (limiter.prune now).storage.get k = limiter.storage.get k ∨
      (∃ state, limiter.storage.get k = some state ∧ seconds 3600 < now - state.lastAttempt) ∧
        (limiter.prune now).storage.get k = none := by
  unfold prune
  split
  · have hlength : (limiter.storage.deleteWhere
        (fun state => decide (seconds 3600 < now - state.lastAttempt))).rows.length ≤
        limiter.maxEntries := (List.length_filter_le _ _).trans hroom
    simp only [Nat.sub_eq_zero_of_le hlength,Table.dropOldest_zero,Table.get_deleteWhere]
    cases hrow : limiter.storage.get k with
    | none => exact .inl rfl
    | some state =>
      by_cases hstale : seconds 3600 < now - state.lastAttempt
      · exact .inr ⟨⟨state,rfl,hstale⟩,by rw [Option.filter_some,decide_eq_true hstale]; rfl⟩
      · exact .inl (by rw [Option.filter_some,decide_eq_false hstale]; rfl)
  · left
    simp only [Nat.sub_eq_zero_of_le hroom,Table.dropOldest_zero]

omit [DecidableEq κ] in
theorem prune_limits : (limiter.prune now).maxBackoffSeconds = limiter.maxBackoffSeconds ∧
    (limiter.prune now).warmUpAttempts = limiter.warmUpAttempts := by
  unfold prune
  split <;> exact ⟨rfl,rfl⟩

theorem put_length_le (state : FailureState κ) :
    (limiter.storage.put state).rows.length ≤ limiter.storage.rows.length + 1 := by
  unfold Table.put
  split <;> simp

/-- The attempts counted with the next failure of a key. -/
def nextAttempts (limiter : FailureRateLimiter κ) (key : κ) : ℕ :=
  match limiter.storage.get key with
  | none => 1
  | some state => state.attempts + 1

/-- The entry a failure writes. -/
def failed (limiter : FailureRateLimiter κ) (key : κ) (now : ℤ) : FailureState κ :=
  ⟨key,limiter.nextAttempts key,
    if limiter.nextAttempts key > limiter.warmUpAttempts then
      some (now + seconds (limiter.backoffSeconds (limiter.nextAttempts key))) else none,now⟩

theorem registerFailure_eq : limiter.registerFailure key now =
    ({ limiter with storage := limiter.storage.put (limiter.failed key now) }.prune now,
      limiter.backoffSeconds (limiter.nextAttempts key)) := rfl

theorem registerFailure_snd : (limiter.registerFailure key now).2 =
    limiter.backoffSeconds (limiter.nextAttempts key) := rfl

/-- The failed key has its new entry, which is not stale. -/
theorem registerFailure_get_self (hroom : limiter.storage.rows.length < limiter.maxEntries) :
    (limiter.registerFailure key now).1.storage.get key = some (limiter.failed key now) := by
  have hbound : (limiter.storage.put (limiter.failed key now)).rows.length ≤
      limiter.maxEntries := (put_length_le _).trans hroom
  have hget : (limiter.storage.put (limiter.failed key now)).get key =
      some (limiter.failed key now) := by
    rw [Table.get_put]
    exact if_pos rfl
  rw [registerFailure_eq]
  rcases prune_get { limiter with storage := limiter.storage.put _ } now key hbound with heq | ⟨⟨state,hstate,hstale⟩,-⟩
  · rw [heq,hget]
  · rw [hget] at hstate
    have hnow : state.lastAttempt = now := by rw [← Option.some.inj hstate]; rfl
    have hhour : seconds 3600 = 3600000000 := rfl
    rw [hnow] at hstale
    omega

variable (now) in
/-- Another key keeps its entry, or loses it when it is stale. -/
theorem registerFailure_get_of_ne (hroom : limiter.storage.rows.length < limiter.maxEntries)
    (hk : k ≠ key) : (limiter.registerFailure key now).1.storage.get k = limiter.storage.get k ∨
      (∃ state, limiter.storage.get k = some state ∧ seconds 3600 < now - state.lastAttempt) ∧
        (limiter.registerFailure key now).1.storage.get k = none := by
  have hbound : (limiter.storage.put (limiter.failed key now)).rows.length ≤
      limiter.maxEntries := (put_length_le _).trans hroom
  have hget : (limiter.storage.put (limiter.failed key now)).get k = limiter.storage.get k := by
    rw [Table.get_put]
    exact if_neg hk
  rw [registerFailure_eq,← hget]
  exact prune_get { limiter with storage := limiter.storage.put _ } now k hbound

variable (key now) in
theorem registerFailure_limits :
    (limiter.registerFailure key now).1.maxBackoffSeconds = limiter.maxBackoffSeconds ∧
      (limiter.registerFailure key now).1.warmUpAttempts = limiter.warmUpAttempts :=
  prune_limits

/-- An ask finds no back-off, or one to delete, or one with a second or more to wait. -/
theorem retryAfter_cases (limiter : FailureRateLimiter κ) (key : κ) (now : ℤ) :
    ((limiter.storage.get key).bind FailureState.blockedUntil = none ∧
        limiter.retryAfter key now = (limiter,none)) ∨
      ∃ blockedUntil, (limiter.storage.get key).bind FailureState.blockedUntil =
          some blockedUntil ∧
        ((blockedUntil < now + seconds 1 ∧
            limiter.retryAfter key now = (limiter.forget key,none)) ∨
          (now + seconds 1 ≤ blockedUntil ∧
            ∃ wait, 0 < wait ∧ limiter.retryAfter key now = (limiter,some wait))) := by
  unfold retryAfter
  cases hblock : (limiter.storage.get key).bind FailureState.blockedUntil with
  | none => exact .inl ⟨rfl,rfl⟩
  | some blockedUntil =>
    refine .inr ⟨blockedUntil,rfl,?_⟩
    have hsecond : seconds 1 = 1000000 := rfl
    by_cases hover : blockedUntil ≤ now
    · exact .inl ⟨by omega,if_pos hover⟩
    · by_cases hremaining : (blockedUntil - now) / 1000000 ≤ 0
      · refine .inl ⟨by omega,?_⟩
        simp only [if_neg hover,if_pos hremaining]
      · refine .inr ⟨by omega,(blockedUntil - now) / 1000000,by omega,?_⟩
        simp only [if_neg hover,if_neg hremaining]

variable (now) in
/-- An ask changes no entry of another key. -/
theorem retryAfter_get_of_ne (hk : k ≠ key) :
    (limiter.retryAfter key now).1.storage.get k = limiter.storage.get k := by
  rcases limiter.retryAfter_cases key now with
    ⟨-,h⟩ | ⟨_,-,⟨-,h⟩ | ⟨-,_,-,h⟩⟩ <;> simp [h,hk]

variable (key now) in
theorem retryAfter_limits :
    (limiter.retryAfter key now).1.maxBackoffSeconds = limiter.maxBackoffSeconds ∧
      (limiter.retryAfter key now).1.warmUpAttempts = limiter.warmUpAttempts := by
  rcases limiter.retryAfter_cases key now with
    ⟨-,h⟩ | ⟨_,-,⟨-,h⟩ | ⟨-,_,-,h⟩⟩ <;> simp [h,forget]

omit [DecidableEq κ] in
theorem backoffSeconds_warmUp {attempts : ℕ} (h : attempts ≤ limiter.warmUpAttempts) :
    limiter.backoffSeconds attempts = 0 := if_neg (by omega)

omit [DecidableEq κ] in
theorem backoffSeconds_past {attempts : ℕ} (h : limiter.warmUpAttempts < attempts) :
    limiter.backoffSeconds attempts =
      min (2 ^ (attempts - limiter.warmUpAttempts)) limiter.maxBackoffSeconds := if_pos h

end FailureRateLimiter

namespace Watched
variable {κ : Type*} [DecidableEq κ] {key : κ} {watched : Watched κ}

/-- The entry of the key after its last failure: counting within the warm-up, or blocked until the
back-off of that failure is over and then not yet asked about. -/
def Entered (watched : Watched κ) (state : FailureState κ) : Prop :=
  ∃ backoff : ℕ, watched.lastFailure = some (state.lastAttempt,backoff) ∧
    ((state.blockedUntil = none ∧ backoff = 0 ∧
        (watched.limiter.maxBackoffSeconds = 0 ∨
          watched.failures ≤ watched.limiter.warmUpAttempts ∧
            state.attempts = watched.failures)) ∨
      (state.blockedUntil = some (state.lastAttempt + seconds backoff) ∧
        watched.admitted = false ∧ (watched.limiter.maxBackoffSeconds = 0 ∨
          watched.limiter.warmUpAttempts < watched.failures)))

/-- Without an entry the key has not failed, or its back-off is over and so is the time in which it
could fail again, or the count is not needed any more. -/
def Gone (watched : Watched κ) : Prop :=
  ∀ last ∈ watched.lastFailure, last.1 + seconds last.2 ≤ watched.clock ∧
    (last.1 + seconds 3600 < watched.clock ∨ watched.limiter.maxBackoffSeconds = 0 ∨
      watched.limiter.warmUpAttempts < watched.failures)

structure Tracks (key : κ) (watched : Watched κ) : Prop where
  unfailed : watched.lastFailure = none → watched.failures = 0
  last_le : ∀ last ∈ watched.lastFailure, last.1 ≤ watched.clock ∧ last.2 ≤ 2
  grown : watched.limiter.warmUpAttempts + 1 < watched.failures → Flat watched.limiter
  entry : match watched.limiter.storage.get key with
    | some state => watched.Entered state
    | none => watched.Gone

theorem tracks_start {limiter : FailureRateLimiter κ} (hfresh : limiter.storage.get key = none)
    (clock : ℤ) : Tracks key (start limiter clock) where
  unfailed _ := rfl
  last_le := by
    intro last hlast
    cases hlast
  grown hgrown := absurd hgrown (Nat.not_lt_zero _)
  entry := by
    simp only [start,hfresh]
    intro last hlast
    cases hlast

/-- A call that leaves the entry of the key, or deletes it when it is stale, changes nothing for
the key. -/
theorem Tracks.frame (h : Tracks key watched) {limiter : FailureRateLimiter κ} (now : ℤ)
    (hclock : watched.clock ≤ now)
    (hmax : limiter.maxBackoffSeconds = watched.limiter.maxBackoffSeconds)
    (hwarm : limiter.warmUpAttempts = watched.limiter.warmUpAttempts)
    (hget : limiter.storage.get key = watched.limiter.storage.get key ∨
      (∃ state, watched.limiter.storage.get key = some state ∧
        seconds 3600 < now - state.lastAttempt) ∧ limiter.storage.get key = none) :
    Tracks key { watched with limiter, clock := now } := by
  refine ⟨h.unfailed,?_,?_,?_⟩
  · intro last hlast
    exact ⟨(h.last_le last hlast).1.trans hclock,(h.last_le last hlast).2⟩
  · simp only [hwarm,Flat,hmax]
    exact h.grown
  · have hentry := h.entry
    rcases hget with hsame | ⟨⟨state,hstate,hstale⟩,hgone⟩
    · simp only [hsame]
      cases hrow : watched.limiter.storage.get key with
      | none =>
        rw [hrow] at hentry
        intro last hlast
        obtain ⟨hover,hlate⟩ := hentry last hlast
        simp only [hmax,hwarm]
        exact ⟨hover.trans hclock,hlate.imp_left (fun hlt => hlt.trans_le hclock)⟩
      | some state =>
        rw [hrow] at hentry
        simp only [Entered,hmax,hwarm]
        exact hentry
    · rw [hstate] at hentry
      simp only [hgone]
      obtain ⟨backoff,hlast,-⟩ := hentry
      intro last hmem
      have hlast' : last = (state.lastAttempt,backoff) := Option.some.inj (hmem.symm.trans hlast)
      have hsmall := (h.last_le last hmem).2
      subst hlast'
      simp only [seconds] at hstale hsmall ⊢
      exact ⟨by omega,.inl (by omega)⟩

/-- The attempts counted with the next failure: one more than the failures so far within the
warm-up, and one again after a back-off. -/
theorem Tracks.nextAttempts (h : Tracks key watched) {now : ℤ} (hclock : watched.clock ≤ now)
    (hadmitted : watched.admitted = true)
    (hgap : ∀ last ∈ watched.lastFailure, now - last.1 < seconds 3600) :
    watched.limiter.maxBackoffSeconds = 0 ∨
      (watched.failures ≤ watched.limiter.warmUpAttempts ∧
        watched.limiter.nextAttempts key = watched.failures + 1) ∨
      (watched.limiter.warmUpAttempts < watched.failures ∧
        watched.limiter.nextAttempts key = 1) := by
  have hentry := h.entry
  unfold FailureRateLimiter.nextAttempts
  cases hrow : watched.limiter.storage.get key with
  | none =>
    rw [hrow] at hentry
    cases hlast : watched.lastFailure with
    | none =>
      have hunfailed := h.unfailed hlast
      exact .inr (.inl ⟨by omega,by simp [hunfailed]⟩)
    | some last =>
      obtain ⟨-,hstale | hzero | hpast⟩ := hentry last hlast
      · have hlate := hgap last hlast
        simp only [seconds] at hstale hlate
        omega
      · exact .inl hzero
      · exact .inr (.inr ⟨hpast,rfl⟩)
  | some state =>
    rw [hrow] at hentry
    obtain ⟨backoff,-,⟨-,-,hzero | ⟨hwarm,hcount⟩⟩ | ⟨-,hasked,-⟩⟩ := hentry
    · exact .inl hzero
    · exact .inr (.inl ⟨hwarm,by simp [hcount]⟩)
    · rw [hadmitted] at hasked
      cases hasked

omit [DecidableEq κ] in
/-- Starting over after a back-off gives the back-off the failures call for only when back-offs are
flat. -/
theorem backoffSeconds_one_iff {limiter : FailureRateLimiter κ} {exponent : ℕ}
    (hexponent : 2 ≤ exponent) : limiter.backoffSeconds 1 =
      min (2 ^ exponent) limiter.maxBackoffSeconds ↔ Flat limiter := by
  have hfour : 2 ^ 2 ≤ 2 ^ exponent := Nat.pow_le_pow_right (by decide) hexponent
  unfold FailureRateLimiter.backoffSeconds Flat
  cases hwarm : limiter.warmUpAttempts with
  | zero =>
    rw [if_pos Nat.one_pos,Nat.sub_zero,pow_one]
    omega
  | succ warm =>
    rw [if_neg (by omega)]
    omega

omit [DecidableEq κ] in
theorem backoffSeconds_of_zero {limiter : FailureRateLimiter κ}
    (hzero : limiter.maxBackoffSeconds = 0) (attempts : ℕ) :
    limiter.backoffSeconds attempts = 0 := by
  unfold FailureRateLimiter.backoffSeconds
  split
  · rw [hzero,Nat.min_zero]
  · rfl

/-- A failure of the key brings the back-off it should exactly within the first back-off. -/
theorem Tracks.failure_iff (h : Tracks key watched) {now : ℤ}
    (hd : Disciplined key watched (.failure key now)) :
    BacksOff key watched (.failure key now) ↔ WithinFirstBackoff key watched (.failure key now) := by
  obtain ⟨hclock,-,hcall⟩ := hd
  obtain ⟨hadmitted,hgap⟩ := hcall rfl
  simp only [BacksOff,WithinFirstBackoff,true_imp_iff,FailureRateLimiter.registerFailure_snd]
  rcases h.nextAttempts hclock hadmitted hgap with hzero | ⟨hwarm,hnext⟩ | ⟨hpast,hnext⟩
  · refine iff_of_true (fun _ => ?_) (.inr (.inl hzero))
    rw [backoffSeconds_of_zero hzero,hzero,Nat.min_zero]
  · refine iff_of_true (fun hpast => ?_) (.inl hwarm)
    rw [hnext,FailureRateLimiter.backoffSeconds_past hpast]
  · rw [hnext,backoffSeconds_one_iff (by omega)]
    constructor
    · intro hflat
      exact .inr (hflat (by omega))
    · rintro (hwarm | hflat) -
      · omega
      · exact hflat

/-- Within the first back-off, or with flat ones, no back-off is longer than two seconds. -/
theorem backoff_le_two
    (hnext : watched.limiter.maxBackoffSeconds = 0 ∨
      (watched.failures ≤ watched.limiter.warmUpAttempts ∧
        watched.limiter.nextAttempts key = watched.failures + 1) ∨
      (watched.limiter.warmUpAttempts < watched.failures ∧
        watched.limiter.nextAttempts key = 1))
    (hfirst : watched.failures ≤ watched.limiter.warmUpAttempts ∨ Flat watched.limiter) :
    watched.limiter.backoffSeconds (watched.limiter.nextAttempts key) ≤ 2 := by
  have hle : watched.limiter.nextAttempts key ≤ watched.limiter.warmUpAttempts + 1 ∨
      watched.limiter.maxBackoffSeconds = 0 := by omega
  rcases hle with hle | hzero
  · unfold FailureRateLimiter.backoffSeconds
    split
    · have hone : watched.limiter.nextAttempts key - watched.limiter.warmUpAttempts = 1 := by omega
      rw [hone,pow_one]
      exact Nat.min_le_left 2 _
    · exact Nat.zero_le 2
  · rw [backoffSeconds_of_zero hzero]
    exact Nat.zero_le 2

theorem Tracks.failure_step (h : Tracks key watched) {now : ℤ}
    (hd : Disciplined key watched (.failure key now))
    (hfirst : WithinFirstBackoff key watched (.failure key now)) :
    Tracks key (watched.step key (.failure key now)) := by
  obtain ⟨hclock,hroom,hcall⟩ := hd
  obtain ⟨hadmitted,hgap⟩ := hcall rfl
  have hnext := h.nextAttempts hclock hadmitted hgap
  have hfirst : watched.failures ≤ watched.limiter.warmUpAttempts ∨ Flat watched.limiter :=
    hfirst rfl
  simp only [step,if_true]
  have hlimits := watched.limiter.registerFailure_limits key now
  refine ⟨by simp,?_,?_,?_⟩
  · intro last hlast
    obtain rfl := Option.some.inj hlast
    exact ⟨le_rfl,backoff_le_two hnext hfirst⟩
  · simp only [Flat,hlimits]
    intro hgrown
    exact hfirst.resolve_left (by omega)
  · simp only [FailureRateLimiter.registerFailure_get_self hroom]
    refine ⟨_,rfl,?_⟩
    simp only [hlimits,FailureRateLimiter.failed,FailureRateLimiter.registerFailure_snd]
    by_cases hblock : watched.limiter.warmUpAttempts < watched.limiter.nextAttempts key
    · right
      rw [if_pos hblock]
      refine ⟨rfl,trivial,?_⟩
      rcases hnext with hzero | ⟨hwarm,hcount⟩ | ⟨hpast,-⟩
      · exact .inl hzero
      · exact .inr (by omega)
      · exact .inr (by omega)
    · left
      rw [if_neg hblock]
      refine ⟨rfl,FailureRateLimiter.backoffSeconds_warmUp (by omega),?_⟩
      rcases hnext with hzero | ⟨hwarm,hcount⟩ | ⟨hpast,hcount⟩
      · exact .inl hzero
      · exact .inr ⟨by omega,hcount⟩
      · rcases hfirst with hwarm | hzero | ⟨hnone,-⟩
        · omega
        · exact .inl hzero
        · omega

/-- The back-off of the last failure is over unless the entry of the key says otherwise. -/
theorem Tracks.over_of_unblocked (h : Tracks key watched)
    (hblock : (watched.limiter.storage.get key).bind FailureState.blockedUntil = none) :
    ∀ last ∈ watched.lastFailure, last.1 + seconds last.2 ≤ watched.clock := by
  intro last hmem
  have hentry := h.entry
  cases hrow : watched.limiter.storage.get key with
  | none =>
    rw [hrow] at hentry
    exact (hentry last hmem).1
  | some state =>
    rw [hrow] at hentry hblock
    obtain ⟨backoff,hlast,⟨-,hzero,-⟩ | ⟨hblocked,-⟩⟩ := hentry
    · have hlast' : last = (state.lastAttempt,backoff) := Option.some.inj (hmem.symm.trans hlast)
      have hle := (h.last_le last hmem).1
      subst hlast' hzero
      simp only [seconds] at hle ⊢
      omega
    · rw [Option.bind_some,hblocked] at hblock
      cases hblock

/-- A block is the one the last failure set. -/
theorem Tracks.blocked (h : Tracks key watched) {blockedUntil : ℤ}
    (hblock : (watched.limiter.storage.get key).bind FailureState.blockedUntil =
      some blockedUntil) :
    ∃ last, watched.lastFailure = some last ∧ blockedUntil = last.1 + seconds last.2 ∧
      (watched.limiter.maxBackoffSeconds = 0 ∨
        watched.limiter.warmUpAttempts < watched.failures) := by
  have hentry := h.entry
  cases hrow : watched.limiter.storage.get key with
  | none =>
    rw [hrow] at hblock
    cases hblock
  | some state =>
    rw [hrow] at hentry hblock
    obtain ⟨backoff,hlast,⟨hnone,-⟩ | ⟨hblocked,-,hpast⟩⟩ := hentry
    · rw [Option.bind_some,hnone] at hblock
      cases hblock
    · rw [Option.bind_some,hblocked] at hblock
      exact ⟨_,hlast,(Option.some.inj hblock).symm,hpast⟩

/-- An ask of the key is answered as it should be exactly when it does not come in the last second
of a back-off. -/
theorem Tracks.ask_iff (h : Tracks key watched) {now : ℤ} (hclock : watched.clock ≤ now) :
    BacksOff key watched (.ask key now) ↔ WithinFirstBackoff key watched (.ask key now) := by
  simp only [BacksOff,WithinFirstBackoff,true_imp_iff]
  rcases watched.limiter.retryAfter_cases key now with
    ⟨hblock,-⟩ | ⟨blockedUntil,hblock,⟨hsoon,hanswer⟩ | ⟨hlate,wait,hwait,hanswer⟩⟩
  · have hover := h.over_of_unblocked hblock
    refine iff_of_true (fun last hlast hnow => ?_) (fun _ hmem => ?_)
    · exact absurd hnow (not_lt.mpr ((hover last hlast).trans hclock))
    · rw [hblock] at hmem
      cases hmem
  · obtain ⟨last,hlast,hend,-⟩ := h.blocked hblock
    rw [hblock,hanswer,hlast]
    constructor
    · intro hanswered other hother hnow
      obtain rfl := Option.some.inj hother
      obtain ⟨_,hwait,-⟩ := hanswered last rfl (hend ▸ hnow)
      cases hwait
    · intro hearly other hother hnow
      obtain rfl := Option.some.inj hother
      have hroom := hearly blockedUntil rfl (hend ▸ hnow)
      omega
  · rw [hanswer]
    refine iff_of_true (fun _ _ _ => ⟨wait,rfl,hwait⟩) (fun _ hmem _ => ?_)
    rw [hblock] at hmem
    obtain rfl := Option.some.inj hmem
    exact hlate

theorem Tracks.ask_step (h : Tracks key watched) {now : ℤ} (hclock : watched.clock ≤ now)
    (hfirst : WithinFirstBackoff key watched (.ask key now)) :
    Tracks key (watched.step key (.ask key now)) := by
  have hlast_le : ∀ last ∈ watched.lastFailure, last.1 ≤ now ∧ last.2 ≤ 2 := fun last hlast =>
    ⟨(h.last_le last hlast).1.trans hclock,(h.last_le last hlast).2⟩
  have hentry := h.entry
  simp only [step]
  rcases watched.limiter.retryAfter_cases key now with
    ⟨hblock,hanswer⟩ | ⟨blockedUntil,hblock,⟨hsoon,hanswer⟩ | ⟨hlate,wait,hwait,hanswer⟩⟩
  · rw [hanswer]
    refine ⟨h.unfailed,hlast_le,h.grown,?_⟩
    cases hrow : watched.limiter.storage.get key with
    | none =>
      simp only [hrow] at hentry ⊢
      intro last hlast
      obtain ⟨hover,hgone⟩ := hentry last hlast
      exact ⟨hover.trans hclock,hgone.imp_left (fun hlt => hlt.trans_le hclock)⟩
    | some state =>
      simp only [hrow] at hentry ⊢
      obtain ⟨backoff,hlast,hopen | ⟨hblocked,-⟩⟩ := hentry
      · exact ⟨backoff,hlast,.inl hopen⟩
      · rw [hrow,Option.bind_some,hblocked] at hblock
        cases hblock
  · -- the back-off is over: the entry goes, and with it the count
    rw [hanswer]
    refine ⟨h.unfailed,hlast_le,h.grown,?_⟩
    simp only [FailureRateLimiter.forget_get,if_true]
    obtain ⟨last,hlast,hend,hpast⟩ := h.blocked hblock
    intro last' hlast'
    obtain rfl := Option.some.inj (hlast.symm.trans hlast')
    have hover : ¬now < blockedUntil := by
      intro hnow
      have hroom := hfirst rfl blockedUntil hblock hnow
      omega
    exact ⟨hend ▸ not_lt.mp hover,.inr hpast⟩
  · rw [hanswer]
    refine ⟨h.unfailed,hlast_le,h.grown,?_⟩
    simp only
    cases hrow : watched.limiter.storage.get key with
    | none =>
      rw [hrow] at hblock
      cases hblock
    | some state =>
      rw [hrow] at hentry
      exact hentry

/-- One call within the first back-off keeps track of the key. -/
theorem Tracks.step (h : Tracks key watched) {event : FailureEvent κ}
    (hd : Disciplined key watched event) (hfirst : WithinFirstBackoff key watched event) :
    Tracks key (watched.step key event) := by
  cases event with
  | ask asked now =>
    by_cases hkey : asked = key
    · subst hkey
      exact h.ask_step hd.1 hfirst
    · have hlimits := watched.limiter.retryAfter_limits asked now
      have hget := watched.limiter.retryAfter_get_of_ne now (Ne.symm hkey)
      have hframe := h.frame now hd.1 hlimits.1 hlimits.2 (.inl hget)
      simpa [Watched.step,hkey] using hframe
  | failure failed now =>
    by_cases hkey : failed = key
    · subst hkey
      exact h.failure_step hd hfirst
    · have hlimits := watched.limiter.registerFailure_limits failed now
      have hget := FailureRateLimiter.registerFailure_get_of_ne now hd.2.1 (Ne.symm hkey)
      have hframe := h.frame now hd.1 hlimits.1 hlimits.2 hget
      simpa [Watched.step,hkey] using hframe
  | success succeeded now =>
    have hget : (watched.limiter.registerSuccess succeeded).storage.get key =
        watched.limiter.storage.get key := by
      rw [FailureRateLimiter.registerSuccess,FailureRateLimiter.forget_get,
        if_neg (Ne.symm hd.2.2)]
    exact h.frame now hd.1 rfl rfl (.inl hget)

/-- One call is answered as it should be exactly within the first back-off. -/
theorem Tracks.backsOff_iff (h : Tracks key watched) {event : FailureEvent κ}
    (hd : Disciplined key watched event) :
    BacksOff key watched event ↔ WithinFirstBackoff key watched event := by
  cases event with
  | ask asked now =>
    by_cases hkey : asked = key
    · subst hkey
      exact h.ask_iff hd.1
    · exact iff_of_true (fun he => absurd he hkey) (fun he => absurd he hkey)
  | failure failed now =>
    by_cases hkey : failed = key
    · subst hkey
      exact h.failure_iff hd
    · exact iff_of_true (fun he => absurd he hkey) (fun he => absurd he hkey)
  | success succeeded now => exact Iff.rfl

end Watched

/-- A run of a key from its first failure on backs off exponentially exactly when it stays within
its first back-off. -/
theorem backsOff_run_iff {κ : Type*} [DecidableEq κ] (key : κ) (limiter : FailureRateLimiter κ)
    (hfresh : limiter.storage.get key = none) (clock : ℤ) {events : List (FailureEvent κ)}
    (hrun : AllSteps (Watched.step key) (Watched.Disciplined key) (.start limiter clock) events) :
    AllSteps (Watched.step key) (Watched.BacksOff key) (.start limiter clock) events ↔
      AllSteps (Watched.step key) (Watched.WithinFirstBackoff key) (.start limiter clock)
        events :=
  allSteps_iff (I := Watched.Tracks key) (fun _ _ htracks hd => htracks.backsOff_iff hd)
    (fun _ _ htracks hd hfirst => htracks.step hd hfirst) (Watched.tracks_start hfresh clock) hrun

/-- One attempt of the key, refused by the other side. -/
def attempt (key : String) (now : ℤ) : List (FailureEvent String) :=
  [.ask key (seconds now),.failure key (seconds now)]

/-- The limiter of the application. -/
def applicationLimiter : FailureRateLimiter String := ⟨.empty,300,3,10000,none⟩

/-- Four failures, and an ask with a second of the back-off left. -/
def firstBackoffRun (key : String) : List (FailureEvent String) :=
  attempt key 0 ++ attempt key 1 ++ attempt key 2 ++ attempt key 3 ++ [.ask key (seconds 4)]

/-- Four failures, and a fifth after the back-off. -/
def restartedRun (key : String) : List (FailureEvent String) :=
  attempt key 0 ++ attempt key 1 ++ attempt key 2 ++ attempt key 3 ++ attempt key 10

theorem backsOff_firstBackoffRun : AllSteps (Watched.step "203.0.113.7")
    (Watched.BacksOff "203.0.113.7") (.start applicationLimiter 0) (firstBackoffRun "203.0.113.7") :=
  (backsOff_run_iff "203.0.113.7" applicationLimiter rfl 0 (by decide)).mpr
    (by decide)

/-- The ask that finds the first back-off over deletes the count, and the fifth failure brings no
back-off where four seconds are due. -/
theorem backsOff_restartedRun :
    AllSteps (Watched.step "203.0.113.7") (Watched.Disciplined "203.0.113.7")
      (.start applicationLimiter 0) (restartedRun "203.0.113.7") ∧
    ¬AllSteps (Watched.step "203.0.113.7") (Watched.BacksOff "203.0.113.7")
      (.start applicationLimiter 0) (restartedRun "203.0.113.7") := by
  decide

end Podly.RateLimits
