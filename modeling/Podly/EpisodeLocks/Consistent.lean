import Podly.EpisodeLocks.Calls

/-! What every call relies on while others run: at most one call creates the lock of an episode, and
a call in the processing section has the lock. -/
namespace Podly.EpisodeLocks
open Store
open AutoRetry (Failure)

variable {Guid : Type*}

/-- The test for the lock, the new lock and its first taker are in one section under `lock_lock`. -/
def Phase.Creates : Phase → Prop
  | .creating | .taking => True
  | _ => False

/-- A call that has only to report its error, if it is not at its end. -/
def Phase.IsOver : Phase → Prop
  | .reporting _ | .ended _ => True
  | _ => False

/-- What a call relies on at each phase, of `lock_lock` and of its episode's lock. -/
def Fits (lockLock : Option ℕ) (lock : Option (Option ℕ)) (i : ℕ) : Phase → Prop
  | .testing => lockLock = some i
  | .creating => lockLock = some i ∧ lock = none
  | .taking => lockLock = some i ∧ lock = some none
  | .leaving false => lockLock = some i ∧ lock ≠ none
  | .leaving true => lockLock = some i ∧ lock = some (some i)
  | .trying => lock ≠ none
  | .cancelling | .makingDirs | .processing
  | .looking _ | .asking _ | .releasing _ => lock = some (some i)
  | _ => True

/-- Every call finds what it relies on, and nobody tries a lock before its creator has it. -/
structure Consistent (s : State Guid) : Prop where
  fits : ∀ i call, s.calls i = some call → Fits s.lockLock (s.locks call.guid) i call.phase
  fresh : ∀ i j call call', s.calls i = some call → s.calls j = some call' →
    call.phase = .taking → call'.phase = .trying → call.guid ≠ call'.guid

/-- What the step of another call leaves of the lock of a call. -/
structure Spared (j : ℕ) (phase : Phase) (lock lock' : Option (Option ℕ)) : Prop where
  known : lock ≠ none → lock' ≠ none
  taken : lock = some (some j) → lock' = some (some j)
  created : phase.Creates → lock' = lock

theorem Spared.refl (j : ℕ) (phase : Phase) (lock : Option (Option ℕ)) :
    Spared j phase lock lock := ⟨id,id,fun _ => rfl⟩

section
variable {lockLock lockLock' : Option ℕ} {lock lock' : Option (Option ℕ)} {i : ℕ} {phase : Phase}

theorem Fits.spared (h : Fits lockLock lock i phase)
    (hguard : lockLock = some i → lockLock' = some i) (hlock : Spared i phase lock lock') :
    Fits lockLock' lock' i phase := by
  cases phase with
  | testing => exact hguard h
  | creating => exact ⟨hguard h.1,(hlock.created trivial).trans h.2⟩
  | taking => exact ⟨hguard h.1,(hlock.created trivial).trans h.2⟩
  | leaving locked =>
    cases locked with
    | false => exact ⟨hguard h.1,hlock.known h.2⟩
    | true => exact ⟨hguard h.1,hlock.taken h.2⟩
  | trying => exact hlock.known h
  | cancelling | makingDirs | processing | looking | asking | releasing => exact hlock.taken h
  | _ => trivial

theorem Fits.taken (h : Fits lockLock lock i phase) (hphase : phase.Holds) :
    lock = some (some i) := by
  cases phase with
  | leaving locked =>
    cases locked with
    | false => exact hphase.elim
    | true => exact h.2
  | cancelling | makingDirs | processing | looking | asking | releasing => exact h
  | _ => exact hphase.elim

theorem Fits.guarded (h : Fits lockLock lock i phase) (hphase : phase.Creates) :
    lockLock = some i := by
  cases phase with
  | creating | taking => exact h.1
  | _ => exact hphase.elim

end

theorem Phase.SetsUp.holds {phase : Phase} (h : phase.SetsUp) : phase.Holds := by
  cases phase with
  | cancelling | makingDirs => trivial
  | _ => exact h.elim

theorem Outcome.next_isOver (outcome : Outcome) : outcome.next.IsOver := by
  cases outcome <;> trivial

theorem Phase.IsOver.not_holds {phase : Phase} (h : phase.IsOver) : ¬phase.Holds := by
  cases phase with
  | reporting | ended => exact id
  | _ => exact h.elim

theorem Phase.IsOver.fits {phase : Phase} (h : phase.IsOver) (lockLock : Option ℕ)
    (lock : Option (Option ℕ)) (i : ℕ) : Fits lockLock lock i phase := by
  cases phase with
  | reporting | ended => trivial
  | _ => exact h.elim

theorem consistent_start : Consistent (start : State Guid) := by
  constructor
  · intro i call h
    cases h
  · intro i j call call' h
    cases h

theorem Consistent.atMostOne {s : State Guid} (hs : Consistent s) : AtMostOne s := by
  intro i j call call' hi hj hholds hholds' hguid
  have htaken := (hs.fits i call hi).taken hholds
  rw [hguid,(hs.fits j call' hj).taken hholds'] at htaken
  exact (Option.some.inj (Option.some.inj htaken)).symm

variable {s s' : State Guid} {i : ℕ} {call : Call Guid}

theorem calls_goTo (hcall : s.calls i = some call) (phase : Phase) :
    (s.goTo i phase).calls = Function.update s.calls i (some { call with phase }) := by
  rw [State.goTo,hcall,Option.map_some]

/-! Every step keeps the calls consistent -/

/-- The one call that moves or begins fits its new phase, and the others are spared. -/
theorem Consistent.move (hs : Consistent s) {guid : Guid} {phase : Phase}
    (hcalls : s'.calls = Function.update s.calls i (some ⟨guid,phase⟩))
    (hfits : Fits s'.lockLock (s'.locks guid) i phase)
    (hguard : ∀ j, j ≠ i → s.lockLock = some j → s'.lockLock = some j)
    (hspared : ∀ j call, j ≠ i → s.calls j = some call →
      Spared j call.phase (s.locks call.guid) (s'.locks call.guid))
    (htaking : phase = .taking → ∀ j call, s.calls j = some call → call.phase = .trying →
      guid ≠ call.guid)
    (htrying : phase = .trying → ∀ j call, s.calls j = some call → call.phase = .taking →
      call.guid ≠ guid) : Consistent s' := by
  have hget : ∀ j call, s'.calls j = some call →
      j = i ∧ call = ⟨guid,phase⟩ ∨ j ≠ i ∧ s.calls j = some call := by
    intro j call h
    rw [hcalls] at h
    by_cases hj : j = i
    · subst hj
      rw [Function.update_self] at h
      exact .inl ⟨rfl,(Option.some.inj h).symm⟩
    · rw [Function.update_of_ne hj] at h
      exact .inr ⟨hj,h⟩
  constructor
  · intro j call h
    rcases hget j call h with ⟨rfl,rfl⟩ | ⟨hj,hcall⟩
    · exact hfits
    · exact (hs.fits j call hcall).spared (hguard j hj) (hspared j call hj hcall)
  · intro j k call call' h h' hphase hphase'
    rcases hget j call h with ⟨rfl,rfl⟩ | ⟨hj,hcall⟩ <;>
      rcases hget k call' h' with ⟨rfl,rfl⟩ | ⟨hk,hcall'⟩
    · rw [hphase] at hphase'
      cases hphase'
    · exact htaking hphase k call' hcall' hphase'
    · exact htrying hphase' j call hcall hphase
    · exact hs.fresh j k call call' hcall hcall' hphase hphase'

/-- A step that only changes the phase, and at most frees or takes `lock_lock`. -/
theorem Consistent.goTo (hs : Consistent s) (hcall : s.calls i = some call) {phase : Phase}
    {lockLock : Option ℕ} (hfits : Fits lockLock (s.locks call.guid) i phase)
    (hguard : ∀ j, j ≠ i → s.lockLock = some j → lockLock = some j) (htaking : phase ≠ .taking)
    (htrying : phase = .trying → ∀ j call', s.calls j = some call' → call'.phase = .taking →
      call'.guid ≠ call.guid) : Consistent { s.goTo i phase with lockLock } :=
  hs.move (calls_goTo hcall phase) hfits hguard (fun _ _ _ _ => .refl _ _ _)
    (fun h => absurd h htaking) htrying

/-- Two calls do not create locks at once. -/
theorem Consistent.creates_unique (hs : Consistent s) (hguard : s.lockLock = some i) {j : ℕ}
    {call' : Call Guid} (hj : j ≠ i) (hcall' : s.calls j = some call') : ¬call'.phase.Creates := by
  intro h
  rw [(hs.fits j call' hcall').guarded h] at hguard
  exact hj (Option.some.inj hguard)

/-- Nobody tries a lock that a call finds free to try, or that it is about to release, while another
call is creating it. -/
theorem Consistent.not_creates (hs : Consistent s) (hcall : s.calls i = some call)
    (hphase : call.phase = .trying ∨ call.phase.Holds) {j : ℕ} {call' : Call Guid}
    (hcall' : s.calls j = some call') (h : call'.phase.Creates) : call'.guid ≠ call.guid := by
  intro hguid
  have hfits := hs.fits i call hcall
  have hfits' := hs.fits j call' hcall'
  cases hphase' : call'.phase with
  | creating =>
    rw [hphase',hguid] at hfits'
    rcases hphase with htrying | hholds
    · rw [htrying] at hfits
      exact hfits hfits'.2
    · rw [hfits.taken hholds] at hfits'
      cases hfits'.2
  | taking =>
    rcases hphase with htrying | hholds
    · exact hs.fresh j i call' call hcall' hcall hphase' htrying hguid
    · rw [hphase',hguid,hfits.taken hholds] at hfits'
      cases hfits'.2
  | _ => rw [hphase'] at h; exact h.elim

theorem Consistent.of_giveBack (hs : Consistent s) (hcall : s.calls i = some call) :
    Consistent (giveBack s i call) := by
  have hfits := hs.fits i call hcall
  have hkeep : ∀ j, j ≠ i → s.lockLock = some j → s.lockLock = some j := fun _ _ h => h
  unfold giveBack
  cases hphase : call.phase with
  | preparing => exact hs.goTo hcall trivial hkeep (by simp) (by simp)
  | processing =>
    rw [hphase] at hfits
    exact hs.goTo hcall hfits hkeep (by simp) (by simp)
  | _ => exact hs

theorem Consistent.of_raise (hs : Consistent s) (hcall : s.calls i = some call)
    (failure : Failure) : Consistent (raise s i call failure) := by
  have hfits := hs.fits i call hcall
  have hkeep : ∀ j, j ≠ i → s.lockLock = some j → s.lockLock = some j := fun _ _ h => h
  unfold raise
  cases hphase : call.phase with
  | entering | preparing | cancelling | makingDirs | reporting =>
    exact hs.goTo hcall trivial hkeep (by simp) (by simp)
  | processing =>
    rw [hphase] at hfits
    exact hs.goTo hcall hfits hkeep (by simp) (by simp)
  | _ => exact hs

variable [DecidableEq Guid]

/-- A step that also sets the lock, which no other call has and no other call is creating. -/
theorem Consistent.setLock (hs : Consistent s) (hcall : s.calls i = some call) {phase : Phase}
    {lock : Option ℕ} (hfits : Fits s.lockLock (some lock) i phase)
    (hfree : ∀ j, j ≠ i → s.locks call.guid ≠ some (some j))
    (hcreates : ∀ j call', j ≠ i → s.calls j = some call' → call'.phase.Creates →
      call'.guid ≠ call.guid)
    (htaking : phase = .taking → ∀ j call', s.calls j = some call' → call'.phase = .trying →
      call.guid ≠ call'.guid)
    (htrying : phase ≠ .trying) : Consistent ((s.setLock call.guid lock).goTo i phase) := by
  have hlocks : ((s.setLock call.guid lock).goTo i phase).locks =
      Function.update s.locks call.guid (some lock) := rfl
  refine hs.move (calls_goTo (s := s.setLock call.guid lock) hcall phase) ?_
    (fun _ _ h => h) ?_ htaking (fun h => absurd h htrying)
  · rw [hlocks,Function.update_self]
    exact hfits
  · intro j call' hj hcall'
    rw [hlocks]
    by_cases hguid : call'.guid = call.guid
    · rw [hguid,Function.update_self]
      refine ⟨fun _ => Option.some_ne_none _,fun h => absurd h (hfree j hj),fun h => ?_⟩
      exact absurd hguid (hcreates j call' hj hcall' h)
    · rw [Function.update_of_ne hguid]
      exact .refl _ _ _

theorem Consistent.of_waiting (hs : Consistent s) (hcall : s.calls i = some call)
    (hphase : call.phase = .waiting) : Consistent (goOn s i call) := by
  unfold goOn
  rw [hphase]
  dsimp only
  split
  · rename_i hfree
    exact hs.goTo hcall rfl (fun j _ h => by rw [hfree] at h; cases h) (by simp) (by simp)
  · exact hs

theorem Consistent.of_testing (hs : Consistent s) (hcall : s.calls i = some call)
    (hphase : call.phase = .testing) : Consistent (goOn s i call) := by
  have hfits := hs.fits i call hcall
  have hkeep : ∀ j, j ≠ i → s.lockLock = some j → s.lockLock = some j := fun _ _ h => h
  rw [hphase] at hfits
  unfold goOn
  rw [hphase]
  dsimp only
  split
  · rename_i hnone
    exact hs.goTo hcall ⟨hfits,hnone⟩ hkeep (by simp) (by simp)
  · rename_i hsome
    exact hs.goTo hcall ⟨hfits,hsome⟩ hkeep (by simp) (by simp)

/-- The lock that a call creates is not there yet, so that no other call can be trying it. -/
theorem Consistent.of_creating (hs : Consistent s) (hcall : s.calls i = some call)
    (hphase : call.phase = .creating) : Consistent (goOn s i call) := by
  have hfits := hs.fits i call hcall
  rw [hphase] at hfits
  unfold goOn
  rw [hphase]
  refine hs.setLock hcall ⟨hfits.1,rfl⟩ ?_ ?_ ?_ (by simp)
  · intro j _ h
    rw [hfits.2] at h
    cases h
  · intro j call' hj hcall' h
    exact absurd h (hs.creates_unique hfits.1 hj hcall')
  · -- a call that tries a lock found it there
    intro _ j call' hcall' htrying hguid
    have hfits' := hs.fits j call' hcall'
    rw [htrying,← hguid] at hfits'
    exact hfits' hfits.2

theorem Consistent.of_taking (hs : Consistent s) (hcall : s.calls i = some call)
    (hphase : call.phase = .taking) : Consistent (goOn s i call) := by
  have hfits := hs.fits i call hcall
  rw [hphase] at hfits
  unfold goOn
  rw [hphase]
  dsimp only
  rw [if_pos hfits.2]
  refine hs.setLock hcall ⟨hfits.1,rfl⟩ ?_ ?_ (by simp) (by simp)
  · intro j _ h
    rw [hfits.2] at h
    cases h
  · intro j call' hj hcall' h
    exact absurd h (hs.creates_unique hfits.1 hj hcall')

/-- A call gives `lock_lock` back, with the lock of its episode or to try it. -/
theorem Consistent.of_leaving (hs : Consistent s) (hcall : s.calls i = some call) {locked : Bool}
    (hphase : call.phase = .leaving locked) : Consistent (goOn s i call) := by
  have hfits := hs.fits i call hcall
  rw [hphase] at hfits
  have hguard : s.lockLock = some i := by
    cases locked with
    | false => exact hfits.1
    | true => exact hfits.1
  have hfree : ∀ j, j ≠ i → s.lockLock = some j → (none : Option ℕ) = some j := by
    intro j hj h
    rw [hguard] at h
    exact absurd (Option.some.inj h).symm hj
  unfold goOn
  rw [hphase]
  cases locked with
  | true => exact hs.goTo hcall hfits.2 hfree (by simp) (by simp)
  | false =>
    refine hs.goTo hcall hfits.2 hfree (by simp) ?_
    intro _ j call' hcall' htaking
    have hj : j ≠ i := by
      rintro rfl
      rw [hcall] at hcall'
      cases hcall'
      rw [hphase] at htaking
      cases htaking
    exact absurd (htaking ▸ trivial) (hs.creates_unique hguard hj hcall')

theorem Consistent.of_trying (hs : Consistent s) (hcall : s.calls i = some call)
    (hphase : call.phase = .trying) : Consistent (goOn s i call) := by
  have hkeep : ∀ j, j ≠ i → s.lockLock = some j → s.lockLock = some j := fun _ _ h => h
  unfold goOn
  rw [hphase]
  dsimp only
  split
  · exact hs.goTo hcall trivial hkeep (by simp) (by simp)
  · rename_i hfree
    refine hs.setLock hcall rfl ?_ ?_ (by simp) (by simp)
    · intro j _ h
      rw [hfree] at h
      cases h
    · intro j call' _ hcall' h
      exact hs.not_creates hcall (.inl hphase) hcall' h
  · exact hs.goTo hcall trivial hkeep (by simp) (by simp)

theorem Consistent.of_releasing (hs : Consistent s) (hcall : s.calls i = some call)
    {outcome : Outcome} (hphase : call.phase = .releasing outcome) : Consistent (goOn s i call) := by
  have hholds : call.phase.Holds := by rw [hphase]; trivial
  have hover := outcome.next_isOver
  unfold goOn
  rw [hphase]
  refine hs.setLock hcall (hover.fits _ _ _) ?_ ?_ ?_ ?_
  · intro j hj h
    rw [(hs.fits i call hcall).taken hholds] at h
    exact hj (Option.some.inj (Option.some.inj h)).symm
  · intro j call' _ hcall' h
    exact hs.not_creates hcall (.inr hholds) hcall' h
  · intro h
    rw [h] at hover
    exact hover.elim
  · intro h
    rw [h] at hover
    exact hover.elim

theorem Consistent.of_goOn (hs : Consistent s) (hcall : s.calls i = some call) :
    Consistent (goOn s i call) := by
  have hfits := hs.fits i call hcall
  have hkeep : ∀ j, j ≠ i → s.lockLock = some j → s.lockLock = some j := fun _ _ h => h
  cases hphase : call.phase with
  | waiting => exact hs.of_waiting hcall hphase
  | testing => exact hs.of_testing hcall hphase
  | creating => exact hs.of_creating hcall hphase
  | taking => exact hs.of_taking hcall hphase
  | leaving locked => exact hs.of_leaving hcall hphase
  | trying => exact hs.of_trying hcall hphase
  | releasing outcome => exact hs.of_releasing hcall hphase
  | processing | ended =>
    rw [goOn,hphase]
    exact hs
  | entering | preparing | reporting =>
    rw [goOn,hphase]
    exact hs.goTo hcall trivial hkeep (by simp) (by simp)
  | cancelling | makingDirs =>
    rw [goOn,hphase]
    rw [hphase] at hfits
    exact hs.goTo hcall hfits hkeep (by simp) (by simp)
  | looking outcome =>
    rw [goOn,hphase]
    rw [hphase] at hfits
    dsimp only
    rw [if_neg (by rw [hfits]; simp)]
    exact hs.goTo hcall hfits hkeep (by simp) (by simp)
  | asking outcome =>
    rw [goOn,hphase]
    rw [hphase] at hfits
    dsimp only
    rw [if_pos (by rw [hfits]; rfl)]
    exact hs.goTo hcall hfits hkeep (by simp) (by simp)

theorem consistent_step (hs : Consistent s) (l : Label Guid) : Consistent (step s l) := by
  cases l with
  | call i guid =>
    rw [step]
    split
    · exact hs
    · exact hs.move rfl trivial (fun _ _ h => h) (fun _ _ _ _ => .refl _ _ _) (by simp) (by simp)
  | goOn i =>
    cases hcall : s.calls i with
    | none => rw [step,hcall]; exact hs
    | some call => rw [step,hcall]; exact hs.of_goOn hcall
  | giveBack i =>
    cases hcall : s.calls i with
    | none => rw [step,hcall]; exact hs
    | some call => rw [step,hcall]; exact hs.of_giveBack hcall
  | raise i failure =>
    cases hcall : s.calls i with
    | none => rw [step,hcall]; exact hs
    | some call => rw [step,hcall]; exact hs.of_raise hcall failure

end Podly.EpisodeLocks
