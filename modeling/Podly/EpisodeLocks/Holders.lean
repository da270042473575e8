import Podly.EpisodeLocks.Consistent

/-! In which runs the lock of an episode is released exactly by its holder. -/
namespace Podly.EpisodeLocks
open Store
open AutoRetry (Failure)

variable {Guid : Type*} [DecidableEq Guid] {s s' : State Guid} {i : ℕ} {call : Call Guid}

/-! What a step does to the lock of its call's episode -/

/-- What a step of a call does; it fails while it sets up only under a condition. -/
inductive Effect (s : State Guid) (i : ℕ) (Fails : Prop) : State Guid → Prop
  | idle : Effect s i Fails s
  | begins (guid : Guid) (hnew : s.calls i = none) :
    Effect s i Fails { s with calls := Function.update s.calls i (some ⟨guid,.entering⟩) }
  | moves {call : Call Guid} (hcall : s.calls i = some call) {phase : Phase} {lockLock : Option ℕ}
    (hholds : phase.Holds ↔ call.phase.Holds) (hover : call.phase.IsOver → phase.IsOver) :
    Effect s i Fails { s.goTo i phase with lockLock }
  | creates {call : Call Guid} (hcall : s.calls i = some call) (hlock : s.locks call.guid = none)
    {phase : Phase} : Effect s i Fails ((s.setLock call.guid none).goTo i phase)
  | takes {call : Call Guid} (hcall : s.calls i = some call)
    (hlock : s.locks call.guid = some none) {phase : Phase} (hphase : phase.Holds) :
    Effect s i Fails ((s.setLock call.guid (some i)).goTo i phase)
  | releases {call : Call Guid} (hcall : s.calls i = some call)
    (hlock : s.locks call.guid = some (some i)) (hholds : call.phase.Holds) {phase : Phase} :
    Effect s i Fails ((s.setLock call.guid none).goTo i phase)
  | leaks {call : Call Guid} (hcall : s.calls i = some call) (hsetsUp : call.phase.SetsUp)
    (hfails : Fails) (failure : Failure) : Effect s i Fails (s.goTo i (.reporting failure))

variable {Fails : Prop}

theorem effect_goOn (hs : Consistent s) (hcall : s.calls i = some call) :
    Effect s i Fails (goOn s i call) := by
  have hfits := hs.fits i call hcall
  unfold goOn
  cases hphase : call.phase with
  | entering | preparing | cancelling | makingDirs | reporting =>
    refine .moves hcall ?_ ?_ <;> simp [hphase,Phase.Holds,Phase.IsOver]
  | waiting =>
    dsimp only
    split
    · refine .moves hcall ?_ ?_ <;> simp [hphase,Phase.Holds,Phase.IsOver]
    · exact .idle
  | testing =>
    dsimp only
    split <;> refine .moves hcall ?_ ?_ <;> simp [hphase,Phase.Holds,Phase.IsOver]
  | creating =>
    rw [hphase] at hfits
    exact .creates hcall hfits.2
  | taking =>
    rw [hphase] at hfits
    dsimp only
    rw [if_pos hfits.2]
    exact .takes hcall hfits.2 trivial
  | leaving locked =>
    cases locked <;> refine .moves hcall ?_ ?_ <;> simp [hphase,Phase.Holds,Phase.IsOver]
  | trying =>
    dsimp only
    split
    · refine .moves hcall ?_ ?_ <;> simp [hphase,Phase.Holds,Phase.IsOver]
    · rename_i hfree
      exact .takes hcall hfree trivial
    · refine .moves hcall ?_ ?_ <;> simp [hphase,Phase.Holds,Phase.IsOver]
  | looking outcome =>
    rw [hphase] at hfits
    dsimp only
    rw [if_neg (by rw [hfits]; simp)]
    refine .moves hcall ?_ ?_ <;> simp [hphase,Phase.Holds,Phase.IsOver]
  | asking outcome =>
    rw [hphase] at hfits
    dsimp only
    rw [if_pos (by rw [hfits]; rfl)]
    refine .moves hcall ?_ ?_ <;> simp [hphase,Phase.Holds,Phase.IsOver]
  | releasing outcome =>
    rw [hphase] at hfits
    exact .releases hcall hfits (by rw [hphase]; trivial)
  | processing | ended => exact .idle

theorem effect_giveBack (hcall : s.calls i = some call) :
    Effect s i Fails (giveBack s i call) := by
  unfold giveBack
  cases hphase : call.phase with
  | preparing | processing =>
    refine .moves hcall ?_ ?_ <;> simp [hphase,Phase.Holds,Phase.IsOver]
  | _ => exact .idle

theorem effect_raise (hcall : s.calls i = some call) (hfails : call.phase.SetsUp → Fails)
    (failure : Failure) : Effect s i Fails (raise s i call failure) := by
  unfold raise
  cases hphase : call.phase with
  | entering | preparing | processing | reporting =>
    refine .moves hcall ?_ ?_ <;> simp [hphase,Phase.Holds,Phase.IsOver]
  | cancelling | makingDirs =>
    have hsetsUp : call.phase.SetsUp := by rw [hphase]; trivial
    exact .leaks hcall hsetsUp (hfails hsetsUp) failure
  | _ => exact .idle

theorem effect_step (hs : Consistent s) (l : Label Guid) :
    Effect s l.caller (¬SetUpGoesThrough s l) (step s l) := by
  cases l with
  | call i guid =>
    rw [step]
    split
    · exact .idle
    · rename_i hnew
      have hnone : s.calls i = none := by simpa using hnew
      exact .begins guid hnone
  | goOn i =>
    cases hcall : s.calls i with
    | none => rw [step,hcall]; exact .idle
    | some call => rw [step,hcall]; exact effect_goOn hs hcall
  | giveBack i =>
    cases hcall : s.calls i with
    | none => rw [step,hcall]; exact .idle
    | some call => rw [step,hcall]; exact effect_giveBack hcall
  | raise i failure =>
    cases hcall : s.calls i with
    | none => rw [step,hcall]; exact .idle
    | some call =>
      rw [step,hcall]
      exact effect_raise hcall (fun hsetsUp hgoes => hgoes call hcall hsetsUp) failure

/-! What the effects keep -/

theorem locks_setLock_goTo (guid guid' : Guid) (lock : Option ℕ) (phase : Phase) :
    ((s.setLock guid lock).goTo i phase).locks guid' =
      if guid' = guid then some lock else s.locks guid' := Function.update_apply _ _ _ _

/-- The locks that other calls have, and their phases, are not touched. -/
theorem Effect.frame (h : Effect s i Fails s') : (∀ j, j ≠ i → s'.calls j = s.calls j) ∧
    ∀ j, j ≠ i → ∀ guid, s'.locks guid = some (some j) ↔ s.locks guid = some (some j) := by
  have hset : ∀ (call : Call Guid) (phase : Phase) (lock : Option ℕ),
      (∀ j, j ≠ i → some lock ≠ some (some j)) → (∀ j, j ≠ i → s.locks call.guid ≠ some (some j)) →
      ∀ j, j ≠ i → ∀ guid, ((s.setLock call.guid lock).goTo i phase).locks guid = some (some j) ↔
        s.locks guid = some (some j) := by
    intro call phase lock hnew hold j hj guid
    rw [locks_setLock_goTo]
    split
    · rename_i hguid
      rw [hguid]
      exact iff_of_false (hnew j hj) (hold j hj)
    · rfl
  cases h with
  | idle => exact ⟨fun _ _ => rfl,fun _ _ _ => Iff.rfl⟩
  | begins guid hnew => exact ⟨fun j hj => Function.update_of_ne hj _ _,fun _ _ _ => Iff.rfl⟩
  | moves hcall => exact ⟨fun j hj => Function.update_of_ne hj _ _,fun _ _ _ => Iff.rfl⟩
  | leaks hcall => exact ⟨fun j hj => Function.update_of_ne hj _ _,fun _ _ _ => Iff.rfl⟩
  | creates hcall hlock =>
    refine ⟨fun j hj => Function.update_of_ne hj _ _,hset _ _ _ ?_ ?_⟩
    · simp
    · simp [hlock]
  | takes hcall hlock =>
    refine ⟨fun j hj => Function.update_of_ne hj _ _,hset _ _ _ ?_ ?_⟩
    · simpa using fun j hj => Ne.symm hj
    · simp [hlock]
  | releases hcall hlock =>
    refine ⟨fun j hj => Function.update_of_ne hj _ _,hset _ _ _ ?_ ?_⟩
    · simp
    · simpa [hlock] using fun j hj => Ne.symm hj

/-- Every lock that is taken has its taker in the section of its episode. -/
def Held (s : State Guid) : Prop :=
  ∀ i guid, s.locks guid = some (some i) →
    ∃ call, s.calls i = some call ∧ call.guid = guid ∧ call.phase.Holds

/-- The call has failed and has its episode's lock. -/
def Lost (s : State Guid) (i : ℕ) : Prop :=
  ∃ call, s.calls i = some call ∧ s.locks call.guid = some (some i) ∧ call.phase.IsOver

omit [DecidableEq Guid] in
theorem calls_goTo_self (hcall : s.calls i = some call) (phase : Phase) :
    (s.goTo i phase).calls i = some { call with phase } := by
  rw [calls_goTo hcall,Function.update_self]

/-- A call that sets its lock free has no other lock either. -/
theorem not_taken_setLock (hheld : Held s) (hcall : s.calls i = some call) {phase : Phase}
    {lock : Option ℕ} (hlock : lock ≠ some i) {guid : Guid} :
    ((s.setLock call.guid lock).goTo i phase).locks guid ≠ some (some i) := by
  intro htaken
  rw [locks_setLock_goTo] at htaken
  split at htaken
  · exact hlock (Option.some.inj htaken)
  · rename_i hguid
    obtain ⟨call',hcall',hguid',-⟩ := hheld i guid htaken
    cases hcall.symm.trans hcall'
    exact hguid hguid'.symm

theorem releasedByTaker_step (hs : Consistent s) (l : Label Guid) : ReleasedByTaker s l := by
  intro guid j htaken hchanged
  by_contra hj
  have hframe := (effect_step hs l).frame.2 j (Ne.symm hj) guid
  exact hchanged (hframe.mpr htaken)

theorem Effect.held (h : Effect s i Fails s') (hfails : ¬Fails) (hheld : Held s) : Held s' := by
  intro j guid htaken
  by_cases hj : j = i
  · subst hj
    cases h with
    | idle => exact hheld j guid htaken
    | begins guid' hnew =>
      obtain ⟨call,hcall,-⟩ := hheld j guid htaken
      rw [hnew] at hcall
      cases hcall
    | moves hcall hholds =>
      obtain ⟨call,hcall',hguid,hphase⟩ := hheld j guid htaken
      cases hcall.symm.trans hcall'
      exact ⟨_,calls_goTo_self hcall _,hguid,hholds.mpr hphase⟩
    | creates hcall => exact absurd htaken (not_taken_setLock hheld hcall (by simp))
    | takes hcall hlock hphase =>
      rw [locks_setLock_goTo] at htaken
      split at htaken
      · rename_i hguid
        exact ⟨_,calls_goTo_self hcall _,hguid.symm,hphase⟩
      · rename_i hguid
        obtain ⟨call,hcall',hguid',-⟩ := hheld j guid htaken
        cases hcall.symm.trans hcall'
        exact absurd hguid'.symm hguid
    | releases hcall => exact absurd htaken (not_taken_setLock hheld hcall (by simp))
    | leaks hcall hsetsUp h => exact absurd h hfails
  · rw [h.frame.1 j hj]
    exact hheld j guid ((h.frame.2 j hj guid).mp htaken)

theorem Effect.lost (h : Effect s i Fails s') {j : ℕ} (hlost : Lost s j) : Lost s' j := by
  obtain ⟨call,hcall,htaken,hover⟩ := hlost
  by_cases hj : j = i
  · subst hj
    cases h with
    | idle => exact ⟨call,hcall,htaken,hover⟩
    | begins guid hnew =>
      rw [hnew] at hcall
      cases hcall
    | moves hcall' hholds hover' =>
      cases hcall.symm.trans hcall'
      exact ⟨_,calls_goTo_self hcall _,htaken,hover' hover⟩
    | creates hcall' hlock =>
      cases hcall.symm.trans hcall'
      cases htaken.symm.trans hlock
    | takes hcall' hlock hphase =>
      cases hcall.symm.trans hcall'
      cases htaken.symm.trans hlock
    | releases hcall' hlock hholds =>
      cases hcall.symm.trans hcall'
      exact absurd hholds hover.not_holds
    | leaks hcall' hsetsUp =>
      cases hcall.symm.trans hcall'
      exact absurd hsetsUp.holds hover.not_holds
  · refine ⟨call,?_,(h.frame.2 j hj call.guid).mpr htaken,hover⟩
    rw [h.frame.1 j hj,hcall]

/-- An error while a call sets up leaves it with its lock. -/
theorem lost_of_fails (hs : Consistent s) {l : Label Guid} (hl : ¬SetUpGoesThrough s l) :
    Lost (step s l) l.caller := by
  cases l with
  | raise i failure =>
    simp only [SetUpGoesThrough,not_forall,not_not] at hl
    obtain ⟨call,hcall,hsetsUp⟩ := hl
    have htaken := (hs.fits i call hcall).taken hsetsUp.holds
    have hstep : step s (.raise i failure) = s.goTo i (.reporting failure) := by
      rw [step,hcall,Option.elim_some,raise]
      cases hphase : call.phase with
      | preparing | cancelling | makingDirs => rfl
      | _ => rw [hphase] at hsetsUp; cases hsetsUp
    rw [hstep]
    exact ⟨_,calls_goTo_self hcall _,htaken,trivial⟩
  | _ => exact absurd trivial hl

/-! Runs -/

theorem consistent_run (ls : List (Label Guid)) : Consistent (run step start ls) :=
  run_invariant (I := Consistent) (fun _ l hs => consistent_step hs l) consistent_start ls

theorem Consistent.allSteps_releasedByTaker (hs : Consistent s) (ls : List (Label Guid)) :
    AllSteps step ReleasedByTaker s ls := by
  induction ls generalizing s with
  | nil => trivial
  | cons l ls ih => exact ⟨releasedByTaker_step hs l,ih (consistent_step hs l)⟩

theorem held_run {ls : List (Label Guid)} (h : AllSteps step SetUpGoesThrough start ls) :
    Held (run step start ls) := by
  have hboth : Consistent (run step start ls) ∧ Held (run step start ls) := by
    refine AllSteps.invariant (I := fun s => Consistent s ∧ Held s) ?_ ⟨consistent_start,?_⟩ h
    · intro s l hl hs
      exact ⟨consistent_step hs.1 l,(effect_step hs.1 l).held (fun hfails => hfails hl) hs.2⟩
    · intro i guid htaken
      cases htaken
  exact hboth.2

omit [DecidableEq Guid] in
theorem Held.leftFree (hs : Held s) : LeftFree s := by
  intro i call hcall hended guid htaken
  obtain ⟨call',hcall',-,hholds⟩ := hs i guid htaken
  cases hcall.symm.trans hcall'
  cases hphase : call.phase with
  | ended => rw [hphase] at hholds; exact hholds
  | _ => rw [hphase] at hended; exact hended

theorem releasedExactly_of_setUp {ls : List (Label Guid)}
    (h : AllSteps step SetUpGoesThrough start ls) : ReleasedExactly ls := by
  refine ⟨?_,consistent_start.allSteps_releasedByTaker ls⟩
  rintro before ⟨after,rfl⟩
  exact ⟨(consistent_run before).atMostOne,(held_run (allSteps_append.mp h).1).leftFree⟩

theorem Lost.run {i : ℕ} (hs : Consistent s) (hlost : Lost s i) (ls : List (Label Guid)) :
    Lost (Store.run step s ls) i := by
  have hboth : Consistent (Store.run step s ls) ∧ Lost (Store.run step s ls) i := by
    refine run_invariant (I := fun s => Consistent s ∧ Lost s i) ?_ ⟨hs,hlost⟩ ls
    intro s l hs
    exact ⟨consistent_step hs.1 l,(effect_step hs.1 l).lost hs.2⟩
  exact hboth.2

/-- The call that has failed is at its end with the next step, and has its lock still. -/
theorem Lost.not_leftFree {i : ℕ} (hlost : Lost s i) : ¬LeftFree (step s (.goOn i)) := by
  obtain ⟨call,hcall,htaken,hover⟩ := hlost
  intro hfree
  rw [step,hcall,Option.elim_some,goOn] at hfree
  cases hphase : call.phase with
  | reporting failure =>
    rw [hphase] at hfree
    exact hfree i _ (calls_goTo_self hcall _) trivial call.guid htaken
  | ended outcome =>
    rw [hphase] at hfree
    exact hfree i call hcall (hphase ▸ trivial) call.guid htaken
  | _ => rw [hphase] at hover; exact hover

/-- The lock of an episode is released exactly by its holder, however the calls of a run go on to
their ends, if and only if no call fails while it cancels the older jobs or makes the directories. -/
theorem releasedExactly_iff (ls : List (Label Guid)) :
    (∀ more, (∀ l ∈ more, ∃ i, l = .goOn i) → ReleasedExactly (ls ++ more)) ↔
      AllSteps step SetUpGoesThrough start ls := by
  constructor
  · intro h
    rw [allSteps_iff_split]
    rintro before l after rfl
    by_contra hl
    have hlost := lost_of_fails (consistent_run before) hl
    have hstep : Consistent (step (run step start before) l) :=
      consistent_step (consistent_run before) l
    have hend := h [.goOn l.caller] (by simp)
    have hfree := (hend.1 _ (List.prefix_refl _)).2
    rw [run_append,run_append,run_cons] at hfree
    exact (hlost.run hstep after).not_leftFree hfree
  · intro h more hmore
    refine releasedExactly_of_setUp (allSteps_append.mpr ⟨h,?_⟩)
    rw [allSteps_iff_split]
    rintro before l after rfl
    obtain ⟨i,rfl⟩ := hmore l (by simp)
    trivial

namespace NoSpace

/-- The directories of the episode cannot be made. -/
def calls : List (Label String) :=
  .call 0 "episode" :: List.replicate 8 (.goOn 0) ++
    [.raise 0 (.other "[Errno 28] No space left on device"),.goOn 0]

theorem not_releasedExactly : ¬∀ ls : List (Label String), ReleasedExactly ls := by
  intro h
  have hfree := ((h calls).1 calls (List.prefix_refl calls)).2
  exact hfree 0 ⟨"episode",.ended (.raised (.other "[Errno 28] No space left on device"))⟩ rfl
    trivial "episode" rfl

end NoSpace

end Podly.EpisodeLocks
