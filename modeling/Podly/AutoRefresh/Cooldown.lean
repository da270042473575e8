import Mathlib.Algebra.Order.AbsoluteValue.Basic
import Mathlib.Tactic.Linarith
import Podly.AutoRefresh.Bounds

/-! When the refreshes of a feed are kicked off at least the cooldown apart: a slot that is given back
takes with it when the feed was kicked off before. -/
namespace Podly.AutoRefresh
open Store

/-- The read has a slot that it has not given back. -/
def Phase.HasSlot : Phase → Prop
  | .admitted | .marked | .unstarted | .running | .refreshed => True
  | _ => False

def Keeps (s : State) (i feedId : ℕ) (now : ℚ) : Prop :=
  ∃ r, s.reads i = some r ∧ r.feedId = feedId ∧ r.now = now ∧ r.phase.HasSlot

/-- The slots of a feed are apart, and the slot that is reserved, or the one that was given back last,
is later than the others by the cooldown. -/
structure Spaced (s : State) : Prop where
  apart : ∀ i j feedId now now', i ≠ j → Keeps s i feedId now → Keeps s j feedId now' →
    autoRefreshCooldownSeconds ≤ |now - now'|
  last : ∀ i feedId now slot, Keeps s i feedId now → s.lastKickoff feedId = some slot →
    now = slot ∨ now + autoRefreshCooldownSeconds ≤ slot
  none : ∀ i feedId now, Keeps s i feedId now → s.lastKickoff feedId = none →
    ∃ slot, s.givenBack feedId = some slot ∧ now + autoRefreshCooldownSeconds ≤ slot

/-- What a careful step does to the slots: nothing, or one read reserves a slot or gives its own back. -/
inductive SlotEffect (s t : State) : Prop
  | none (last : t.lastKickoff = s.lastKickoff) (givenBack : t.givenBack = s.givenBack)
      (keeps : ∀ j feedId now, Keeps t j feedId now → Keeps s j feedId now)
  | reserve (i feedId : ℕ) (now : ℚ)
      (free : ∀ slot, s.lastKickoff feedId = some slot → slot + autoRefreshCooldownSeconds ≤ now)
      (late : s.lastKickoff feedId = none → ∀ slot, s.givenBack feedId = some slot → slot ≤ now)
      (last : t.lastKickoff = Function.update s.lastKickoff feedId (some now))
      (givenBack : t.givenBack = s.givenBack)
      (keeps : ∀ j feedId' now', Keeps t j feedId' now' →
        j ≠ i ∧ Keeps s j feedId' now' ∨ j = i ∧ feedId' = feedId ∧ now' = now)
  | giveBack (i feedId : ℕ) (now : ℚ) (own : Keeps s i feedId now)
      (slot : ∀ slot, s.lastKickoff feedId = some slot → slot = now)
      (last : t.lastKickoff = Function.update s.lastKickoff feedId none)
      (givenBack : t.givenBack = Function.update s.givenBack feedId
        (s.lastKickoff feedId <|> s.givenBack feedId))
      (keeps : ∀ j feedId' now', Keeps t j feedId' now' → j ≠ i ∧ Keeps s j feedId' now')

section
variable {s t : State} {i : ℕ} {r r' : Read}

theorem keeps_update (ht : t.reads = Function.update s.reads i (some r')) {j feedId : ℕ} {now : ℚ} :
    Keeps t j feedId now ↔ (j ≠ i ∧ Keeps s j feedId now) ∨
      (j = i ∧ r'.feedId = feedId ∧ r'.now = now ∧ r'.phase.HasSlot) := by
  unfold Keeps
  rw [ht]
  by_cases hj : j = i
  · subst hj
    simp [Function.update_self]
  · simp [hj]

theorem keeps_iff (hr : s.reads i = some r) {feedId : ℕ} {now : ℚ} :
    Keeps s i feedId now ↔ r.feedId = feedId ∧ r.now = now ∧ r.phase.HasSlot := by
  unfold Keeps
  rw [hr]
  simp

theorem SlotEffect.refl (s : State) : SlotEffect s s := .none rfl rfl (fun _ _ _ h => h)

/-- A read that goes on with the slot it has, or without one. -/
theorem SlotEffect.of_same (hlast : t.lastKickoff = s.lastKickoff)
    (hgiven : t.givenBack = s.givenBack)
    (ht : t.reads = Function.update s.reads i (some r'))
    (hold : ∀ feedId now, r'.feedId = feedId ∧ r'.now = now ∧ r'.phase.HasSlot →
      Keeps s i feedId now) : SlotEffect s t := by
  refine .none hlast hgiven (fun j feedId now h => ?_)
  obtain ⟨-,h⟩ | ⟨rfl,h⟩ := (keeps_update ht).mp h
  · exact h
  · exact hold feedId now h

/-- A read that ends and gives a slot back. -/
theorem SlotEffect.of_giveBack (hr : s.reads i = some r) (hslot : r.phase.HasSlot)
    (hown : ∀ slot ∈ s.lastKickoff r.feedId, slot = r.now)
    (hlast : t.lastKickoff = (s.giveBack r.feedId).lastKickoff)
    (hgiven : t.givenBack = (s.giveBack r.feedId).givenBack)
    (ht : t.reads = Function.update s.reads i (some { r with phase := .ended })) :
    SlotEffect s t := by
  refine .giveBack i r.feedId r.now ⟨r,hr,rfl,rfl,hslot⟩ hown hlast hgiven (fun j feedId now h => ?_)
  obtain h | ⟨-,-,-,hended⟩ := (keeps_update ht).mp h
  · exact h
  · exact hended.elim

theorem slotEffect_step {l : Label} (hcareful : Careful s l) : SlotEffect s (step s l) := by
  cases l with
  | tick now => exact .none rfl rfl (fun _ _ _ h => h)
  | read i feedId =>
    change SlotEffect s (if s.reads i = none then _ else s)
    split
    · exact .of_same rfl rfl rfl (fun _ _ h => h.2.2.elim)
    · exact .refl s
  | check i =>
    refine act_cases (.refl s) (fun r hr hphase => ?_)
    unfold shouldKickoffAsyncRefresh
    split
    · rename_i hkickoff
      refine .reserve i r.feedId r.now (fun slot hslot => ?_)
        (fun hnone slot hslot => hcareful r hr hphase hkickoff hnone slot hslot) rfl rfl
        (fun j feedId now h => ?_)
      · have hcool := not_lt.mp (hkickoff.2 slot hslot)
        linarith
      · obtain h | ⟨rfl,hfeed,hnow,-⟩ := (@keeps_update s _ i { r with phase := .admitted } rfl).mp h
        · exact Or.inl h
        · exact Or.inr ⟨rfl,hfeed.symm,hnow.symm⟩
    · exact .of_same rfl rfl rfl (fun _ _ h => h.2.2.elim)
  | spawn i =>
    refine act_cases (.refl s) (fun r hr hphase => ?_)
    unfold spawnAsyncRefresh
    split
    · exact .of_same rfl rfl rfl (fun _ _ h => h.2.2.elim)
    · rename_i hnew
      split
      · rename_i hfull
        exact .of_giveBack hr (by rw [hphase]; trivial) (hcareful r hr hphase hnew hfull) rfl rfl rfl
      · refine .of_same rfl rfl rfl (fun feedId now h => (keeps_iff hr).mpr ?_)
        exact ⟨h.1,h.2.1,by rw [hphase]; trivial⟩
  | start i starts =>
    refine act_cases (.refl s) (fun r hr hphase => ?_)
    refine .of_same rfl rfl rfl (fun feedId now h => (keeps_iff hr).mpr ?_)
    exact ⟨h.1,h.2.1,by rw [hphase]; trivial⟩
  | unmark i =>
    refine act_cases (.refl s) (fun r hr hphase => ?_)
    exact .of_giveBack hr (by rw [hphase]; trivial) (hcareful r hr hphase) rfl rfl rfl
  | finish i raises =>
    refine act_cases (.refl s) (fun r hr hphase => ?_)
    refine .of_same rfl rfl rfl (fun feedId now h => (keeps_iff hr).mpr ?_)
    exact ⟨h.1,h.2.1,by rw [hphase]; trivial⟩

theorem cooldown_pos : 0 < autoRefreshCooldownSeconds := by
  unfold autoRefreshCooldownSeconds
  norm_num

theorem cooldown_le_abs {now now' : ℚ} (h : now + autoRefreshCooldownSeconds ≤ now') :
    autoRefreshCooldownSeconds ≤ |now - now'| ∧ autoRefreshCooldownSeconds ≤ |now' - now| := by
  have hdiff : autoRefreshCooldownSeconds ≤ |now' - now| :=
    le_trans (by linarith) (le_abs_self _)
  exact ⟨by rwa [abs_sub_comm],hdiff⟩

/-- A slot that is reserved is late enough for the others. -/
theorem Spaced.late (h : Spaced s) {feedId j : ℕ} {now now' : ℚ}
    (hfree : ∀ slot, s.lastKickoff feedId = some slot → slot + autoRefreshCooldownSeconds ≤ now)
    (hlate : s.lastKickoff feedId = Option.none → ∀ slot, s.givenBack feedId = some slot →
      slot ≤ now) (hkeeps : Keeps s j feedId now') : now' + autoRefreshCooldownSeconds ≤ now := by
  have hpos := cooldown_pos
  cases hlast : s.lastKickoff feedId with
  | none =>
    obtain ⟨slot,hslot,hle⟩ := h.none j feedId now' hkeeps hlast
    exact hle.trans (hlate hlast slot hslot)
  | some slot =>
    have hnow := hfree slot hlast
    obtain rfl | hle := h.last j feedId now' slot hkeeps hlast
    · exact hnow
    · linarith

theorem Spaced.of_effect (h : Spaced s) (heffect : SlotEffect s t) : Spaced t := by
  cases heffect with
  | none hlast hgiven hkeeps =>
    refine ⟨fun i j feedId now now' hne hi hj => ?_,fun i feedId now slot hi hslot => ?_,
      fun i feedId now hi hnone => ?_⟩
    · exact h.apart i j feedId now now' hne (hkeeps _ _ _ hi) (hkeeps _ _ _ hj)
    · exact h.last i feedId now slot (hkeeps _ _ _ hi) (by rwa [← hlast])
    · rw [hgiven]
      exact h.none i feedId now (hkeeps _ _ _ hi) (by rwa [← hlast])
  | reserve i feedId now hfree hlate hlast hgiven hkeeps =>
    refine ⟨fun j k feedId' now' now'' hne hj hk => ?_,fun j feedId' now' slot hj hslot => ?_,
      fun j feedId' now' hj hnone => ?_⟩
    · obtain ⟨hji,hj⟩ | ⟨rfl,rfl,rfl⟩ := hkeeps _ _ _ hj
      · obtain ⟨hki,hk⟩ | ⟨rfl,rfl,rfl⟩ := hkeeps _ _ _ hk
        · exact h.apart j k feedId' now' now'' hne hj hk
        · exact (cooldown_le_abs (h.late hfree hlate hj)).1
      · obtain ⟨hki,hk⟩ | ⟨rfl,-,-⟩ := hkeeps _ _ _ hk
        · exact (cooldown_le_abs (h.late hfree hlate hk)).2
        · exact absurd rfl hne
    · rw [hlast] at hslot
      by_cases hfeed : feedId' = feedId
      · subst hfeed
        rw [Function.update_self] at hslot
        obtain rfl := Option.some.inj hslot
        obtain ⟨-,hj⟩ | ⟨-,-,rfl⟩ := hkeeps _ _ _ hj
        · exact Or.inr (h.late hfree hlate hj)
        · exact Or.inl rfl
      · rw [Function.update_of_ne hfeed] at hslot
        obtain ⟨-,hj⟩ | ⟨-,hsame,-⟩ := hkeeps _ _ _ hj
        · exact h.last j feedId' now' slot hj hslot
        · exact absurd hsame hfeed
    · rw [hlast] at hnone
      rw [hgiven]
      by_cases hfeed : feedId' = feedId
      · subst hfeed
        rw [Function.update_self] at hnone
        cases hnone
      · rw [Function.update_of_ne hfeed] at hnone
        obtain ⟨-,hj⟩ | ⟨-,hsame,-⟩ := hkeeps _ _ _ hj
        · exact h.none j feedId' now' hj hnone
        · exact absurd hsame hfeed
  | giveBack i feedId now hown hslot hlast hgiven hkeeps =>
    refine ⟨fun j k feedId' now' now'' hne hj hk => ?_,fun j feedId' now' slot hj hslot' => ?_,
      fun j feedId' now' hj hnone => ?_⟩
    · exact h.apart j k feedId' now' now'' hne (hkeeps _ _ _ hj).2 (hkeeps _ _ _ hk).2
    · rw [hlast] at hslot'
      by_cases hfeed : feedId' = feedId
      · subst hfeed
        rw [Function.update_self] at hslot'
        cases hslot'
      · rw [Function.update_of_ne hfeed] at hslot'
        exact h.last j feedId' now' slot (hkeeps _ _ _ hj).2 hslot'
    · obtain ⟨hne,hj⟩ := hkeeps _ _ _ hj
      rw [hlast] at hnone
      rw [hgiven]
      by_cases hfeed : feedId' = feedId
      · subst hfeed
        rw [Function.update_self]
        cases hlast' : s.lastKickoff feedId' with
        | none => exact h.none j feedId' now' hj hlast'
        | some slot =>
          obtain rfl := hslot slot hlast'
          refine ⟨slot,rfl,?_⟩
          obtain rfl | hle := h.last j feedId' now' slot hj hlast'
          · have hapart := h.apart j i feedId' now' now' hne hj hown
            rw [sub_self,abs_zero] at hapart
            exact absurd hapart (not_le.mpr cooldown_pos)
          · exact hle
      · rw [Function.update_of_ne hfeed] at hnone ⊢
        exact h.none j feedId' now' hj hnone

theorem spaced_start (clock : ℚ) : Spaced (start clock) := by
  have hnone : ∀ i feedId now, ¬Keeps (start clock) i feedId now := by
    rintro i feedId now ⟨r,hr,-⟩
    cases hr
  exact ⟨fun i _ _ _ _ _ h => absurd h (hnone i _ _),fun i _ _ _ h => absurd h (hnone i _ _),
    fun i _ _ h => absurd h (hnone i _ _)⟩

theorem Spaced.kickoffsApart (h : Spaced s) : KickoffsApart s := by
  have hslot : ∀ {phase : Phase}, phase.Ran → phase.HasSlot := by
    intro phase hran
    cases phase <;> first | exact hran.elim | trivial
  intro i j r r' hr hr' hne hran hran' hfeed
  exact h.apart i j r.feedId r.now r'.now hne ⟨r,hr,rfl,rfl,hslot hran⟩
    ⟨r',hr',hfeed.symm,rfl,hslot hran'⟩

end

/-- In every interleaving the refreshes are bounded and no feed stays marked. Where every step is
careful, they are kicked off at least the cooldown apart. -/
theorem bounded_and_kickoffsApart (clock : ℚ) (ls : List Label) :
    Bounded (run step (start clock) ls) ∧
      (AllSteps step Careful (start clock) ls → KickoffsApart (run step (start clock) ls)) := by
  refine ⟨(owned_run clock ls).bounded,fun h => ?_⟩
  have hspaced : Spaced (run step (start clock) ls) :=
    h.invariant (fun _ _ hcareful h => h.of_effect (slotEffect_step hcareful)) (spaced_start clock)
  exact hspaced.kickoffsApart

/-- One read after the other, through to the end of its refresh. -/
def kickoff (i feedId : ℕ) : List Label :=
  [.read i feedId,.check i,.spawn i,.start i true,.finish i false]

/-- Two refreshes of a feed, with one of another feed between them whose thread does not start. -/
theorem kickoffsApart_kickoffs : KickoffsApart (run step (start 0) (kickoff 0 1 ++
    [.tick 30,.read 1 2,.check 1,.spawn 1,.start 1 false,.unmark 1,.tick 60] ++ kickoff 2 1)) :=
  (bounded_and_kickoffsApart 0 _).2 (by decide +kernel)

namespace Saturated

/-- Two other feeds are marked. -/
def fill : List Label := [.read 10 2,.check 10,.spawn 10,.read 11 3,.check 11,.spawn 11]

/-- A read that has looked at the clock before a slot was given back. -/
def stale : List Label :=
  kickoff 0 1 ++ [.tick 59,.read 1 1,.tick 60,.read 2 1,.check 2] ++ fill ++
    [.spawn 2,.start 10 true,.finish 10 false,.check 1,.spawn 1,.start 1 true]

/-- A read that gives back the slot of another one. -/
def foreign : List Label :=
  [.read 0 1,.check 0,.tick 60] ++ kickoff 1 1 ++ fill ++
    [.spawn 0,.start 10 true,.finish 10 false,.tick 61] ++ kickoff 2 1

/-- Refreshes of the feed were kicked off at 0 and 59, and at 60 and 61. -/
theorem not_kickoffsApart : ¬KickoffsApart (run step (start 0) stale) ∧
    ¬KickoffsApart (run step (start 0) foreign) := by
  constructor
  · intro h
    have hapart := h 0 1 ⟨1,0,.refreshed⟩ ⟨1,59,.running⟩ (by decide +kernel) (by decide +kernel)
      (by decide) trivial trivial rfl
    exact absurd hapart (by decide +kernel)
  · intro h
    have hapart := h 1 2 ⟨1,60,.refreshed⟩ ⟨1,61,.refreshed⟩ (by decide +kernel)
      (by decide +kernel) (by decide) trivial trivial rfl
    exact absurd hapart (by decide +kernel)

end Saturated

end Podly.AutoRefresh
