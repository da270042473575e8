import Podly.AutoRefresh.Kickoffs

/-! In every interleaving the marks of the feeds are those of the reads that are at work on them. -/
namespace Podly.AutoRefresh
open Store

/-- The read has its feed marked. -/
def Owns (s : State) (i feedId : ℕ) : Prop :=
  ∃ r, s.reads i = some r ∧ r.feedId = feedId ∧ r.phase.Marks

/-- Every mark has one owner. -/
structure Owned (s : State) : Prop where
  mem_iff : ∀ feedId, feedId ∈ s.inFlight ↔ ∃ i, Owns s i feedId
  unique : ∀ i j feedId, Owns s i feedId → Owns s j feedId → i = j
  card : s.inFlight.card ≤ maxAutoRefreshConcurrency

/-- What a step does to the marks: nothing, or one read marks its feed or takes its mark back. -/
inductive MarkEffect (s t : State) : Prop
  | none (inFlight : t.inFlight = s.inFlight) (owns : ∀ j feedId, Owns t j feedId ↔ Owns s j feedId)
  | mark (i feedId : ℕ) (new : feedId ∉ s.inFlight) (room : ¬s.Full)
      (inFlight : t.inFlight = insert feedId s.inFlight)
      (owns : ∀ j feedId', Owns t j feedId' ↔ Owns s j feedId' ∨ j = i ∧ feedId' = feedId)
  | discard (i feedId : ℕ) (owner : Owns s i feedId)
      (inFlight : t.inFlight = s.inFlight.erase feedId)
      (owns : ∀ j feedId', Owns t j feedId' ↔ Owns s j feedId' ∧ j ≠ i)

section
variable {s t : State} {i : ℕ} {r r' : Read}

/-- The owners after one read has changed. -/
theorem owns_update (ht : t.reads = Function.update s.reads i (some r')) {j feedId : ℕ} :
    Owns t j feedId ↔ (j ≠ i ∧ Owns s j feedId) ∨
      (j = i ∧ r'.feedId = feedId ∧ r'.phase.Marks) := by
  unfold Owns
  rw [ht]
  by_cases hj : j = i
  · subst hj
    simp [Function.update_self]
  · simp [hj]

/-- A read that neither marks nor takes back. -/
theorem MarkEffect.of_same (hinFlight : t.inFlight = s.inFlight)
    (ht : t.reads = Function.update s.reads i (some r'))
    (hold : ∀ feedId, Owns s i feedId ↔ r'.feedId = feedId ∧ r'.phase.Marks) : MarkEffect s t := by
  refine .none hinFlight (fun j feedId => ?_)
  rw [owns_update ht]
  by_cases hj : j = i
  · subst hj
    simp [hold]
  · simp [hj]

theorem owns_iff (hr : s.reads i = some r) {feedId : ℕ} :
    Owns s i feedId ↔ r.feedId = feedId ∧ r.phase.Marks := by
  unfold Owns
  rw [hr]
  simp

/-- A read acts in its phase only. -/
theorem act_cases {phase : Phase} {f : Read → State} {P : State → Prop} (hs : P s)
    (hf : ∀ r, s.reads i = some r → r.phase = phase → P (f r)) : P (act s i phase f) := by
  unfold act
  split
  · exact hs
  · rename_i r hr
    split
    · rename_i hphase
      exact hf r hr hphase
    · exact hs

theorem MarkEffect.refl (s : State) : MarkEffect s s := .none rfl (fun _ _ => Iff.rfl)

theorem markEffect_step (s : State) (l : Label) : MarkEffect s (step s l) := by
  cases l with
  | tick now => exact .none rfl (fun _ _ => Iff.rfl)
  | read i feedId =>
    change MarkEffect s (if s.reads i = none then _ else s)
    split
    · rename_i hnone
      refine .of_same rfl rfl (fun feedId' => ?_)
      simp [Owns,hnone,Phase.Marks]
    · exact .refl s
  | check i =>
    refine act_cases (.refl s) (fun r hr hphase => ?_)
    unfold shouldKickoffAsyncRefresh
    split
    · refine .of_same rfl rfl (fun feedId => ?_)
      simp [owns_iff hr,hphase,Phase.Marks]
    · refine .of_same rfl rfl (fun feedId => ?_)
      simp [owns_iff hr,hphase,Phase.Marks]
  | spawn i =>
    refine act_cases (.refl s) (fun r hr hphase => ?_)
    unfold spawnAsyncRefresh
    split
    · refine .of_same rfl rfl (fun feedId => ?_)
      simp [owns_iff hr,hphase,Phase.Marks]
    · rename_i hnew
      split
      · refine .of_same rfl rfl (fun feedId => ?_)
        simp [owns_iff hr,hphase,Phase.Marks]
      · rename_i hroom
        refine .mark i r.feedId hnew hroom rfl (fun j feedId => ?_)
        rw [@owns_update s _ i { r with phase := .marked } rfl]
        by_cases hj : j = i
        · subst hj
          simp [owns_iff hr,hphase,Phase.Marks,eq_comm]
        · simp [hj]
  | start i starts =>
    refine act_cases (.refl s) (fun r hr hphase => ?_)
    refine .of_same rfl rfl (fun feedId => ?_)
    cases starts <;> simp [owns_iff hr,hphase,Phase.Marks]
  | unmark i =>
    refine act_cases (.refl s) (fun r hr hphase => ?_)
    refine .discard i r.feedId (by simp [owns_iff hr,hphase,Phase.Marks]) rfl (fun j feedId => ?_)
    rw [@owns_update s _ i { r with phase := .ended } rfl]
    simp [Phase.Marks,and_comm]
  | finish i raises =>
    refine act_cases (.refl s) (fun r hr hphase => ?_)
    refine .discard i r.feedId (by simp [owns_iff hr,hphase,Phase.Marks]) rfl (fun j feedId => ?_)
    rw [@owns_update s _ i { r with phase := .refreshed } rfl]
    simp [Phase.Marks,and_comm]

theorem Owned.of_effect (h : Owned s) (heffect : MarkEffect s t) : Owned t := by
  cases heffect with
  | none hinFlight howns =>
    refine ⟨fun feedId => ?_,fun j k feedId hj hk => ?_,hinFlight ▸ h.card⟩
    · simp only [hinFlight,howns,h.mem_iff]
    · exact h.unique j k feedId ((howns _ _).mp hj) ((howns _ _).mp hk)
  | mark i feedId hnew hroom hinFlight howns =>
    have hnone : ∀ j, ¬Owns s j feedId := fun j hj => hnew ((h.mem_iff feedId).mpr ⟨j,hj⟩)
    refine ⟨fun feedId' => ?_,fun j k feedId' hj hk => ?_,?_⟩
    · rw [hinFlight,Finset.mem_insert,h.mem_iff]
      constructor
      · rintro (rfl | ⟨j,hj⟩)
        · exact ⟨i,(howns _ _).mpr (Or.inr ⟨rfl,rfl⟩)⟩
        · exact ⟨j,(howns _ _).mpr (Or.inl hj)⟩
      · rintro ⟨j,hj⟩
        obtain hj | ⟨-,hfeed⟩ := (howns _ _).mp hj
        · exact Or.inr ⟨j,hj⟩
        · exact Or.inl hfeed
    · obtain hj | ⟨rfl,rfl⟩ := (howns _ _).mp hj
      · obtain hk | ⟨-,rfl⟩ := (howns _ _).mp hk
        · exact h.unique j k feedId' hj hk
        · exact absurd hj (hnone j)
      · obtain hk | ⟨rfl,-⟩ := (howns _ _).mp hk
        · exact absurd hk (hnone k)
        · rfl
    · rw [hinFlight,Finset.card_insert_of_notMem hnew]
      exact Nat.lt_of_not_le hroom
  | discard i feedId howner hinFlight howns =>
    refine ⟨fun feedId' => ?_,fun j k feedId' hj hk => ?_,?_⟩
    · rw [hinFlight,Finset.mem_erase,h.mem_iff]
      constructor
      · rintro ⟨hne,j,hj⟩
        refine ⟨j,(howns _ _).mpr ⟨hj,?_⟩⟩
        rintro rfl
        obtain ⟨r,hr,rfl,-⟩ := hj
        obtain ⟨r',hr',rfl,-⟩ := howner
        exact hne (by rw [Option.some.inj (hr.symm.trans hr')])
      · rintro ⟨j,hj⟩
        obtain ⟨hj,hne⟩ := (howns _ _).mp hj
        refine ⟨?_,j,hj⟩
        rintro rfl
        exact hne (h.unique j i feedId' hj howner)
    · exact h.unique j k feedId' ((howns _ _).mp hj).1 ((howns _ _).mp hk).1
    · rw [hinFlight]
      exact (Finset.card_erase_le).trans h.card

theorem owned_start (clock : ℚ) : Owned (start clock) := by
  refine ⟨fun feedId => ?_,fun i j feedId hi => ?_,Nat.zero_le _⟩
  · constructor
    · intro h
      exact absurd h (Finset.notMem_empty feedId)
    · rintro ⟨i,r,hr,-⟩
      cases hr
  · obtain ⟨r,hr,-⟩ := hi
    cases hr

/-- Every interleaving keeps the marks with their owners. -/
theorem owned_run (clock : ℚ) (ls : List Label) : Owned (run step (start clock) ls) :=
  run_invariant (fun s l h => h.of_effect (markEffect_step s l)) (owned_start clock) ls

theorem act_eq {phase : Phase} {f : Read → State} (hr : s.reads i = some r) (hphase : r.phase = phase) :
    act s i phase f = f r := by
  unfold act
  rw [hr]
  exact if_pos hphase

theorem finish_discards (hr : s.reads i = some r) (hphase : r.phase = .running) (raises : Bool) :
    (step s (.finish i raises)).inFlight = s.inFlight.erase r.feedId := by
  change (act s i .running _).inFlight = _
  rw [act_eq hr hphase]
  rfl

/-- The steps that are left to a read take its mark back. -/
theorem rest_discards (hr : s.reads i = some r) (hmarks : r.phase.Marks) :
    r.feedId ∉ (run step s (r.phase.rest i)).inFlight := by
  cases hphase : r.phase with
  | asking | admitted | refreshed | ended =>
    rw [hphase] at hmarks
    exact hmarks.elim
  | running =>
    change r.feedId ∉ (step s (.finish i false)).inFlight
    rw [finish_discards hr hphase]
    exact Finset.notMem_erase _ _
  | unstarted =>
    change r.feedId ∉ (act s i .unstarted _).inFlight
    rw [act_eq hr hphase]
    exact Finset.notMem_erase _ _
  | marked =>
    change r.feedId ∉ (step (act s i .marked _) (.finish i false)).inFlight
    rw [act_eq hr hphase]
    have hr' : (s.goTo i r .running).reads i = some { r with phase := .running } :=
      Function.update_self ..
    have hdiscards := finish_discards hr' rfl false
    rw [if_pos rfl,hdiscards]
    exact Finset.notMem_erase _ _

theorem Owned.bounded (h : Owned s) : Bounded s where
  inFlight := h.card
  atMost := by
    intro T hT
    have hread : ∀ i ∈ T, Owns s i ((s.reads i).elim 0 Read.feedId) := by
      intro i hi
      obtain ⟨r,hr,hphase⟩ := hT i hi
      exact ⟨r,hr,by rw [hr]; rfl,by rw [hphase]; trivial⟩
    refine le_trans (Finset.card_le_card_of_injOn (fun i => (s.reads i).elim 0 Read.feedId)
      (fun i hi => (h.mem_iff _).mpr ⟨i,hread i hi⟩) ?_) h.card
    intro i hi j hj hsame
    have hj' := hread j hj
    dsimp only at hsame
    rw [← hsame] at hj'
    exact h.unique i j _ (hread i hi) hj'
  onePerFeed := by
    intro i j r r' hr hr' hphase hphase' hsame
    exact h.unique i j r.feedId ⟨r,hr,rfl,by rw [hphase]; trivial⟩
      ⟨r',hr',hsame.symm,by rw [hphase']; trivial⟩
  notStuck := by
    intro feedId hmem
    obtain ⟨i,r,hr,rfl,hmarks⟩ := (h.mem_iff feedId).mp hmem
    exact ⟨i,r,hr,rfl,hmarks,rest_discards hr hmarks⟩

end

end Podly.AutoRefresh
