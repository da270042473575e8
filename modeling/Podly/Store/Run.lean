import Mathlib.Data.List.Basic

/-! Runs of a deterministic transition system: states after a list of labels, conditions on every
step of a run, and the rules that carry a fact from one step to a run. -/
namespace Store
variable {σ ℓ : Type*} (step : σ → ℓ → σ)

/-- The state after a list of labels. -/
def run (s : σ) (ls : List ℓ) : σ := ls.foldl step s

/-- Every step of the run satisfies a condition on its state and label. -/
def AllSteps (P : σ → ℓ → Prop) : σ → List ℓ → Prop
  | _, [] => True
  | s, l::ls => P s l ∧ AllSteps P (step s l) ls

instance {P : σ → ℓ → Prop} [∀ s l, Decidable (P s l)] (s : σ) (ls : List ℓ) :
    Decidable (AllSteps step P s ls) :=
  match ls with
  | [] => isTrue trivial
  | l::ls =>
    let _ : Decidable (AllSteps step P (step s l) ls) := instDecidableAllSteps (step s l) ls
    inferInstanceAs (Decidable (_ ∧ _))

@[simp] theorem run_nil (s : σ) : run step s [] = s := rfl

@[simp] theorem run_cons (s : σ) (l : ℓ) (ls : List ℓ) :
    run step s (l::ls) = run step (step s l) ls := rfl

theorem run_append (s : σ) (ls ks : List ℓ) :
    run step s (ls ++ ks) = run step (run step s ls) ks := List.foldl_append

variable {step}

theorem allSteps_append {P : σ → ℓ → Prop} {s : σ} {ls ks : List ℓ} :
    AllSteps step P s (ls ++ ks) ↔ AllSteps step P s ls ∧ AllSteps step P (run step s ls) ks := by
  induction ls generalizing s with
  | nil => simp [AllSteps]
  | cons l ls ih => simp only [List.cons_append, AllSteps, run_cons, ih, and_assoc]

/-- Every step meets a condition when each label does after those before it. -/
theorem allSteps_iff_split {P : σ → ℓ → Prop} {s : σ} {ls : List ℓ} : AllSteps step P s ls ↔
    ∀ before l after, ls = before ++ l::after → P (run step s before) l := by
  constructor
  · rintro h before l after rfl
    exact (allSteps_append.mp h).2.1
  · intro h
    induction ls generalizing s with
    | nil => exact trivial
    | cons l ls ih =>
      refine ⟨h [] l ls rfl,ih ?_⟩
      rintro before k after rfl
      exact h (l::before) k after rfl

/-- An invariant of every step is one of every run. -/
theorem run_invariant {I : σ → Prop} (hstep : ∀ s l, I s → I (step s l)) {s : σ} (hs : I s)
    (ls : List ℓ) : I (run step s ls) := by
  induction ls generalizing s with
  | nil => exact hs
  | cons l ls ih => exact ih (hstep s l hs)

/-- What every step under a condition keeps, a run of such steps keeps. -/
theorem AllSteps.invariant {P : σ → ℓ → Prop} {I : σ → Prop}
    (hstep : ∀ s l, P s l → I s → I (step s l)) {s : σ} (hs : I s) {ls : List ℓ}
    (h : AllSteps step P s ls) : I (run step s ls) := by
  induction ls generalizing s with
  | nil => exact hs
  | cons l ls ih => exact ih (hstep s l h.1 hs) h.2

/-- Both conditions hold of every step. -/
theorem AllSteps.and {P Q : σ → ℓ → Prop} {s : σ} {ls : List ℓ} (hP : AllSteps step P s ls)
    (hQ : AllSteps step Q s ls) : AllSteps step (fun s l => P s l ∧ Q s l) s ls := by
  induction ls generalizing s with
  | nil => exact trivial
  | cons l ls ih => exact ⟨⟨hP.1,hQ.1⟩,ih hP.2 hQ.2⟩

/-- Over labels of one kind, a condition may be weakened to what it implies in the states that such
labels lead to. -/
theorem AllSteps.imp {I : σ → Prop} {K : ℓ → Prop} {P Q : σ → ℓ → Prop}
    (hI : ∀ s l, K l → I s → I (step s l)) (himp : ∀ s l, I s → P s l → Q s l) {s : σ} (hs : I s)
    {ls : List ℓ} (hls : ∀ l ∈ ls, K l) (h : AllSteps step P s ls) : AllSteps step Q s ls := by
  induction ls generalizing s with
  | nil => exact trivial
  | cons l ls ih =>
    obtain ⟨hl,hls⟩ := List.forall_mem_cons.mp hls
    exact ⟨himp s l hs h.1,ih (hI s l hl hs) hls h.2⟩

/-- A transitive relation that holds across every step holds across every run. -/
theorem run_related {P : σ → ℓ → Prop} {R : σ → σ → Prop} (hrefl : ∀ s, R s s)
    (htrans : ∀ s t u, R s t → R t u → R s u) (hstep : ∀ s l, P s l → R s (step s l)) {s : σ}
    {ls : List ℓ} (h : AllSteps step P s ls) : R s (run step s ls) := by
  induction ls generalizing s with
  | nil => exact hrefl s
  | cons l ls ih => exact htrans _ _ _ (hstep s l h.1) (ih h.2)

/-- Two conditions that agree on every step from an invariant state, while the run goes on as one of
them says, hold of the same runs. -/
theorem allSteps_iff {I : σ → Prop} {D P Q : σ → ℓ → Prop}
    (hiff : ∀ s l, I s → D s l → (P s l ↔ Q s l))
    (hnext : ∀ s l, I s → D s l → Q s l → I (step s l)) {s : σ} (hs : I s) {ls : List ℓ}
    (hD : AllSteps step D s ls) : AllSteps step P s ls ↔ AllSteps step Q s ls := by
  induction ls generalizing s with
  | nil => exact Iff.rfl
  | cons l ls ih =>
    obtain ⟨hl,hls⟩ := hD
    constructor
    · rintro ⟨hP,hPs⟩
      have hQ : Q s l := (hiff s l hs hl).mp hP
      exact ⟨hQ,(ih (hnext s l hs hl hQ) hls).mp hPs⟩
    · rintro ⟨hQ,hQs⟩
      exact ⟨(hiff s l hs hl).mpr hQ,(ih (hnext s l hs hl hQ) hls).mpr hQs⟩

/-- Over labels of one kind, a fact that a step keeps exactly under a condition holds at every point
of a run exactly when every step meets the condition. -/
theorem forall_prefix_iff {I J : σ → Prop} {P : σ → ℓ → Prop} {Q : ℓ → Prop}
    (hI : ∀ s l, Q l → I s → I (step s l))
    (hJ : ∀ s l, Q l → I s → J s → (J (step s l) ↔ P s l)) {s : σ} (hs : I s) (hj : J s)
    {ls : List ℓ} (hls : ∀ l ∈ ls, Q l) :
    (∀ before, before <+: ls → J (run step s before)) ↔ AllSteps step P s ls := by
  induction ls generalizing s with
  | nil =>
    constructor
    · intro _
      exact trivial
    · rintro - before hbefore
      rw [List.prefix_nil.mp hbefore]
      exact hj
  | cons l ls ih =>
    have hl : Q l := hls l List.mem_cons_self
    have hrest : ∀ k ∈ ls, Q k := fun k hk => hls k (List.mem_cons_of_mem l hk)
    constructor
    · intro h
      have hnext : J (step s l) := h [l] (List.prefix_append [l] ls)
      refine ⟨(hJ s l hl hs hj).mp hnext,(ih (hI s l hl hs) hnext hrest).mp ?_⟩
      intro before hbefore
      exact h (l::before) ((List.prefix_cons_inj l).mpr hbefore)
    · rintro ⟨hP,hPs⟩ before hbefore
      have hnext : J (step s l) := (hJ s l hl hs hj).mpr hP
      cases before with
      | nil => exact hj
      | cons k before =>
        obtain ⟨rfl,hbefore'⟩ := List.cons_prefix_cons.mp hbefore
        exact (ih (hI s k hl hs) hnext hrest).mpr hPs before hbefore'

/-- What holds at every point of a run holds around every step. -/
theorem allSteps_of_prefixes {I : σ → Prop} {s : σ} {ls : List ℓ}
    (h : ∀ before, before <+: ls → I (run step s before)) :
    AllSteps step (fun s l => I s ∧ I (step s l)) s ls := by
  induction ls generalizing s with
  | nil => exact trivial
  | cons l ls ih =>
    refine ⟨⟨h [] List.nil_prefix,h [l] (List.prefix_append [l] ls)⟩,ih ?_⟩
    intro before hbefore
    exact h (l::before) ((List.prefix_cons_inj l).mpr hbefore)

/-- A relation that is transitive through the points of a run relates each of them to every later
one exactly when every step stays in it. -/
theorem forall_prefix_related_iff {I : σ → Prop} {R : σ → σ → Prop} (hrefl : ∀ s, R s s)
    (htrans : ∀ s t u, I t → R s t → R t u → R s u) {s : σ} {ls : List ℓ}
    (hI : ∀ before, before <+: ls → I (run step s before)) :
    (∀ before later, before <+: later → later <+: ls →
      R (run step s before) (run step s later)) ↔
    AllSteps step (fun s l => R s (step s l)) s ls := by
  induction ls generalizing s with
  | nil =>
    constructor
    · intro _
      exact trivial
    · intro _ before later hbefore hlater
      obtain rfl := List.prefix_nil.mp hlater
      obtain rfl := List.prefix_nil.mp hbefore
      exact hrefl s
  | cons l ls ih =>
    have hnext : ∀ before, before <+: ls → I (run step (step s l) before) :=
      fun before hbefore => hI (l::before) ((List.prefix_cons_inj l).mpr hbefore)
    constructor
    · intro h
      refine ⟨h [] [l] List.nil_prefix (List.prefix_append [l] ls),(ih hnext).mp ?_⟩
      intro before later hbefore hlater
      exact h (l::before) (l::later) ((List.prefix_cons_inj l).mpr hbefore)
        ((List.prefix_cons_inj l).mpr hlater)
    · rintro ⟨hR,hRs⟩ before later hbefore hlater
      have hrest := (ih hnext).mpr hRs
      cases later with
      | nil =>
        obtain rfl := List.prefix_nil.mp hbefore
        exact hrefl s
      | cons k later =>
        obtain ⟨rfl,hlater'⟩ := List.cons_prefix_cons.mp hlater
        cases before with
        | nil =>
          exact htrans s (step s k) _ (hnext [] List.nil_prefix) hR
            (hrest [] later List.nil_prefix hlater')
        | cons j before =>
          obtain ⟨rfl,hbefore'⟩ := List.cons_prefix_cons.mp hbefore
          exact hrest before later hbefore' hlater'

end Store
