import Podly.Store.Run

/-! Processes that read a store and act on it step by step: the steps a process takes, what it
returns, and the rules by which it meets a condition at every step and another one at its end. -/
namespace Processes
open Store
universe u v w
variable {σ : Type u} {ℓ : Type v} {α β : Type w}

/-- A process returns a value, reads the store, or takes a step and goes on. -/
inductive Process (σ : Type u) (ℓ : Type v) (α : Type w)
  | done (a : α)
  | read (next : σ → Process σ ℓ α)
  | act (l : ℓ) (next : Process σ ℓ α)

namespace Process

/-- Go on with a process that depends on the value returned. -/
def andThen : Process σ ℓ α → (α → Process σ ℓ β) → Process σ ℓ β
  | .done a, f => f a
  | .read next, f => .read (fun s => (next s).andThen f)
  | .act l next, f => .act l (next.andThen f)

instance : Monad (Process σ ℓ) where
  pure := .done
  bind := andThen

/-- Read the store. -/
def store : Process σ ℓ σ := .read .done

/-- Take one step. -/
def perform (l : ℓ) : Process σ ℓ PUnit := .act l (.done ⟨⟩)

/-- One process after the other, for the entries of a list. -/
def each (f : β → Process σ ℓ PUnit) : List β → Process σ ℓ PUnit
  | [] => .done ⟨⟩
  | x::xs => (f x).andThen (fun _ => each f xs)

variable (step : σ → ℓ → σ)

/-- The steps a process takes from a store. -/
def trace : Process σ ℓ α → σ → List ℓ
  | .done _, _ => []
  | .read next, s => (next s).trace s
  | .act l next, s => l::next.trace (step s l)

/-- What it returns. -/
def result : Process σ ℓ α → σ → α
  | .done a, _ => a
  | .read next, s => (next s).result s
  | .act l next, s => next.result (step s l)

/-- The store it leaves. -/
def final (p : Process σ ℓ α) (s : σ) : σ := run step s (p.trace step s)

/-- Every step meets a condition on the store and the label, and the end meets one on the value
returned and the store. -/
def Meets (P : σ → ℓ → Prop) (Q : α → σ → Prop) : Process σ ℓ α → σ → Prop
  | .done a, s => Q a s
  | .read next, s => (next s).Meets P Q s
  | .act l next, s => P s l ∧ next.Meets P Q (step s l)

variable {step} {P P' : σ → ℓ → Prop} {Q Q' : α → σ → Prop} {R : β → σ → Prop} {s : σ}

theorem meets_iff {p : Process σ ℓ α} : p.Meets step P Q s ↔
    AllSteps step P s (p.trace step s) ∧ Q (p.result step s) (p.final step s) := by
  induction p generalizing s with
  | done a => simp [Meets,trace,result,final,AllSteps]
  | read next ih => exact ih s
  | act l next ih =>
    simp only [Meets,trace,result,final,AllSteps,run_cons,and_assoc]
    exact and_congr_right fun _ => ih

@[simp] theorem meets_pure {a : α} : (pure a : Process σ ℓ α).Meets step P Q s ↔ Q a s := Iff.rfl

@[simp] theorem meets_done {a : α} : (done a : Process σ ℓ α).Meets step P Q s ↔ Q a s := Iff.rfl

@[simp] theorem meets_store {Q : σ → σ → Prop} :
    (store : Process σ ℓ σ).Meets step P Q s ↔ Q s s := Iff.rfl

@[simp] theorem meets_perform {Q : PUnit → σ → Prop} {l : ℓ} :
    (perform l).Meets step P Q s ↔ P s l ∧ Q ⟨⟩ (step s l) := Iff.rfl

theorem meets_andThen {p : Process σ ℓ α} {f : α → Process σ ℓ β} :
    (p.andThen f).Meets step P R s ↔
      p.Meets step P (fun a s => (f a).Meets step P R s) s := by
  induction p generalizing s with
  | done a => exact Iff.rfl
  | read next ih => exact ih s
  | act l next ih => exact and_congr_right fun _ => ih

@[simp] theorem meets_bind {p : Process σ ℓ α} {f : α → Process σ ℓ β} :
    (p >>= f).Meets step P R s ↔
      p.Meets step P (fun a s => (f a).Meets step P R s) s := meets_andThen

/-- Two processes in a row take the steps of the one and then those of the other. -/
theorem trace_bind {p : Process σ ℓ α} {f : α → Process σ ℓ β} :
    (p >>= f).trace step s = p.trace step s ++ (f (p.result step s)).trace step (p.final step s) := by
  induction p generalizing s with
  | done a => rfl
  | read next ih => exact ih s
  | act l next ih => exact congrArg (l::·) ih

@[simp] theorem trace_store_bind {τ : Type w} {step : τ → ℓ → τ} {t : τ}
    {f : τ → Process τ ℓ β} : (store >>= f).trace step t = (f t).trace step t := rfl

@[simp] theorem trace_perform_bind {l : ℓ} {f : PUnit → Process σ ℓ β} :
    (perform l >>= f).trace step s = l::(f ⟨⟩).trace step (step s l) := rfl

/-- One step for each entry. -/
theorem trace_each_perform {γ : Type w} (f : γ → ℓ) (xs : List γ) :
    (each (fun x => (perform (f x) : Process σ ℓ PUnit)) xs).trace step s = xs.map f := by
  induction xs generalizing s with
  | nil => rfl
  | cons x xs ih => exact congrArg (f x::·) ih

/-- Weaker conditions are met as well. -/
theorem Meets.mono (hP : ∀ s l, P s l → P' s l) (hQ : ∀ a s, Q a s → Q' a s)
    {p : Process σ ℓ α} (h : p.Meets step P Q s) : p.Meets step P' Q' s := by
  induction p generalizing s with
  | done a => exact hQ a s h
  | read next ih => exact ih s h
  | act l next ih => exact ⟨hP s l h.1,ih h.2⟩

/-- Go on from whatever the end of the first process is known to meet. -/
theorem Meets.bind {p : Process σ ℓ α} {f : α → Process σ ℓ β} (h : p.Meets step P Q s)
    (hf : ∀ a s, Q a s → (f a).Meets step P R s) : (p >>= f).Meets step P R s :=
  meets_bind.mpr (h.mono (fun _ _ h => h) hf)

/-- What every step of the process keeps holds at its end. -/
theorem Meets.and_invariant {I : σ → Prop} (hI : ∀ s l, P s l → I s → I (step s l))
    {p : Process σ ℓ α} (h : p.Meets step P Q s) (hs : I s) :
    p.Meets step P (fun a s => Q a s ∧ I s) s := by
  induction p generalizing s with
  | done a => exact ⟨h,hs⟩
  | read next ih => exact ih s h hs
  | act l next ih => exact ⟨h.1,ih h.2 (hI s l h.1 hs)⟩

/-- What the process of every entry keeps, the process of the list keeps. -/
theorem meets_each {γ : Type w} {I : σ → Prop} {f : γ → Process σ ℓ PUnit} {xs : List γ}
    (h : ∀ x ∈ xs, ∀ s, I s → (f x).Meets step P (fun _ => I) s) (hs : I s) :
    (each f xs).Meets step P (fun _ => I) s := by
  induction xs generalizing s with
  | nil => exact hs
  | cons x xs ih =>
    refine meets_andThen.mpr ((h x List.mem_cons_self s hs).mono (fun _ _ h => h) ?_)
    intro _ s hs
    exact ih (fun y hy => h y (List.mem_cons_of_mem x hy)) hs

/-- Every step that the process can take, whatever it reads, meets a condition. -/
def Labels (P : ℓ → Prop) : Process σ ℓ α → Prop
  | .done _ => True
  | .read next => ∀ s, (next s).Labels P
  | .act l next => P l ∧ next.Labels P

theorem Labels.bind {P : ℓ → Prop} {p : Process σ ℓ α} {f : α → Process σ ℓ β} (h : p.Labels P)
    (hf : ∀ a, (f a).Labels P) : (p >>= f).Labels P := by
  induction p with
  | done a => exact hf a
  | read next ih => exact fun s => ih s (h s)
  | act l next ih => exact ⟨h.1,ih h.2⟩

theorem labels_store {P : ℓ → Prop} : (store : Process σ ℓ σ).Labels P := fun _ => trivial

theorem labels_perform {P : ℓ → Prop} {l : ℓ} (h : P l) : (perform l : Process σ ℓ PUnit).Labels P :=
  ⟨h,trivial⟩

theorem labels_each {γ : Type w} {P : ℓ → Prop} {f : γ → Process σ ℓ PUnit} {xs : List γ}
    (h : ∀ x ∈ xs, (f x).Labels P) : (each f xs).Labels P := by
  induction xs with
  | nil => trivial
  | cons x xs ih =>
    obtain ⟨hx,hxs⟩ := List.forall_mem_cons.mp h
    exact Labels.bind hx (fun _ => ih hxs)

theorem Labels.mem_trace {P : ℓ → Prop} {p : Process σ ℓ α} (h : p.Labels P) {l : ℓ}
    (hl : l ∈ p.trace step s) : P l := by
  induction p generalizing s with
  | done a => cases hl
  | read next ih => exact ih s (h s) hl
  | act k next ih =>
    rcases List.mem_cons.mp hl with rfl | hl
    · exact h.1
    · exact ih h.2 hl

/-- What such steps keep, the process keeps. -/
theorem Labels.meets {P : ℓ → Prop} {I : σ → Prop} (hI : ∀ s l, P l → I s → I (step s l))
    {p : Process σ ℓ α} (h : p.Labels P) (hs : I s) :
    p.Meets step (fun _ _ => True) (fun _ s => I s) s := by
  induction p generalizing s with
  | done a => exact hs
  | read next ih => exact ih s (h s) hs
  | act l next ih => exact ⟨trivial,ih h.2 (hI s l h.1 hs)⟩

end Process
end Processes
