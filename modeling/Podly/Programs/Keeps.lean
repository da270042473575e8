import Mathlib.Order.Defs.Unbundled

/-! Programs that read and write a state and may stop with an error, which leaves the state as it
is; and the relations between the states before and after that a program keeps to. -/
namespace Programs
variable {ε σ α β : Type}

abbrev Program (ε σ α : Type) := ExceptT ε (StateM σ) α

/-- What a program returns, and the state it leaves. -/
def exec (m : Program ε σ α) (s : σ) : Except ε α × σ := m s

@[simp] theorem exec_pure (a : α) (s : σ) : exec (pure a : Program ε σ α) s = (.ok a,s) := rfl

@[simp] theorem exec_throw (e : ε) (s : σ) :
    exec (throw e : Program ε σ α) s = (.error e,s) := rfl

@[simp] theorem exec_get (s : σ) : exec (get : Program ε σ σ) s = (.ok s,s) := rfl

@[simp] theorem exec_set (s t : σ) : exec (set t : Program ε σ PUnit) s = (.ok ⟨⟩,t) := rfl

@[simp] theorem exec_modify (f : σ → σ) (s : σ) :
    exec (modify f : Program ε σ PUnit) s = (.ok ⟨⟩,f s) := rfl

theorem exec_bind (m : Program ε σ α) (f : α → Program ε σ β) (s : σ) :
    exec (m >>= f) s = match exec m s with
      | (.ok a,t) => exec (f a) t
      | (.error e,t) => (.error e,t) := by
  simp only [exec,bind,ExceptT.bind,ExceptT.mk,ExceptT.bindCont,StateT.bind]
  rcases m s with ⟨_ | _,_⟩ <;> rfl

theorem exec_tryCatch (m : Program ε σ α) (f : ε → Program ε σ α) (s : σ) :
    exec (tryCatch m f) s = match exec m s with
      | (.ok a,t) => (.ok a,t)
      | (.error e,t) => exec (f e) t := by
  simp only [exec,tryCatch,tryCatchThe,MonadExceptOf.tryCatch,ExceptT.tryCatch,ExceptT.mk,bind,
    StateT.bind]
  rcases m s with ⟨_ | _,_⟩ <;> rfl

theorem exec_get_bind (f : σ → Program ε σ α) (s : σ) : exec (get >>= f) s = exec (f s) s := rfl

theorem exec_bind_ok {m : Program ε σ α} {a : α} {s t : σ} (h : exec m s = (.ok a,t))
    (f : α → Program ε σ β) : exec (m >>= f) s = exec (f a) t := by
  rw [exec_bind,h]

/-- A program stops in its first part, or goes on from where that leaves the state. -/
theorem exec_bind_cases (m : Program ε σ α) (f : α → Program ε σ β) (s : σ) :
    (∃ e t, exec m s = (.error e,t) ∧ exec (m >>= f) s = (.error e,t)) ∨
      ∃ a t, exec m s = (.ok a,t) ∧ exec (m >>= f) s = exec (f a) t := by
  rw [exec_bind]
  rcases h : exec m s with ⟨e | a,t⟩
  · exact Or.inl ⟨e,t,rfl,rfl⟩
  · exact Or.inr ⟨a,t,rfl,rfl⟩

/-- Whatever a program does from a state, the state it leaves is related to it. -/
def Keeps (R : σ → σ → Prop) (m : Program ε σ α) : Prop := ∀ s, R s (exec m s).2

section
variable {R : σ → σ → Prop}

theorem keeps_pure [Std.Refl R] (a : α) : Keeps R (pure a : Program ε σ α) := fun s => Std.Refl.refl s

theorem keeps_throw [Std.Refl R] (e : ε) : Keeps R (throw e : Program ε σ α) := fun s => Std.Refl.refl s

theorem keeps_get [Std.Refl R] : Keeps R (get : Program ε σ σ) := fun s => Std.Refl.refl s

theorem keeps_modify {f : σ → σ} (h : ∀ s, R s (f s)) :
    Keeps R (modify f : Program ε σ PUnit) := h

/-- What the first part of a program does from a state, and the rest of it from any. -/
theorem exec_bind_keeps [IsTrans σ R] {m : Program ε σ α} {f : α → Program ε σ β} {s : σ}
    (hm : R s (exec m s).2) (hf : ∀ a, Keeps R (f a)) : R s (exec (m >>= f) s).2 := by
  obtain ⟨e,t,hexec,h⟩ | ⟨a,t,hexec,h⟩ := exec_bind_cases m f s
  · rw [h]
    rwa [hexec] at hm
  · rw [h]
    rw [hexec] at hm
    exact IsTrans.trans _ _ _ hm (hf a t)

theorem keeps_bind [IsTrans σ R] {m : Program ε σ α} {f : α → Program ε σ β} (hm : Keeps R m)
    (hf : ∀ a, Keeps R (f a)) : Keeps R (m >>= f) := fun s => exec_bind_keeps (hm s) hf

/-- A program that goes on from the state it reads. -/
theorem keeps_get_bind [Std.Refl R] {f : σ → Program ε σ α} (h : ∀ s, R s (exec (f s) s).2) :
    Keeps R (get >>= f) := h

theorem keeps_tryCatch [IsTrans σ R] {m : Program ε σ α} {f : ε → Program ε σ α} (hm : Keeps R m)
    (hf : ∀ e, Keeps R (f e)) : Keeps R (tryCatch m f) := by
  intro s
  have hs := hm s
  rw [exec_tryCatch]
  rcases h : exec m s with ⟨e | a,t⟩
  · rw [h] at hs
    exact IsTrans.trans _ _ _ hs (hf e t)
  · rw [h] at hs
    exact hs

end

/-- What is read of the state stays the same. -/
def Same (g : σ → β) (s t : σ) : Prop := g t = g s

instance (g : σ → β) : Std.Refl (Same g) := ⟨fun _ => rfl⟩

instance (g : σ → β) : IsTrans σ (Same g) :=
  ⟨fun _ _ _ hst htu => (htu : _ = _).trans hst⟩

end Programs
