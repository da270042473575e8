import Mathlib.Order.Basic

/-! Loops whose body either goes on with a new state or leaves with a result, run on fuel, and the
rule by which an invariant and a measure give a result for every amount of fuel that is enough. -/
namespace Loops
variable {σ ρ : Type*} (body : σ → σ ⊕ ρ)

/-- Run the body until it leaves. -/
def run : ℕ → σ → Option ρ
  | 0, _ => none
  | fuel + 1, s =>
    match body s with
    | .inl s' => run fuel s'
    | .inr r => some r

variable {body}

/-- A measure that every further round lowers bounds the fuel; an invariant that every further round
keeps leads to what the last round gives. -/
theorem run_of_measure {I : σ → Prop} {Q : ρ → Prop} (measure : σ → ℕ)
    (hgo : ∀ s s', I s → body s = .inl s' → I s' ∧ measure s' < measure s)
    (hleave : ∀ s r, I s → body s = .inr r → Q r) {s : σ} (hs : I s) :
    ∃ r, (∀ fuel, measure s < fuel → run body fuel s = some r) ∧ Q r := by
  induction hm : measure s using Nat.strongRecOn generalizing s with
  | ind m ih =>
    subst hm
    cases hbody : body s with
    | inl s' =>
      obtain ⟨hs',hlt⟩ := hgo s s' hs hbody
      obtain ⟨r,hrun,hr⟩ := ih (measure s') hlt hs' rfl
      refine ⟨r,?_,hr⟩
      intro fuel hfuel
      obtain ⟨fuel,rfl⟩ := Nat.exists_eq_add_one_of_ne_zero (by omega : fuel ≠ 0)
      simp only [run,hbody]
      exact hrun fuel (by omega)
    | inr r =>
      refine ⟨r,?_,hleave s r hs hbody⟩
      intro fuel hfuel
      obtain ⟨fuel,rfl⟩ := Nat.exists_eq_add_one_of_ne_zero (by omega : fuel ≠ 0)
      simp only [run,hbody]

end Loops
