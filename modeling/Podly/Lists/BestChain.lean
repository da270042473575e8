import Mathlib.Data.List.Chain
import Mathlib.Data.List.Sublists
import Mathlib.Data.Prod.Lex
import Mathlib.Order.WithBot

/-! Chains of entries of a list, and the heaviest ones that end at an entry: the longest, and among
those the ones whose first entry has the largest key. -/
namespace BestChain
variable {α κ : Type*} [LinearOrder κ] (r : α → α → Prop) (key : α → κ)

/-- The length of a chain and the key of its first entry. -/
def weight (chain : List α) : ℕ ×ₗ WithBot κ :=
  toLex (chain.length,chain.head?.elim ⊥ (fun a => (key a : WithBot κ)))

/-- A chain of entries before `c` and of `c`. -/
structure EndsAt (before : List α) (c : α) (chain : List α) : Prop where
  front : ∃ q, q.Sublist before ∧ chain = q ++ [c]
  isChain : chain.IsChain r

/-- A heaviest chain that ends at `c`. -/
structure Best (before : List α) (c : α) (chain : List α) : Prop extends
    EndsAt r before c chain where
  heaviest : ∀ other, EndsAt r before c other → weight key other ≤ weight key chain

variable {r key} {before chain other : List α} {a c : α}

theorem weight_le_iff : weight key other ≤ weight key chain ↔ other.length < chain.length ∨
    other.length = chain.length ∧ other.head?.elim ⊥ (fun a => (key a : WithBot κ)) ≤
      chain.head?.elim ⊥ (fun a => (key a : WithBot κ)) :=
  Prod.Lex.toLex_le_toLex

/-- An entry behind two chains leaves them in their order. -/
theorem weight_append_le (hne : other ≠ []) (h : weight key other ≤ weight key chain) :
    weight key (other ++ [c]) ≤ weight key (chain ++ [c]) := by
  rw [weight_le_iff] at h ⊢
  rw [List.length_append,List.length_append,Nat.add_lt_add_iff_right,Nat.add_right_cancel_iff,
    List.head?_append,List.head?_append]
  obtain ⟨o,other,rfl⟩ := List.exists_cons_of_ne_nil hne
  cases chain with
  | nil => simp at h
  | cons => exact h

/-- The longer of two weights belongs to a chain that is no shorter. -/
theorem length_le_of_weight_le (h : weight key other ≤ weight key chain) :
    other.length ≤ chain.length := by
  rcases weight_le_iff.mp h with h | h
  · exact h.le
  · exact h.1.le

theorem key_le_of_weight_le {x y : α} {xs ys : List α}
    (h : weight key (x::xs) ≤ weight key (y::ys)) (hlength : xs.length = ys.length) :
    key x ≤ key y := by
  rcases weight_le_iff.mp h with h | h
  · simp [hlength] at h
  · exact WithBot.coe_le_coe.mp h.2

theorem EndsAt.getLast? (h : EndsAt r before c chain) : chain.getLast? = some c := by
  obtain ⟨q,-,rfl⟩ := h.front
  exact List.getLast?_concat

theorem EndsAt.ne_nil (h : EndsAt r before c chain) : chain ≠ [] := by
  obtain ⟨q,-,rfl⟩ := h.front
  exact List.concat_ne_nil c q

theorem EndsAt.mono (h : EndsAt r before c chain) : EndsAt r (before ++ [a]) c chain := by
  obtain ⟨q,hq,rfl⟩ := h.front
  exact ⟨⟨q,hq.trans (List.sublist_append_left before [a]),rfl⟩,h.isChain⟩

/-- A chain that ends at an earlier entry goes on to `c` where the two may follow each other. -/
theorem EndsAt.append (h : EndsAt r before a chain) (hac : r a c) :
    EndsAt r (before ++ [a]) c (chain ++ [c]) := by
  have hlast := h.getLast?
  obtain ⟨q,hq,rfl⟩ := h.front
  refine ⟨⟨q ++ [a],hq.append_right [a],rfl⟩,?_⟩
  refine List.isChain_append.mpr ⟨h.isChain,List.isChain_singleton c,?_⟩
  intro x hx y hy
  obtain rfl := Option.some.inj (hlast.symm.trans hx)
  obtain rfl := Option.some.inj hy
  exact hac

/-- A chain that ends at `c` goes past the entry before it or through it. -/
theorem EndsAt.cases_last (h : EndsAt r (before ++ [a]) c other) :
    EndsAt r before c other ∨ r a c ∧ ∃ front, EndsAt r before a front ∧ other = front ++ [c] := by
  obtain ⟨q,hq,rfl⟩ := h.front
  obtain ⟨q₁,q₂,rfl,hq₁,hq₂⟩ := List.sublist_append_iff.mp hq
  rcases List.sublist_singleton.mp hq₂ with rfl | rfl
  · rw [List.append_nil] at h ⊢
    exact .inl ⟨⟨q₁,hq₁,rfl⟩,h.isChain⟩
  · right
    obtain ⟨hfront,-,hjoin⟩ := List.isChain_append.mp h.isChain
    exact ⟨hjoin a List.getLast?_concat c rfl,q₁ ++ [a],⟨⟨q₁,hq₁,rfl⟩,hfront⟩,rfl⟩

/-- With nothing before it an entry is its own best chain. -/
theorem best_nil : Best r key [] c [c] := by
  refine ⟨⟨⟨[],List.Sublist.refl [],rfl⟩,List.isChain_singleton c⟩,?_⟩
  intro other hother
  obtain ⟨q,hq,rfl⟩ := hother.front
  rw [List.sublist_nil.mp hq]
  exact le_rfl

/-- An entry that cannot stand before `c` changes nothing. -/
theorem Best.skip (h : Best r key before c chain) (hac : ¬r a c) :
    Best r key (before ++ [a]) c chain := by
  refine ⟨h.mono,?_⟩
  intro other hother
  rcases hother.cases_last with hother | ⟨hjoin,-⟩
  · exact h.heaviest other hother
  · exact absurd hjoin hac

/-- The best chain to an entry before `c`, with `c` behind it, is no better. -/
theorem Best.keep {chainA : List α} (h : Best r key before c chain) (hA : Best r key before a chainA)
    (hle : weight key (chainA ++ [c]) ≤ weight key chain) : Best r key (before ++ [a]) c chain := by
  refine ⟨h.mono,?_⟩
  intro other hother
  rcases hother.cases_last with hother | ⟨-,front,hfront,rfl⟩
  · exact h.heaviest other hother
  · exact (weight_append_le hfront.ne_nil (hA.heaviest front hfront)).trans hle

/-- The best chain to an entry before `c`, with `c` behind it, is at least as good. -/
theorem Best.replace {chainA : List α} (h : Best r key before c chain)
    (hA : Best r key before a chainA) (hac : r a c)
    (hle : weight key chain ≤ weight key (chainA ++ [c])) :
    Best r key (before ++ [a]) c (chainA ++ [c]) := by
  refine ⟨hA.append hac,?_⟩
  intro other hother
  rcases hother.cases_last with hother | ⟨-,front,hfront,rfl⟩
  · exact (h.heaviest other hother).trans hle
  · exact weight_append_le hfront.ne_nil (hA.heaviest front hfront)

/-- A chain in a list ends at some entry of it. -/
theorem exists_endsAt {entries : List α} (hne : chain ≠ []) (hsublist : chain.Sublist entries)
    (hchain : chain.IsChain r) :
    ∃ before c rest, entries = before ++ c::rest ∧ EndsAt r before c chain := by
  obtain ⟨q,c,rfl⟩ := (List.eq_nil_or_concat' chain).resolve_left hne
  obtain ⟨front,back,rfl,hfront,hback⟩ := List.append_sublist_iff.mp hsublist
  obtain ⟨before,rest,rfl⟩ := List.append_of_mem (List.singleton_sublist.mp hback)
  refine ⟨front ++ before,c,rest,(List.append_assoc ..).symm,⟨⟨q,?_,rfl⟩,hchain⟩⟩
  exact hfront.trans (List.sublist_append_left front before)

end BestChain
