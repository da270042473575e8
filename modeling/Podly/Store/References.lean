import Mathlib.Data.List.Basic
import Podly.Store.Indexed

/-! Rows that refer to other rows by a value of theirs, in a store that does not check it. -/
namespace Store
variable {α β κ : Type*}

/-- Every row of the first list refers to a row of the second. -/
def Refers (ref : α → κ) (key : β → κ) (children : List α) (parents : List β) : Prop :=
  children.map ref ⊆ parents.map key

variable {ref : α → κ} {key : β → κ} {children children' : List α} {parents parents' : List β}

theorem refers_iff : Refers ref key children parents ↔
    ∀ a ∈ children, ∃ b ∈ parents, key b = ref a := by
  simp [Refers,List.subset_def]

namespace Refers

theorem nil : Refers ref key [] parents := List.nil_subset _

theorem exists_parent (h : Refers ref key children parents) {a : α} (ha : a ∈ children) :
    ∃ b ∈ parents, key b = ref a := refers_iff.mp h a ha

/-- Fewer references into more rows. -/
theorem mono (h : Refers ref key children parents)
    (hchildren : children'.map ref ⊆ children.map ref)
    (hparents : parents.map key ⊆ parents'.map key) : Refers ref key children' parents' :=
  List.Subset.trans hchildren (List.Subset.trans h hparents)

theorem of_children (h : Refers ref key children parents)
    (hchildren : children'.map ref ⊆ children.map ref) : Refers ref key children' parents :=
  h.mono hchildren (List.Subset.refl _)

theorem of_parents (h : Refers ref key children parents)
    (hparents : parents.map key ⊆ parents'.map key) : Refers ref key children parents' :=
  h.mono (List.Subset.refl _) hparents

theorem of_children_eq (h : Refers ref key children parents)
    (hchildren : children'.map ref = children.map ref) : Refers ref key children' parents := by
  rw [Refers,hchildren]
  exact h

theorem of_parents_eq (h : Refers ref key children parents)
    (hparents : parents'.map key = parents.map key) : Refers ref key children parents' := by
  rw [Refers,hparents]
  exact h

theorem filter_children (h : Refers ref key children parents) (keep : α → Bool) :
    Refers ref key (children.filter keep) parents :=
  h.of_children (List.map_subset ref List.filter_sublist.subset)

/-- New rows that refer to rows that are there. -/
theorem append (h : Refers ref key children parents) {new : List α}
    (hnew : ∀ a ∈ new, ∃ b ∈ parents, key b = ref a) :
    Refers ref key (children ++ new) parents := by
  rw [refers_iff]
  intro a ha
  rcases List.mem_append.mp ha with hold | hadded
  · exact h.exists_parent hold
  · exact hnew a hadded

theorem append_parents (h : Refers ref key children parents) (new : List β) :
    Refers ref key children (parents ++ new) :=
  h.of_parents (List.map_subset key (List.subset_append_left parents new))

/-- Rows are deleted that no row of the first list refers to. -/
theorem filter_parents (h : Refers ref key children parents) {keep : β → Bool}
    (hkeep : ∀ a ∈ children, ∀ b ∈ parents, key b = ref a → keep b = true) :
    Refers ref key children (parents.filter keep) := by
  rw [refers_iff]
  intro a ha
  obtain ⟨b,hb,hkey⟩ := h.exists_parent ha
  exact ⟨b,List.mem_filter.mpr ⟨hb,hkeep a ha b hb hkey⟩,hkey⟩

/-- A value that no row has is referred to by none. -/
theorem not_mem_of_forall_ne (h : Refers ref key children parents) {k : κ}
    (hk : ∀ b ∈ parents, key b ≠ k) {a : α} (ha : a ∈ children) : ref a ≠ k := by
  obtain ⟨b,hb,hkey⟩ := h.exists_parent ha
  exact fun he => hk b hb (hkey.trans he)

end Refers

end Store
