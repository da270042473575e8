import Mathlib.Algebra.Ring.Nat
import Podly.Store.Table

/-! Totals over the rows of a table, and how a change of one row moves them. -/
namespace Store.Table
variable {κ ρ : Type*} {key : ρ → κ}

/-- What the rows weigh together. -/
def total (t : Table key) (w : ρ → ℕ) : ℕ := (t.rows.map w).sum

theorem total_eq_zero {t : Table key} {w : ρ → ℕ} : t.total w = 0 ↔ ∀ r ∈ t.rows, w r = 0 := by
  unfold total
  induction t.rows with
  | nil => simp
  | cons r rows ih => simp [ih]

theorem le_total {t : Table key} {r : ρ} (hr : r ∈ t.rows) (w : ρ → ℕ) : w r ≤ t.total w := by
  unfold total
  generalize t.rows = rows at hr ⊢
  induction rows with
  | nil => cases hr
  | cons s rows ih =>
    rw [List.map_cons,List.sum_cons]
    rcases List.mem_cons.mp hr with rfl | hr
    · omega
    · have := ih hr
      omega

theorem total_add (t : Table key) (w v : ρ → ℕ) :
    t.total (fun r => w r + v r) = t.total w + t.total v := by
  unfold total
  induction t.rows with
  | nil => rfl
  | cons r rows ih =>
    simp only [List.map_cons,List.sum_cons,ih]
    omega

/-- What only the rows of a condition weigh. -/
theorem total_ite (t : Table key) (q : ρ → Bool) (w : ρ → ℕ) :
    t.total (fun r => if q r then w r else 0) = ((t.rows.filter q).map w).sum := by
  unfold total
  induction t.rows with
  | nil => rfl
  | cons r rows ih =>
    rw [List.map_cons,List.sum_cons,ih,List.filter_cons]
    cases q r <;> simp

/-- Weighing the rows of a condition by one counts them. -/
theorem total_toNat (t : Table key) (q : ρ → Bool) :
    t.total (fun r => (q r).toNat) = t.rows.countP q := by
  unfold total
  induction t.rows with
  | nil => rfl
  | cons r rows ih =>
    rw [List.map_cons,List.sum_cons,ih,List.countP_cons]
    cases q r <;> simp [Nat.add_comm]

theorem total_append {ρ : Type*} {key : ρ → ℕ} (t : Table key) {row : ℕ → ρ}
    (hrow : ∀ k, key (row k) = k) (w : ρ → ℕ) :
    (t.append row hrow).total w = t.total w + w (row t.nextKey) := by
  simp [total]

variable [DecidableEq κ]

/-- Changing one row takes off what it weighed and adds what it weighs. -/
theorem total_modify {t : Table key} {k : κ} {f : ρ → ρ} (hf : ∀ r, key (f r) = key r) {r : ρ}
    (hr : t.get k = some r) (w : ρ → ℕ) :
    (t.modify k f hf).total w + w r = t.total w + w (f r) := by
  obtain ⟨hmem,hkey⟩ := get_eq_some.mp hr
  have hnodup := t.nodup
  unfold total modify mapRows
  dsimp only
  generalize t.rows = rows at hmem hnodup ⊢
  induction rows with
  | nil => cases hmem
  | cons s rows ih =>
    obtain ⟨hfresh,hrest⟩ := List.nodup_cons.mp hnodup
    simp only [List.map_cons,List.sum_cons]
    rcases List.mem_cons.mp hmem with rfl | hmem
    · have hsame : rows.map (fun s => if key s = k then f s else s) = rows := by
        refine (List.map_congr_left (fun s hs => if_neg ?_)).trans (List.map_id rows)
        exact fun he => hfresh (List.mem_map.mpr ⟨s,hs,he.trans hkey.symm⟩)
      rw [if_pos hkey,hsame]
      omega
    · have hs : key s ≠ k := fun he => hfresh (List.mem_map.mpr ⟨r,hmem,hkey.trans he.symm⟩)
      have := ih hmem hrest
      rw [if_neg hs]
      omega

end Store.Table
