import Mathlib.Order.Lattice
import Mathlib.Tactic.Common

/-! Windows that tile a stretch: each one starts where the one before it ends. -/
namespace Intervals
variable {α : Type*} [LinearOrder α]

/-- Windows that are not empty and lead from `a` to `b` without a gap. -/
inductive Tiles : α → α → List (α × α) → Prop
  | nil (a : α) : Tiles a a []
  | cons {a b c : α} {ws : List (α × α)} : a < b → Tiles b c ws → Tiles a c ((a,b)::ws)

namespace Tiles
variable {a b t : α} {ws : List (α × α)}

theorem le (h : Tiles a b ws) : a ≤ b := by
  induction h with
  | nil => exact le_rfl
  | cons hlt _ ih => exact hlt.le.trans ih

theorem le_start (h : Tiles a b ws) {w : α × α} (hw : w ∈ ws) : a ≤ w.1 := by
  induction h with
  | nil => cases hw
  | cons hlt _ ih =>
    rcases List.mem_cons.mp hw with rfl | hw
    · exact le_rfl
    · exact hlt.le.trans (ih hw)

theorem starts_increasing (h : Tiles a b ws) : (ws.map Prod.fst).Pairwise (· < ·) := by
  induction h with
  | nil => exact List.Pairwise.nil
  | cons hlt htail ih =>
    refine List.pairwise_cons.mpr ⟨fun s hs => ?_,ih⟩
    obtain ⟨w,hw,rfl⟩ := List.mem_map.mp hs
    exact hlt.trans_le (htail.le_start hw)

/-- Every point of the stretch is in one window only. -/
theorem count_eq_one (h : Tiles a b ws) (ha : a ≤ t) (hb : t < b) :
    ws.countP (fun w => w.1 ≤ t ∧ t < w.2) = 1 := by
  induction h with
  | nil => exact absurd (ha.trans_lt hb) (lt_irrefl _)
  | @cons a c b ws hlt htail ih =>
    by_cases htc : t < c
    · have hrest : ws.countP (fun w => w.1 ≤ t ∧ t < w.2) = 0 := by
        refine List.countP_eq_zero.mpr (fun w hw hin => ?_)
        have hin : w.1 ≤ t ∧ t < w.2 := of_decide_eq_true hin
        exact absurd (htail.le_start hw) (not_le.mpr (hin.1.trans_lt htc))
      rw [List.countP_cons_of_pos (by simp [ha,htc]),hrest]
    · rw [List.countP_cons_of_neg (by simp [htc])]
      exact ih (not_lt.mp htc) hb

end Tiles

end Intervals
