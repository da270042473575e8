import Mathlib.Algebra.Order.BigOperators.Group.List
import Mathlib.Algebra.Order.Group.Basic
import Mathlib.Algebra.Order.Group.Nat
import Mathlib.Algebra.Ring.Nat
import Mathlib.Data.Finset.Max

/-! Amounts recorded at points of time, and what a half-open window of fixed width holds of them.
A log is bounded when no window holds more than a limit; it stays bounded exactly when each new
entry fits into every window that contains its time. -/
namespace Sliding
variable {τ : Type*} [AddCommGroup τ] [LinearOrder τ]

/-- A time lies in the half-open window that starts at `start`. -/
def InWindow (width start t : τ) : Prop := start ≤ t ∧ t < start + width

instance (width start t : τ) : Decidable (InWindow width start t) :=
  inferInstanceAs (Decidable (_ ∧ _))

/-- What the window holds of a log. -/
def windowTotal (width start : τ) (log : List (τ × ℕ)) : ℕ :=
  ((log.filter (fun entry => InWindow width start entry.1)).map Prod.snd).sum

/-- No window holds more than the limit. -/
def Bounded (limit : ℕ) (width : τ) (log : List (τ × ℕ)) : Prop :=
  ∀ start, windowTotal width start log ≤ limit

/-- A new entry fits into every window that contains its time. -/
def Fits (limit : ℕ) (width : τ) (log : List (τ × ℕ)) (t : τ) (amount : ℕ) : Prop :=
  ∀ start, InWindow width start t → windowTotal width start log + amount ≤ limit

/-- What is less than a width before `t`, or later. -/
def recent (width t : τ) (log : List (τ × ℕ)) : List (τ × ℕ) :=
  log.filter (fun entry => t - width < entry.1)

variable {limit : ℕ} {width start t : τ} {log late : List (τ × ℕ)} {amount : ℕ}

@[simp] theorem windowTotal_nil : windowTotal width start ([] : List (τ × ℕ)) = 0 := rfl

@[simp] theorem windowTotal_append : windowTotal width start (log ++ late) =
    windowTotal width start log + windowTotal width start late := by
  simp [windowTotal]

theorem windowTotal_singleton : windowTotal width start [(t,amount)] =
    if InWindow width start t then amount else 0 := by
  by_cases h : InWindow width start t <;> simp [windowTotal,h]

theorem windowTotal_le_sum : windowTotal width start log ≤ (log.map Prod.snd).sum :=
  (List.filter_sublist.map Prod.snd).sum_le_sum (fun _ _ => Nat.zero_le _)

@[simp] theorem bounded_nil : Bounded limit width ([] : List (τ × ℕ)) :=
  fun _ => Nat.zero_le limit

theorem Bounded.of_append (h : Bounded limit width (log ++ late)) : Bounded limit width log := by
  intro start
  have hstart := h start
  rw [windowTotal_append] at hstart
  omega

theorem bounded_concat_iff : Bounded limit width (log ++ [(t,amount)]) ↔
    Bounded limit width log ∧ Fits limit width log t amount := by
  constructor
  · intro h
    refine ⟨h.of_append,?_⟩
    intro start ht
    have hstart := h start
    rwa [windowTotal_append,windowTotal_singleton,if_pos ht] at hstart
  · rintro ⟨hlog,hfits⟩ start
    rw [windowTotal_append,windowTotal_singleton]
    split
    · rename_i ht
      exact hfits start ht
    · exact hlog start

/-- Nothing recent comes of what lies a width or more before `t`. -/
theorem recent_append (hlog : ∀ entry ∈ log, entry.1 ≤ t - width) :
    recent width t (log ++ late) = recent width t late := by
  have hnone : recent width t log = [] := by
    rw [recent,List.filter_eq_nil_iff]
    intro entry hentry
    simpa using hlog entry hentry
  rw [recent,List.filter_append]
  exact (congrArg (· ++ _) hnone).trans (List.nil_append _)

variable [IsOrderedAddMonoid τ]

/-- A window that contains `t` holds nothing of what lies a width or more before `t`. -/
theorem windowTotal_eq_zero (h : ∀ entry ∈ log, entry.1 ≤ t - width)
    (ht : InWindow width start t) : windowTotal width start log = 0 := by
  have hnone : log.filter (fun entry => InWindow width start entry.1) = [] := by
    rw [List.filter_eq_nil_iff]
    intro entry hentry hin
    have hstart : start ≤ entry.1 := (of_decide_eq_true hin).1
    have hlate : t < entry.1 + width := ht.2.trans_le (add_le_add_left hstart width)
    exact absurd (h entry hentry) (not_le.mpr (sub_lt_iff_lt_add.mpr hlate))
  simp [windowTotal,hnone]

/-- What was recorded a width or more before `t` does not matter to an entry at `t`: it fits when
there is room for it next to everything recorded later. -/
theorem fits_of_room (hlog : ∀ entry ∈ log, entry.1 ≤ t - width)
    (hroom : (late.map Prod.snd).sum + amount ≤ limit) :
    Fits limit width (log ++ late) t amount := by
  intro start ht
  rw [windowTotal_append,windowTotal_eq_zero hlog ht]
  have hlate : windowTotal width start late ≤ (late.map Prod.snd).sum := windowTotal_le_sum
  omega

/-- A window that contains `t` holds only what is recent at `t`. -/
theorem windowTotal_le_recent (ht : InWindow width start t) :
    windowTotal width start log ≤ ((recent width t log).map Prod.snd).sum := by
  apply ((List.monotone_filter_right _ ?_).map Prod.snd).sum_le_sum (fun _ _ => Nat.zero_le _)
  intro entry hin
  have hstart : start ≤ entry.1 := (of_decide_eq_true hin).1
  have hlate : t < entry.1 + width := ht.2.trans_le (add_le_add_left hstart width)
  exact decide_eq_true (sub_lt_iff_lt_add.mpr hlate)

/-- An entry fits when there is room for it next to what is recent. -/
theorem fits_of_recent (hroom : ((recent width t log).map Prod.snd).sum + amount ≤ limit) :
    Fits limit width log t amount := by
  intro start ht
  have hrecent : windowTotal width start log ≤ ((recent width t log).map Prod.snd).sum :=
    windowTotal_le_recent ht
  omega

/-- At the end of a log everything recent lies in one window with the new entry, the window that
starts with the earliest of it. -/
theorem room_of_fits (hlast : ∀ entry ∈ log, entry.1 ≤ t) (hsome : recent width t log ≠ [])
    (hfits : Fits limit width log t amount) :
    ((recent width t log).map Prod.snd).sum + amount ≤ limit := by
  classical
  obtain ⟨first,hfirst,hearliest⟩ := Finset.exists_min_image (recent width t log).toFinset Prod.fst
    (List.toFinset_nonempty_iff _ |>.mpr hsome)
  have hfirst := List.mem_toFinset.mp hfirst
  have hend : t < first.1 + width :=
    sub_lt_iff_lt_add.mp (of_decide_eq_true (List.mem_filter.mp hfirst).2)
  have hwindow := hfits first.1 ⟨hlast first (List.mem_filter.mp hfirst).1,hend⟩
  have hinside : recent width t log =
      recent width t (log.filter (fun entry => InWindow width first.1 entry.1)) := by
    rw [recent,recent,List.filter_filter]
    apply List.filter_congr
    intro entry hentry
    rw [Bool.eq_iff_iff,Bool.and_eq_true,iff_self_and]
    intro hin
    have hlate := hearliest entry (List.mem_toFinset.mpr (List.mem_filter.mpr ⟨hentry,hin⟩))
    exact decide_eq_true ⟨hlate,(hlast entry hentry).trans_lt hend⟩
  have hrecent : ((recent width t log).map Prod.snd).sum ≤ windowTotal width first.1 log := by
    rw [hinside]
    exact (List.filter_sublist.map Prod.snd).sum_le_sum (fun _ _ => Nat.zero_le _)
  omega

end Sliding
