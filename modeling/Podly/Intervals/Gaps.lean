import Podly.Intervals.Coalesce

/-! The gaps a cursor leaves when it walks a list of intervals in the given order, and the exact
condition on that order under which the gaps are the complement of the intervals. -/
namespace Intervals
variable {α : Type*} [LinearOrder α]

/-- Walk the list with a cursor: the stretch from the cursor to the next start is a gap, and the
cursor moves to the end of the interval, also backwards. The last gap runs up to `stop`. -/
def gapsFrom (cursor stop : α) : List (α × α) → List (α × α)
  | [] => if cursor < stop then [(cursor,stop)] else []
  | w::ws =>
    if cursor < w.1 then (cursor,w.1)::gapsFrom w.2 stop ws else gapsFrom w.2 stop ws

theorem gapsFrom_nonempty {cursor stop : α} {ws : List (α × α)} {g : α × α}
    (hg : g ∈ gapsFrom cursor stop ws) : g.1 < g.2 := by
  induction ws generalizing cursor with
  | nil =>
    simp only [gapsFrom] at hg
    split at hg
    · rename_i hlt
      rw [List.mem_singleton.mp hg]
      exact hlt
    · simp at hg
  | cons w ws ih =>
    simp only [gapsFrom] at hg
    split at hg
    · rename_i hlt
      rcases List.mem_cons.mp hg with rfl | hg
      · exact hlt
      · exact ih hg
    · exact ih hg

/-- Nothing beyond both the stop and every start lies in a gap. -/
theorem lt_of_covers_gapsFrom {cursor stop : α} {ws : List (α × α)} {t : α}
    (ht : Covers (gapsFrom cursor stop ws) t) : t < stop ∨ ∃ w ∈ ws, t < w.1 := by
  induction ws generalizing cursor with
  | nil =>
    simp only [gapsFrom] at ht
    split at ht
    · exact .inl (by simpa using ht : _ ∧ _).2
    · simp at ht
  | cons w ws ih =>
    simp only [gapsFrom] at ht
    have hrest : Covers (gapsFrom w.2 stop ws) t → t < stop ∨ ∃ v ∈ w::ws, t < v.1 := by
      intro h
      obtain h | ⟨v,hv,hlt⟩ := ih h
      · exact .inl h
      · exact .inr ⟨v,by simp [hv],hlt⟩
    split at ht
    · rcases (covers_cons _ _ t).mp ht with ht | ht
      · exact .inr ⟨w,by simp,ht.2⟩
      · exact hrest ht
    · exact hrest ht

/-- The walk loses nothing: a point past the cursor and before the stop, or before the end of some
interval, is in a gap or in an interval, whatever the order of the list. -/
theorem covers_gapsFrom_or {cursor stop : α} {ws : List (α × α)} {t : α} (hc : cursor ≤ t)
    (ht : t < stop ∨ ∃ w ∈ ws, t < w.2) : Covers (gapsFrom cursor stop ws) t ∨ Covers ws t := by
  induction ws generalizing cursor with
  | nil =>
    have hstop : t < stop := by simpa using ht
    left
    simp [gapsFrom, hc.trans_lt hstop, hc, hstop]
  | cons w ws ih =>
    simp only [gapsFrom, covers_cons]
    rcases lt_or_ge t w.1 with h₁ | h₁
    · left
      simp [hc.trans_lt h₁, hc, h₁]
    rcases lt_or_ge t w.2 with h₂ | h₂
    · exact .inr (.inl ⟨h₁,h₂⟩)
    have hrest : t < stop ∨ ∃ v ∈ ws, t < v.2 := by
      refine ht.imp_right ?_
      rintro ⟨v,hv,hlt⟩
      rcases List.mem_cons.mp hv with rfl | hv
      · exact absurd hlt h₂.not_gt
      · exact ⟨v,hv,hlt⟩
    rcases ih h₂ hrest with h | h
    · left
      split
      · exact (covers_cons _ _ t).mpr (.inr h)
      · exact h
    · exact .inr (.inr h)

/-- A cursor that stands before a point `x` does not get past it unnoticed: the walk opens a gap
before `x`, or an interval starts before `x` and reaches it. -/
theorem gap_or_interval_before {cursor stop x : α} (hx : cursor < x) (hstop : x ≤ stop)
    (ws : List (α × α)) :
    (∃ g ∈ gapsFrom cursor stop ws, g.1 < x) ∨ ∃ w ∈ ws, w.1 < x ∧ x ≤ w.2 := by
  induction ws generalizing cursor with
  | nil => exact .inl ⟨(cursor,stop),by simp [gapsFrom, hx.trans_le hstop],hx⟩
  | cons w ws ih =>
    simp only [gapsFrom]
    by_cases hgap : cursor < w.1
    · exact .inl ⟨(cursor,w.1),by simp [hgap],hx⟩
    rw [if_neg hgap]
    rcases lt_or_ge w.2 x with hw | hw
    · refine (ih hw).imp_right ?_
      rintro ⟨v,hv,h⟩
      exact ⟨v,by simp [hv],h⟩
    · exact .inr ⟨w,by simp,(not_lt.mp hgap).trans_lt hx,hw⟩

/-- The order in which a walk leaves exactly the complement. `opened` is the end of the last gap
left so far and `furthest` the greatest end passed so far. No interval starts before the end of
the last gap, and a new gap is only opened at the furthest end and after the last gap. -/
def JumpsInOrder (stop : α) (opened : Option α) (furthest cursor : α) : List (α × α) → Prop
  | [] => cursor < stop → furthest ≤ cursor ∧ ∀ x ∈ opened, x < cursor
  | w::ws => (∀ x ∈ opened, x ≤ w.1) ∧
      (cursor < w.1 → furthest ≤ cursor ∧ (∀ x ∈ opened, x < cursor) ∧ w.1 ≤ stop) ∧
      JumpsInOrder stop (if cursor < w.1 then some w.1 else opened) (max furthest w.2) w.2 ws

instance instDecidableJumpsInOrder (stop : α) (opened : Option α) (furthest cursor : α)
    (ws : List (α × α)) : Decidable (JumpsInOrder stop opened furthest cursor ws) :=
  match ws with
  | [] => inferInstanceAs (Decidable (_ → _ ∧ _))
  | w::ws =>
    have := instDecidableJumpsInOrder stop (if cursor < w.1 then some w.1 else opened)
      (max furthest w.2) w.2 ws
    inferInstanceAs (Decidable (_ ∧ (_ → _ ∧ _ ∧ _) ∧ _))

namespace JumpsInOrder

/-- No interval starts before the end of a gap already left. -/
theorem opened_le {stop furthest cursor : α} {opened : Option α} {ws : List (α × α)}
    (h : JumpsInOrder stop opened furthest cursor ws) {x : α} (hx : x ∈ opened) {w : α × α}
    (hw : w ∈ ws) : x ≤ w.1 := by
  induction ws generalizing opened furthest cursor x with
  | nil => simp at hw
  | cons v ws ih =>
    obtain ⟨hopen,hjump,hrest⟩ := h
    rcases List.mem_cons.mp hw with rfl | hw
    · exact hopen x hx
    · by_cases hgap : cursor < v.1
      · rw [if_pos hgap] at hrest
        have hv := ih hrest (Option.mem_some_self v.1) hw
        exact ((hjump hgap).2.1 x hx).le.trans (hgap.le.trans hv)
      · rw [if_neg hgap] at hrest
        exact ih hrest hx hw

/-- Every later gap lies past what the walk has seen and before the stop. -/
theorem gap_bounds {stop furthest cursor : α} {opened : Option α} {ws : List (α × α)}
    (h : JumpsInOrder stop opened furthest cursor ws) {g : α × α}
    (hg : g ∈ gapsFrom cursor stop ws) :
    furthest ≤ g.1 ∧ (∀ x ∈ opened, x < g.1) ∧ g.2 ≤ stop := by
  induction ws generalizing opened furthest cursor with
  | nil =>
    simp only [gapsFrom] at hg
    split at hg
    · rename_i hlt
      obtain ⟨hf,ho⟩ := h hlt
      rw [List.mem_singleton.mp hg]
      exact ⟨hf,ho,le_rfl⟩
    · simp at hg
  | cons w ws ih =>
    obtain ⟨-,hjump,hrest⟩ := h
    simp only [gapsFrom] at hg
    by_cases hgap : cursor < w.1
    · rw [if_pos hgap] at hg hrest
      obtain ⟨hf,ho,hstop⟩ := hjump hgap
      rcases List.mem_cons.mp hg with rfl | hg
      · exact ⟨hf,ho,hstop⟩
      · obtain ⟨hf',ho',hstop'⟩ := ih hrest hg
        refine ⟨(le_max_left _ _).trans hf',?_,hstop'⟩
        intro x hx
        exact (ho x hx).trans (hgap.trans (ho' w.1 (Option.mem_some_self _)))
    · rw [if_neg hgap] at hg hrest
      obtain ⟨hf',ho',hstop'⟩ := ih hrest hg
      exact ⟨(le_max_left _ _).trans hf',ho',hstop'⟩

theorem separated {stop furthest cursor : α} {opened : Option α} {ws : List (α × α)}
    (h : JumpsInOrder stop opened furthest cursor ws) : Separated (gapsFrom cursor stop ws) := by
  refine ⟨fun g hg => gapsFrom_nonempty hg,?_⟩
  induction ws generalizing opened furthest cursor with
  | nil =>
    simp only [gapsFrom]
    split <;> simp
  | cons w ws ih =>
    have hrest := h.2.2
    simp only [gapsFrom]
    by_cases hgap : cursor < w.1
    · rw [if_pos hgap] at hrest ⊢
      refine List.pairwise_cons.mpr ⟨?_,ih hrest⟩
      intro g hg
      exact (gap_bounds hrest hg).2.1 w.1 (Option.mem_some_self _)
    · rw [if_neg hgap] at hrest ⊢
      exact ih hrest

/-- No gap meets an interval: not an earlier one, which the gap lies past, and not a later one,
which starts after the gap. -/
theorem not_covers {stop furthest cursor : α} {opened : Option α} {ws : List (α × α)}
    (h : JumpsInOrder stop opened furthest cursor ws) {t : α}
    (ht : Covers (gapsFrom cursor stop ws) t) : ¬ Covers ws t := by
  induction ws generalizing opened furthest cursor with
  | nil => simp
  | cons w ws ih =>
    have hrest := h.2.2
    rw [covers_cons]
    by_cases hgap : cursor < w.1
    · rw [if_pos hgap] at hrest
      simp only [gapsFrom, if_pos hgap, covers_cons] at ht
      rcases ht with ⟨-,htw⟩ | ht
      · rintro (⟨hwt,-⟩ | ⟨v,hv,hvt,-⟩)
        · exact absurd htw hwt.not_gt
        · have hle := hrest.opened_le (Option.mem_some_self w.1) hv
          exact absurd htw (hle.trans hvt).not_gt
      · rintro (⟨-,htw⟩ | hcov)
        · obtain ⟨g,hg,hgt,-⟩ := ht
          have hle := (le_max_right _ _).trans (hrest.gap_bounds hg).1
          exact absurd htw (hle.trans hgt).not_gt
        · exact ih hrest ht hcov
    · rw [if_neg hgap] at hrest
      simp only [gapsFrom, if_neg hgap] at ht
      rintro (⟨-,htw⟩ | hcov)
      · obtain ⟨g,hg,hgt,-⟩ := ht
        have hle := (le_max_right _ _).trans (hrest.gap_bounds hg).1
        exact absurd htw (hle.trans hgt).not_gt
      · exact ih hrest ht hcov

theorem lt_stop {stop furthest cursor : α} {opened : Option α} {ws : List (α × α)}
    (h : JumpsInOrder stop opened furthest cursor ws) {t : α}
    (ht : Covers (gapsFrom cursor stop ws) t) : t < stop := by
  obtain ⟨g,hg,-,hlt⟩ := ht
  exact hlt.trans_le (h.gap_bounds hg).2.2

end JumpsInOrder

/-- The gaps are in order, end by the stop and meet none of the intervals. -/
structure ExactGaps (stop : α) (gaps ws : List (α × α)) : Prop where
  separated : Separated gaps
  lt_stop : ∀ t, Covers gaps t → t < stop
  not_covers : ∀ t, Covers gaps t → ¬ Covers ws t

namespace ExactGaps
variable {stop : α} {gaps ws : List (α × α)}

theorem end_le_stop (h : ExactGaps stop gaps ws) {g : α × α} (hg : g ∈ gaps) : g.2 ≤ stop := by
  by_contra hlt
  have hlt := lt_of_not_ge hlt
  have hcov : Covers gaps (max g.1 stop) :=
    ⟨g,hg,le_max_left _ _,max_lt (h.separated.nonempty g hg) hlt⟩
  exact absurd (h.lt_stop _ hcov) (le_max_right _ _).not_gt

/-- An interval that reaches the end of a gap does not start before that end. -/
theorem end_le_start (h : ExactGaps stop gaps ws) {g w : α × α} (hg : g ∈ gaps) (hw : w ∈ ws)
    (hreach : g.2 ≤ w.2) : g.2 ≤ w.1 := by
  by_contra hlt
  have hlt := lt_of_not_ge hlt
  have hmax : max g.1 w.1 < g.2 := max_lt (h.separated.nonempty g hg) hlt
  exact h.not_covers _ ⟨g,hg,le_max_left _ _,hmax⟩ ⟨w,hw,le_max_right _ _,hmax.trans_le hreach⟩

end ExactGaps

/-- How the gaps `pre` left so far and the intervals `seen` so far determine what
`JumpsInOrder` remembers of them. -/
structure WalkState (pre seen : List (α × α)) (opened : Option α) (furthest cursor : α) :
    Prop where
  opened_mem : ∀ x ∈ opened, ∃ g ∈ pre, g.2 = x
  accounted : ∀ t < furthest, Covers pre t ∨ Covers seen t
  cursor_le : cursor ≤ furthest

namespace WalkState
variable {stop furthest cursor : α} {opened : Option α} {pre seen ws : List (α × α)}

/-- The gap opened at the cursor is past everything seen: otherwise its first point was accounted
for before. -/
theorem gap_opens (h : WalkState pre seen opened furthest cursor) {x : α} {gs : List (α × α)}
    (hexact : ExactGaps stop (pre ++ (cursor,x)::gs) (seen ++ ws)) (hx : cursor < x) :
    furthest ≤ cursor ∧ (∀ y ∈ opened, y < cursor) ∧ x ≤ stop := by
  have hord := (List.pairwise_append.mp hexact.separated.ordered).2.2
  refine ⟨?_,?_,hexact.end_le_stop (by simp : (cursor,x) ∈ pre ++ (cursor,x)::gs)⟩
  · by_contra hlt
    have hcov : Covers (pre ++ (cursor,x)::gs) cursor := by simp [hx]
    rcases h.accounted cursor (lt_of_not_ge hlt) with ⟨g,hg,-,hgt⟩ | hseen
    · exact lt_asymm hgt (hord g hg (cursor,x) (by simp))
    · exact hexact.not_covers cursor hcov ((covers_append _ _ _).mpr (.inl hseen))
  · intro y hy
    obtain ⟨g,hg,rfl⟩ := h.opened_mem y hy
    exact hord g hg (cursor,x) (by simp)

/-- The next interval starts after the last gap: if it ends before the gap does, the cursor is
thrown back and cannot pass the gap again. -/
theorem opened_le_start (h : WalkState pre seen opened furthest cursor) {w : α × α}
    (hexact : ExactGaps stop (pre ++ gapsFrom w.2 stop ws) (seen ++ w::ws)) {x : α}
    (hx : x ∈ opened) : x ≤ w.1 := by
  obtain ⟨g,hg,rfl⟩ := h.opened_mem x hx
  have hg' : g ∈ pre ++ gapsFrom w.2 stop ws := List.mem_append_left _ hg
  rcases lt_or_ge w.2 g.2 with hback | hreach
  · rcases gap_or_interval_before hback (hexact.end_le_stop hg') ws with
      ⟨g',hmem,hlt⟩ | ⟨v,hv,hlt,hle⟩
    · have hord := (List.pairwise_append.mp hexact.separated.ordered).2.2
      exact absurd hlt (hord g hg g' hmem).not_gt
    · exact absurd (hexact.end_le_start hg' (by simp [hv]) hle) hlt.not_ge
  · exact hexact.end_le_start hg' (by simp) hreach

theorem step_gap (h : WalkState pre seen opened furthest cursor) (w : α × α) :
    WalkState (pre ++ [(cursor,w.1)]) (seen ++ [w]) (some w.1) (max furthest w.2) w.2 := by
  refine ⟨?_,?_,le_max_right _ _⟩
  · intro x hx
    exact ⟨(cursor,w.1),by simp,Option.mem_some_iff.mp hx⟩
  · intro t ht
    rcases lt_or_ge t furthest with hf | hf
    · simpa [or_assoc] using (h.accounted t hf).elim .inl (fun h => .inr (.inr (.inl h)))
    · have htw : t < w.2 := (lt_max_iff.mp ht).resolve_left hf.not_gt
      rcases lt_or_ge t w.1 with h₁ | h₁
      · left
        simp [h.cursor_le.trans hf, h₁]
      · right
        simp [h₁, htw]

theorem step_skip (h : WalkState pre seen opened furthest cursor) {w : α × α}
    (hgap : ¬ cursor < w.1) : WalkState pre (seen ++ [w]) opened (max furthest w.2) w.2 := by
  refine ⟨h.opened_mem,?_,le_max_right _ _⟩
  intro t ht
  rcases lt_or_ge t furthest with hf | hf
  · exact (h.accounted t hf).imp_right (fun hs => (covers_append _ _ _).mpr (.inl hs))
  · have htw : t < w.2 := (lt_max_iff.mp ht).resolve_left hf.not_gt
    right
    simp [(not_lt.mp hgap).trans (h.cursor_le.trans hf), htw]

theorem jumpsInOrder (h : WalkState pre seen opened furthest cursor)
    (hexact : ExactGaps stop (pre ++ gapsFrom cursor stop ws) (seen ++ ws)) :
    JumpsInOrder stop opened furthest cursor ws := by
  induction ws generalizing pre seen opened furthest cursor with
  | nil =>
    intro hlt
    rw [gapsFrom, if_pos hlt] at hexact
    obtain ⟨hf,ho,-⟩ := h.gap_opens hexact hlt
    exact ⟨hf,ho⟩
  | cons w ws ih =>
    by_cases hgap : cursor < w.1
    · have hexact' : ExactGaps stop ((pre ++ [(cursor,w.1)]) ++ gapsFrom w.2 stop ws)
          ((seen ++ [w]) ++ ws) := by simpa [gapsFrom, hgap] using hexact
      simp only [gapsFrom, if_pos hgap] at hexact
      obtain ⟨hf,ho,hstop⟩ := h.gap_opens hexact hgap
      refine ⟨fun x hx => (ho x hx).le.trans hgap.le,fun _ => ⟨hf,ho,hstop⟩,?_⟩
      rw [if_pos hgap]
      exact ih (h.step_gap w) hexact'
    · have hexact' : ExactGaps stop (pre ++ gapsFrom w.2 stop ws) ((seen ++ [w]) ++ ws) := by
        simpa [gapsFrom, hgap] using hexact
      simp only [gapsFrom, if_neg hgap] at hexact
      refine ⟨fun x hx => h.opened_le_start hexact hx,fun hlt => absurd hlt hgap,?_⟩
      rw [if_neg hgap]
      exact ih (h.step_skip hgap) hexact'

end WalkState

/-- The gaps left by a walk from the least point are exactly the complement of the intervals if
and only if the walk jumps in order. -/
theorem exactGaps_iff [OrderBot α] (stop : α) (ws : List (α × α)) :
    ExactGaps stop (gapsFrom ⊥ stop ws) ws ↔ JumpsInOrder stop none ⊥ ⊥ ws := by
  constructor
  · intro h
    have hstart : WalkState ([] : List (α × α)) [] none ⊥ ⊥ := ⟨by simp,by simp,le_rfl⟩
    exact hstart.jumpsInOrder h
  · intro h
    exact ⟨h.separated,fun _ => h.lt_stop,fun _ => h.not_covers⟩

/-- With the points it cannot lose, exactness pins the gaps down. -/
theorem ExactGaps.covers_iff [OrderBot α] {stop : α} {ws : List (α × α)}
    (h : ExactGaps stop (gapsFrom ⊥ stop ws) ws) (t : α) :
    Covers (gapsFrom ⊥ stop ws) t ↔ t < stop ∧ ¬ Covers ws t := by
  constructor
  · intro ht
    exact ⟨h.lt_stop t ht,h.not_covers t ht⟩
  · rintro ⟨hstop,hws⟩
    exact (covers_gapsFrom_or bot_le (.inl hstop)).resolve_right hws

/-- The gaps of a separated list of intervals are in order and meet none of them. -/
theorem Separated.gapsFrom_separated {cursor stop : α} {ws : List (α × α)} (h : Separated ws)
    (hc : ∀ w ∈ ws, cursor ≤ w.1) :
    Separated (gapsFrom cursor stop ws) ∧ (∀ g ∈ gapsFrom cursor stop ws, cursor ≤ g.1) ∧
      ∀ t, Covers (gapsFrom cursor stop ws) t → ¬ Covers ws t := by
  induction ws generalizing cursor with
  | nil =>
    simp only [gapsFrom]
    split
    · rename_i hlt
      exact ⟨⟨by simpa using hlt,by simp⟩,by simp,by simp⟩
    · exact ⟨Separated.nil,by simp,by simp⟩
  | cons w ws ih =>
    obtain ⟨hw,hb,hs⟩ := Separated.cons_iff.mp h
    obtain ⟨hsep,hstart,hdisj⟩ := ih hs (fun b hb' => (hb b hb').le)
    have hcw : cursor ≤ w.1 := hc w (by simp)
    -- Past the end of `w` the rest of the walk meets neither `w` nor the later intervals.
    have hrest : ∀ t, Covers (gapsFrom w.2 stop ws) t → ¬ Covers (w::ws) t := by
      intro t ht
      rw [covers_cons]
      rintro (⟨-,hlt⟩ | hcov)
      · obtain ⟨g,hg,hgt,-⟩ := ht
        exact absurd hlt ((hstart g hg).trans hgt).not_gt
      · exact hdisj t ht hcov
    simp only [gapsFrom]
    split
    · rename_i hgap
      refine ⟨Separated.cons_iff.mpr ⟨hgap,?_,hsep⟩,?_,?_⟩
      · intro g hg
        exact hw.trans_le (hstart g hg)
      · intro g hg
        rcases List.mem_cons.mp hg with rfl | hg
        · exact le_rfl
        · exact (hcw.trans hw.le).trans (hstart g hg)
      · intro t ht
        rcases (covers_cons _ _ t).mp ht with ⟨-,hlt⟩ | ht
        · exact fun hcov => absurd (h.head_le_of_covers hcov) hlt.not_ge
        · exact hrest t ht
    · refine ⟨hsep,?_,hrest⟩
      intro g hg
      exact (hcw.trans hw.le).trans (hstart g hg)

/-- Where the walk over the list as given is exact, normalising first changes nothing. -/
theorem ExactGaps.gapsFrom_normalize [OrderBot α] {stop : α} {ws : List (α × α)}
    (h : ExactGaps stop (gapsFrom ⊥ stop ws) ws) :
    gapsFrom ⊥ stop (normalize ws) = gapsFrom ⊥ stop ws := by
  obtain ⟨hsep,-,hdisj⟩ :=
    @Separated.gapsFrom_separated α _ ⊥ stop _ (normalize_separated ws) (fun _ _ => bot_le)
  refine hsep.eq_of_covers h.separated ?_
  intro t
  rw [h.covers_iff]
  constructor
  · intro ht
    have hws : ¬ Covers ws t := fun hcov => hdisj t ht ((covers_normalize ws t).mpr hcov)
    refine ⟨?_,hws⟩
    rcases lt_of_covers_gapsFrom ht with hstop | ⟨n,hn,hlt⟩
    · exact hstop
    -- A start of a normalised interval lies in one of the given ones, so `t` was passed there too.
    · have hn' : Covers (normalize ws) n.1 :=
        Covers.of_mem hn le_rfl ((normalize_separated ws).nonempty n hn)
      obtain ⟨w,hw,-,hlt'⟩ := (covers_normalize ws n.1).mp hn'
      have hpassed : Covers (gapsFrom ⊥ stop ws) t :=
        (covers_gapsFrom_or bot_le (.inr ⟨w,hw,hlt.trans hlt'⟩)).resolve_right hws
      exact h.lt_stop t hpassed
  · rintro ⟨hstop,hws⟩
    refine (covers_gapsFrom_or bot_le (.inl hstop)).resolve_right ?_
    rwa [covers_normalize]

end Intervals
