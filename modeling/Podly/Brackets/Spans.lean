import Mathlib.Data.List.Basic

/-! Nested brackets around quoted texts: how deep a position is, which brackets match, and a scan that
finds the outermost pairs. A closing bracket without an open one does not count. -/
namespace Brackets
variable {α : Type*}

/-- The quotes that begin and end a quoted text, what escapes the next symbol of one, and the
brackets. -/
structure Marks (α : Type*) where
  quote : α
  escape : α
  opening : α
  closing : α
  opening_ne_quote : opening ≠ quote
  closing_ne_quote : closing ≠ quote
  closing_ne_opening : closing ≠ opening

/-- Outside of quoted texts, in one, or in one behind an escape. -/
inductive Place
  | outside
  | quoted
  | escaped
deriving DecidableEq

/-- Where a text ends, and how many brackets are open there. -/
structure Point where
  place : Place
  depth : ℕ

variable [DecidableEq α] (M : Marks α)

namespace Marks

def next (p : Point) (x : α) : Point :=
  match p.place with
  | .escaped => ⟨.quoted,p.depth⟩
  | .quoted =>
    if x = M.escape then ⟨.escaped,p.depth⟩
    else if x = M.quote then ⟨.outside,p.depth⟩
    else p
  | .outside =>
    if x = M.quote then ⟨.quoted,p.depth⟩
    else if x = M.opening then ⟨.outside,p.depth + 1⟩
    else if x = M.closing then ⟨.outside,p.depth - 1⟩
    else p

/-- The point behind a text. -/
def behind (xs : List α) : Point := xs.foldl M.next ⟨.outside,0⟩

/-- The point in front of a position. -/
def pointAt (xs : List α) (k : ℕ) : Point := M.behind (xs.take k)

end Marks

/-- A bracket opens at the first position, and the second one closes it: between them the text is
deeper than in front of the first, and behind the second it is not. -/
structure Matched (xs : List α) (i j : ℕ) : Prop where
  opens : xs[i]? = some M.opening
  opensOutside : (M.pointAt xs i).place = .outside
  closes : xs[j]? = some M.closing
  closesOutside : (M.pointAt xs j).place = .outside
  lt : i < j
  deeper : ∀ k, i < k → k ≤ j → (M.pointAt xs i).depth < (M.pointAt xs k).depth
  back : (M.pointAt xs (j + 1)).depth = (M.pointAt xs i).depth

/-- A pair of brackets that nothing encloses. -/
structure Outermost (xs : List α) (i j : ℕ) : Prop extends Matched M xs i j where
  ground : (M.pointAt xs i).depth = 0

/-- The point, the outermost open bracket, and the outermost pairs so far. -/
structure Scan where
  point : Point
  start : Option ℕ
  spans : List (ℕ × ℕ)

namespace Marks

def scanStep (s : Scan) (symbolAt : α × ℕ) : Scan :=
  let point := M.next s.point symbolAt.1
  if s.point.place = .outside ∧ symbolAt.1 = M.opening ∧ s.point.depth = 0 then
    ⟨point,some symbolAt.2,s.spans⟩
  else if s.point.place = .outside ∧ symbolAt.1 = M.closing ∧ s.point.depth = 1 then
    match s.start with
    | some start => ⟨point,none,s.spans ++ [(start,symbolAt.2)]⟩
    | none => ⟨point,none,s.spans⟩
  else ⟨point,s.start,s.spans⟩

/-- The scan in front of a position. -/
def scanTo (xs : List α) (k : ℕ) : Scan :=
  (xs.zipIdx.take k).foldl M.scanStep ⟨⟨.outside,0⟩,none,[]⟩

/-- The outermost pairs of brackets. -/
def spans (xs : List α) : List (ℕ × ℕ) := (M.scanTo xs xs.length).spans

end Marks

/-! Points -/

variable {M} {xs ys : List α} {x : α} {i j k : ℕ}

@[simp] theorem behind_nil : M.behind [] = ⟨.outside,0⟩ := rfl

theorem behind_append (xs ys : List α) : M.behind (xs ++ ys) = ys.foldl M.next (M.behind xs) :=
  List.foldl_append

theorem behind_concat (xs : List α) (x : α) : M.behind (xs ++ [x]) = M.next (M.behind xs) x := by
  rw [behind_append,List.foldl_cons,List.foldl_nil]

@[simp] theorem pointAt_zero (xs : List α) : M.pointAt xs 0 = ⟨.outside,0⟩ := by
  rw [Marks.pointAt,List.take_zero,behind_nil]

theorem pointAt_length (xs : List α) : M.pointAt xs xs.length = M.behind xs := by
  rw [Marks.pointAt,List.take_length]

theorem pointAt_succ (h : xs[k]? = some x) : M.pointAt xs (k + 1) = M.next (M.pointAt xs k) x := by
  rw [Marks.pointAt,List.take_add_one,h,Option.toList_some,behind_concat,Marks.pointAt]

theorem pointAt_append_of_le (h : k ≤ xs.length) : M.pointAt (xs ++ ys) k = M.pointAt xs k := by
  rw [Marks.pointAt,List.take_append_of_le_length h,Marks.pointAt]

theorem next_opening {p : Point} (h : p.place = .outside) :
    M.next p M.opening = ⟨.outside,p.depth + 1⟩ := by
  rw [Marks.next,h]
  simp [M.opening_ne_quote]

theorem next_closing {p : Point} (h : p.place = .outside) :
    M.next p M.closing = ⟨.outside,p.depth - 1⟩ := by
  rw [Marks.next,h]
  simp [M.closing_ne_quote,M.closing_ne_opening]

/-- Only a bracket outside of quoted texts changes the depth. -/
theorem next_depth {p : Point} (hopening : ¬(p.place = .outside ∧ x = M.opening))
    (hclosing : ¬(p.place = .outside ∧ x = M.closing)) : (M.next p x).depth = p.depth := by
  unfold Marks.next
  split
  · rfl
  · split_ifs <;> rfl
  · rename_i hplace
    split_ifs with hquote hopen hclose
    · rfl
    · exact absurd ⟨hplace,hopen⟩ hopening
    · exact absurd ⟨hplace,hclose⟩ hclosing
    · rfl

/-- A text without quotes and brackets leaves none open. -/
theorem behind_of_plain
    (h : ∀ x ∈ xs, x ≠ M.quote ∧ x ≠ M.opening ∧ x ≠ M.closing) : M.behind xs = ⟨.outside,0⟩ := by
  induction xs with
  | nil => rfl
  | cons x xs ih =>
    obtain ⟨⟨hquote,hopening,hclosing⟩,hxs⟩ := List.forall_mem_cons.mp h
    have hnext : M.next ⟨.outside,0⟩ x = ⟨.outside,0⟩ := by
      simp [Marks.next,hquote,hopening,hclosing]
    rw [Marks.behind,List.foldl_cons,hnext]
    exact ih hxs

/-! Pairs -/

theorem Matched.unique (h : Matched M xs i j) (h' : Matched M xs i k) : j = k := by
  by_contra hne
  rcases Nat.lt_or_gt_of_ne hne with hjk | hkj
  · exact absurd h.back (Nat.ne_of_gt (h'.deeper (j + 1) (by have := h.lt; omega) (by omega)))
  · exact absurd h'.back (Nat.ne_of_gt (h.deeper (k + 1) (by have := h'.lt; omega) (by omega)))

/-- No pair encloses an outermost one. -/
theorem Outermost.maximal {i' j' : ℕ} (h : Outermost M xs i j) (h' : Matched M xs i' j')
    (hi : i' ≤ i) (hj : j ≤ j') : i' = i ∧ j' = j := by
  obtain rfl : i' = i := by
    by_contra hne
    have hdeeper := h'.deeper i (by omega) (by have := h.lt; omega)
    rw [h.ground] at hdeeper
    exact absurd hdeeper (Nat.not_lt_zero _)
  exact ⟨rfl,(h.toMatched.unique h').symm⟩

theorem Outermost.disjoint {i' j' : ℕ} (h : Outermost M xs i j) (h' : Outermost M xs i' j')
    (hi : i < i') : j < i' := by
  by_contra hle
  have hdeeper := h.deeper i' hi (by omega)
  rw [h'.ground] at hdeeper
  exact absurd hdeeper (Nat.not_lt_zero _)

/-- A pair that ends at a position is closed there, from depth one. -/
theorem Outermost.depth_end (h : Outermost M xs i k) : (M.pointAt xs k).depth = 1 := by
  have hback := h.back
  rw [pointAt_succ h.closes,next_closing h.closesOutside,h.ground] at hback
  have hdeeper := h.deeper k h.lt (Nat.le_refl _)
  simp only at hback
  omega

/-- More text behind a pair changes nothing about it. -/
theorem Outermost.append_right (h : Outermost M xs i j) (ys : List α) :
    Outermost M (xs ++ ys) i j := by
  have hj : j < xs.length := by
    by_contra hle
    have hcloses := h.closes
    rw [List.getElem?_eq_none (by omega)] at hcloses
    cases hcloses
  have hlt := h.lt
  have hpoint : ∀ k ≤ j + 1, M.pointAt (xs ++ ys) k = M.pointAt xs k :=
    fun k hk => pointAt_append_of_le (by omega)
  have hget : ∀ k ≤ j, (xs ++ ys)[k]? = xs[k]? := fun k hk => List.getElem?_append_left (by omega)
  constructor
  · constructor
    · rw [hget i (by omega),h.opens]
    · rw [hpoint i (by omega),h.opensOutside]
    · rw [hget j (by omega),h.closes]
    · rw [hpoint j (by omega),h.closesOutside]
    · exact hlt
    · intro k hk hle
      rw [hpoint i (by omega),hpoint k (by omega)]
      exact h.deeper k hk hle
    · rw [hpoint i (by omega),hpoint (j + 1) (by omega),h.back]
  · rw [hpoint i (by omega),h.ground]

/-- Nor does a text in front that leaves no bracket and no quote open. -/
theorem Outermost.append_left (h : Outermost M ys i j) (hxs : M.behind xs = ⟨.outside,0⟩) :
    Outermost M (xs ++ ys) (xs.length + i) (xs.length + j) := by
  have hpoint : ∀ k, M.pointAt (xs ++ ys) (xs.length + k) = M.pointAt ys k := by
    intro k
    rw [Marks.pointAt,List.take_length_add_append,behind_append,hxs]
    rfl
  have hget : ∀ k, (xs ++ ys)[xs.length + k]? = ys[k]? := by
    intro k
    rw [List.getElem?_append_right (by omega),Nat.add_sub_cancel_left]
  constructor
  · constructor
    · rw [hget,h.opens]
    · rw [hpoint,h.opensOutside]
    · rw [hget,h.closes]
    · rw [hpoint,h.closesOutside]
    · have hlt := h.lt
      omega
    · intro k hk hle
      obtain ⟨m,rfl⟩ := Nat.exists_eq_add_of_le (show xs.length ≤ k by omega)
      rw [hpoint,hpoint]
      exact h.deeper m (by omega) (by omega)
    · rw [hpoint,Nat.add_assoc,hpoint,h.back]
  · rw [hpoint,h.ground]

/-! The scan -/

/-- The scan in front of a position knows the point there, the bracket that is open since the ground,
and the outermost pairs before. -/
structure Tracks (M : Marks α) (xs : List α) (k : ℕ) (s : Scan) : Prop where
  point : s.point = M.pointAt xs k
  closed : (M.pointAt xs k).depth = 0 → s.start = none
  opened : 0 < (M.pointAt xs k).depth → ∃ i, s.start = some i ∧ i < k ∧
    xs[i]? = some M.opening ∧ (M.pointAt xs i).place = .outside ∧ (M.pointAt xs i).depth = 0 ∧
    ∀ m, i < m → m ≤ k → 0 < (M.pointAt xs m).depth
  mem : ∀ i j, (i,j) ∈ s.spans ↔ Outermost M xs i j ∧ j < k
  ordered : s.spans.Pairwise (fun span span' => span.2 < span'.1)

theorem tracks_zero (M : Marks α) (xs : List α) : Tracks M xs 0 ⟨⟨.outside,0⟩,none,[]⟩ where
  point := (pointAt_zero xs).symm
  closed _ := rfl
  opened h := by simp at h
  mem i j := by simp
  ordered := .nil

theorem Tracks.start_lt {s : Scan} (h : Tracks M xs k s) (hi : s.start = some i) : i < k := by
  rcases Nat.eq_zero_or_pos (M.pointAt xs k).depth with hzero | hpos
  · rw [h.closed hzero] at hi
    cases hi
  · obtain ⟨i',hstart,hlt,-⟩ := h.opened hpos
    rw [hi] at hstart
    rwa [Option.some.inj hstart]

/-- A symbol that ends no pair and leaves the ground to nobody. -/
theorem Tracks.keep {s : Scan} (h : Tracks M xs k s) (hx : xs[k]? = some x)
    (hdepth : (M.next s.point x).depth = 0 ↔ s.point.depth = 0)
    (hends : ∀ i, ¬Outermost M xs i k) :
    Tracks M xs (k + 1) ⟨M.next s.point x,s.start,s.spans⟩ := by
  have hnext : M.next s.point x = M.pointAt xs (k + 1) := by rw [pointAt_succ hx,h.point]
  rw [hnext,h.point] at hdepth
  refine ⟨hnext,fun hzero => h.closed (hdepth.mp hzero),?_,?_,h.ordered⟩
  · intro hpos
    obtain ⟨i,hstart,hlt,hopens,houtside,hground,hdeeper⟩ :=
      h.opened (Nat.pos_of_ne_zero fun hzero => (Nat.ne_of_gt hpos) (hdepth.mpr hzero))
    refine ⟨i,hstart,by omega,hopens,houtside,hground,?_⟩
    intro m hm hle
    rcases Nat.lt_or_ge k m with hlast | hle'
    · rwa [show m = k + 1 by omega]
    · exact hdeeper m hm hle'
  · intro i j
    rw [h.mem]
    constructor
    · rintro ⟨hij,hj⟩
      exact ⟨hij,by omega⟩
    · rintro ⟨hij,hj⟩
      refine ⟨hij,?_⟩
      by_contra hge
      obtain rfl : j = k := by omega
      exact hends i hij

/-- A bracket opens on the ground. -/
theorem Tracks.openGround {s : Scan} (h : Tracks M xs k s) (hx : xs[k]? = some M.opening)
    (hplace : s.point.place = .outside) (hdepth : s.point.depth = 0) :
    Tracks M xs (k + 1) ⟨M.next s.point M.opening,some k,s.spans⟩ := by
  have hnext : M.next s.point M.opening = M.pointAt xs (k + 1) := by rw [pointAt_succ hx,h.point]
  have hone : (M.pointAt xs (k + 1)).depth = 1 := by
    rw [← hnext,next_opening hplace,hdepth]
  rw [h.point] at hplace hdepth
  refine ⟨hnext,fun hzero => by omega,fun _ => ⟨k,rfl,by omega,hx,hplace,hdepth,?_⟩,?_,h.ordered⟩
  · intro m hm hle
    rw [show m = k + 1 by omega,hone]
    exact Nat.one_pos
  · intro i j
    rw [h.mem]
    constructor
    · rintro ⟨hij,hj⟩
      exact ⟨hij,by omega⟩
    · rintro ⟨hij,hj⟩
      refine ⟨hij,?_⟩
      by_contra hge
      obtain rfl : j = k := by omega
      exact M.closing_ne_opening (Option.some.inj (hij.closes.symm.trans hx))

/-- The outermost open bracket is closed. -/
theorem Tracks.closeGround {s : Scan} (h : Tracks M xs k s) (hx : xs[k]? = some M.closing)
    (hplace : s.point.place = .outside) (hdepth : s.point.depth = 1) :
    ∃ i, s.start = some i ∧
      Tracks M xs (k + 1) ⟨M.next s.point M.closing,none,s.spans ++ [(i,k)]⟩ := by
  have hnext : M.next s.point M.closing = M.pointAt xs (k + 1) := by rw [pointAt_succ hx,h.point]
  have hzero : (M.pointAt xs (k + 1)).depth = 0 := by
    rw [← hnext,next_closing hplace,hdepth]
  rw [h.point] at hplace hdepth
  obtain ⟨i,hstart,hlt,hopens,houtside,hground,hdeeper⟩ := h.opened (by omega)
  have hpair : Outermost M xs i k := by
    refine ⟨⟨hopens,houtside,hx,hplace,hlt,?_,by rw [hzero,hground]⟩,hground⟩
    intro m hm hle
    rw [hground]
    exact hdeeper m hm hle
  refine ⟨i,hstart,hnext,fun _ => rfl,fun hpos => by omega,?_,?_⟩
  · intro i' j'
    rw [List.mem_append,List.mem_singleton,h.mem,Prod.mk.injEq]
    constructor
    · rintro (⟨hij,hj⟩ | ⟨rfl,rfl⟩)
      · exact ⟨hij,by omega⟩
      · exact ⟨hpair,by omega⟩
    · rintro ⟨hij,hj⟩
      rcases Nat.lt_or_ge j' k with hlt' | hge
      · exact .inl ⟨hij,hlt'⟩
      · obtain rfl : j' = k := by omega
        refine .inr ⟨?_,rfl⟩
        -- of two pairs with one end, one would enclose the other
        rcases Nat.le_total i i' with hle | hle
        · exact (hij.maximal hpair.toMatched hle (Nat.le_refl _)).1.symm
        · exact (hpair.maximal hij.toMatched hle (Nat.le_refl _)).1
  · rw [List.pairwise_append]
    refine ⟨h.ordered,List.pairwise_singleton _ _,?_⟩
    rintro ⟨a,b⟩ hab span hspan
    rw [List.mem_singleton] at hspan
    subst hspan
    obtain ⟨hpair',hb⟩ := (h.mem a b).mp hab
    rcases Nat.lt_trichotomy a i with hai | rfl | hia
    · exact hpair'.disjoint hpair hai
    · exact absurd (hpair'.toMatched.unique hpair.toMatched) (Nat.ne_of_lt hb)
    · have hka := hpair.disjoint hpair' hia
      have hab' := hpair'.lt
      omega

theorem Tracks.step {s : Scan} (h : Tracks M xs k s) (hx : xs[k]? = some x) :
    Tracks M xs (k + 1) (M.scanStep s (x,k)) := by
  have hclosing : ∀ i, Outermost M xs i k → s.point.place = .outside ∧ x = M.closing ∧
      s.point.depth = 1 := by
    intro i hi
    rw [h.point]
    exact ⟨hi.closesOutside,Option.some.inj (hx.symm.trans hi.closes),hi.depth_end⟩
  unfold Marks.scanStep
  dsimp only
  split_ifs with hopen hclose
  · obtain ⟨hplace,rfl,hdepth⟩ := hopen
    exact h.openGround hx hplace hdepth
  · obtain ⟨hplace,rfl,hdepth⟩ := hclose
    obtain ⟨i,hstart,htracks⟩ := h.closeGround hx hplace hdepth
    rw [hstart]
    exact htracks
  · refine h.keep hx ?_ (fun i hi => hclose (hclosing i hi))
    by_cases hopening : s.point.place = .outside ∧ x = M.opening
    · obtain ⟨hplace,rfl⟩ := hopening
      rw [next_opening hplace]
      have hne : s.point.depth ≠ 0 := fun hzero => hopen ⟨hplace,rfl,hzero⟩
      simp [hne]
    · by_cases hclosing' : s.point.place = .outside ∧ x = M.closing
      · obtain ⟨hplace,rfl⟩ := hclosing'
        rw [next_closing hplace]
        have hne : s.point.depth ≠ 1 := fun hone => hclose ⟨hplace,rfl,hone⟩
        simp only
        omega
      · rw [next_depth hopening hclosing']

theorem scanTo_succ (h : xs[k]? = some x) :
    M.scanTo xs (k + 1) = M.scanStep (M.scanTo xs k) (x,k) := by
  rw [Marks.scanTo,List.take_add_one,List.getElem?_zipIdx,h]
  simp [Marks.scanTo]

theorem tracks_scanTo (h : k ≤ xs.length) : Tracks M xs k (M.scanTo xs k) := by
  induction k with
  | zero => exact tracks_zero M xs
  | succ k ih =>
    have hx : xs[k]? = some xs[k] := List.getElem?_eq_getElem h
    rw [scanTo_succ hx]
    exact (ih (by omega)).step hx

/-- The scan finds the outermost pairs, and no others. -/
theorem mem_spans : (i,j) ∈ M.spans xs ↔ Outermost M xs i j := by
  rw [Marks.spans,(tracks_scanTo (Nat.le_refl _)).mem]
  constructor
  · exact fun h => h.1
  · intro h
    refine ⟨h,?_⟩
    by_contra hle
    have hcloses := h.closes
    rw [List.getElem?_eq_none (by omega)] at hcloses
    cases hcloses

theorem spans_pairwise (M : Marks α) (xs : List α) :
    (M.spans xs).Pairwise (fun span span' => span.2 < span'.1) :=
  (tracks_scanTo (Nat.le_refl _)).ordered

end Brackets
