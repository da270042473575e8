import Mathlib.Data.List.Basic
import Mathlib.Data.List.Forall2

/-! Lists read entry by entry, where a reader may skip an entry or fail on it. -/
namespace Lists
variable {α β : Type*}

/-- What a reader keeps of a list, unless it fails on an entry. -/
def readAll (read : α → Option (Option β)) (xs : List α) : Option (List β) :=
  (xs.mapM read).map (fun found => found.filterMap id)

section
variable {read : α → Option (Option β)} {xs : List α}

@[simp] theorem readAll_nil : readAll read [] = some [] := rfl

theorem readAll_cons (x : α) (xs : List α) : readAll read (x::xs) =
    (read x).bind (fun found => (readAll read xs).map (fun kept => found.toList ++ kept)) := by
  rw [readAll,List.mapM_cons]
  cases hx : read x with
  | none => rfl
  | some found =>
    cases hxs : xs.mapM read with
    | none => simp [readAll,hxs]
    | some rest => cases found <;> simp [readAll,hxs]

theorem readAll_congr {read' : α → Option (Option β)} (h : ∀ x ∈ xs, read x = read' x) :
    readAll read xs = readAll read' xs := by
  induction xs with
  | nil => rfl
  | cons x xs ih =>
    rw [readAll_cons,readAll_cons,h x List.mem_cons_self,
      ih (fun y hy => h y (List.mem_cons_of_mem _ hy))]

/-- A reader that fails on no entry keeps what it does not skip. -/
theorem readAll_eq_some_iff {kept : List β} : readAll read xs = some kept ↔
    (∀ x ∈ xs, (read x).isSome) ∧ kept = xs.filterMap (fun x => (read x).join) := by
  induction xs generalizing kept with
  | nil =>
    rw [readAll_nil,List.filterMap_nil,Option.some.injEq,eq_comm]
    exact ⟨fun h => ⟨by simp,h⟩,And.right⟩
  | cons x xs ih =>
    rw [readAll_cons,List.filterMap_cons]
    cases hx : read x with
    | none => simp [hx]
    | some found =>
      have hrest : (∃ rest, readAll read xs = some rest ∧ found.toList ++ rest = kept) ↔
          (∀ y ∈ xs, (read y).isSome) ∧
            kept = found.toList ++ xs.filterMap (fun y => (read y).join) := by
        constructor
        · rintro ⟨rest,hrest,rfl⟩
          obtain ⟨hsome,rfl⟩ := ih.mp hrest
          exact ⟨hsome,rfl⟩
        · rintro ⟨hsome,rfl⟩
          exact ⟨_,ih.mpr ⟨hsome,rfl⟩,rfl⟩
      simp only [Option.bind_some,Option.map_eq_some_iff,hrest,List.mem_cons,forall_eq_or_imp,hx,
        Option.isSome_some,true_and]
      cases found <;> rfl

theorem exists_mapM {write : β → Option α} {ys : List β} (h : ∀ y ∈ ys, ∃ x, write y = some x) :
    ∃ xs, ys.mapM write = some xs := by
  induction ys with
  | nil => exact ⟨[],rfl⟩
  | cons y ys ih =>
    obtain ⟨x,hx⟩ := h y List.mem_cons_self
    obtain ⟨xs,hxs⟩ := ih (fun z hz => h z (List.mem_cons_of_mem _ hz))
    refine ⟨x::xs,?_⟩
    rw [List.mapM_cons,hx,hxs]
    rfl

/-- What is written entry by entry is read back if every entry is. -/
theorem readAll_mapM {write : β → Option α} {ys : List β} {xs : List α} (hxs : ys.mapM write = some xs)
    (hback : ∀ y ∈ ys, ∀ x, write y = some x → read x = some (some y)) : readAll read xs = some ys := by
  induction ys generalizing xs with
  | nil =>
    obtain rfl : xs = [] := by simpa using hxs.symm
    rfl
  | cons y ys ih =>
    rw [List.mapM_cons] at hxs
    obtain ⟨x,hx,hrest⟩ := Option.bind_eq_some_iff.mp hxs
    obtain ⟨rest,htail,hcons⟩ := Option.bind_eq_some_iff.mp hrest
    obtain rfl : x::rest = xs := Option.some.inj hcons
    rw [readAll_cons,hback y List.mem_cons_self x hx,
      ih htail (fun z hz => hback z (List.mem_cons_of_mem _ hz))]
    rfl

/-- Nothing is kept exactly if everything is skipped. -/
theorem readAll_eq_nil_iff : readAll read xs = some [] ↔ ∀ x ∈ xs, read x = some none := by
  induction xs with
  | nil => simp
  | cons x xs ih =>
    rw [readAll_cons,List.forall_mem_cons,← ih]
    cases read x with
    | none => simp
    | some found => cases found <;> simp

end

/-- Two readers keep the same exactly if they do so of every entry, if one of them keeps whatever the
other does. -/
theorem filterMap_eq_iff {f g : α → Option β} {xs : List α}
    (hdom : ∀ x ∈ xs, (f x).isSome → (g x).isSome) :
    xs.filterMap f = xs.filterMap g ↔ ∀ x ∈ xs, f x = g x := by
  refine ⟨?_,fun h => List.filterMap_congr h⟩
  have hlength : ∀ ys : List α, (∀ y ∈ ys, (f y).isSome → (g y).isSome) →
      (ys.filterMap f).length ≤ (ys.filterMap g).length := by
    intro ys hys
    induction ys with
    | nil => exact Nat.le_refl _
    | cons y ys ih =>
      have hrest := ih (fun z hz => hys z (List.mem_cons_of_mem _ hz))
      have hy := hys y List.mem_cons_self
      rw [List.filterMap_cons,List.filterMap_cons]
      cases hf : f y with
      | none =>
        cases g y with
        | none => exact hrest
        | some b => exact Nat.le_succ_of_le hrest
      | some a =>
        rw [hf] at hy
        obtain ⟨b,hb⟩ := Option.isSome_iff_exists.mp (hy rfl)
        rw [hb]
        exact Nat.succ_le_succ hrest
  intro h
  induction xs with
  | nil => simp
  | cons x xs ih =>
    have hrest : ∀ y ∈ xs, (f y).isSome → (g y).isSome :=
      fun y hy => hdom y (List.mem_cons_of_mem _ hy)
    have hx := hdom x List.mem_cons_self
    rw [List.filterMap_cons,List.filterMap_cons] at h
    rw [List.forall_mem_cons]
    cases hf : f x with
    | none =>
      cases hg : g x with
      | none =>
        rw [hf,hg] at h
        exact ⟨rfl,ih hrest h⟩
      | some b =>
        rw [hf,hg] at h
        have hle := hlength xs hrest
        have hlen : (xs.filterMap f).length = (b::xs.filterMap g).length := congrArg List.length h
        rw [List.length_cons] at hlen
        omega
    | some a =>
      rw [hf] at hx
      obtain ⟨b,hb⟩ := Option.isSome_iff_exists.mp (hx rfl)
      rw [hf,hb] at h
      obtain ⟨rfl,htail⟩ := List.cons.inj h
      exact ⟨hb.symm,ih hrest htail⟩

/-- Readers that fail nowhere and keep the same overall read every entry alike, if one of them keeps
whatever the other does. -/
theorem read_eq_of_readAll {read read' : α → Option (Option β)} {xs : List α} {kept : List β}
    (h : readAll read xs = some kept) (h' : readAll read' xs = some kept)
    (hdom : ∀ x ∈ xs, ∀ y, read x = some (some y) → read' x ≠ some none) :
    ∀ x ∈ xs, read' x = read x := by
  obtain ⟨hsome,hkept⟩ := readAll_eq_some_iff.mp h
  obtain ⟨hsome',hkept'⟩ := readAll_eq_some_iff.mp h'
  have hjoin := (filterMap_eq_iff (f := fun x => (read x).join) (g := fun x => (read' x).join)
    ?_).mp (hkept.symm.trans hkept')
  · intro x hx
    obtain ⟨found,hfound⟩ := Option.isSome_iff_exists.mp (hsome x hx)
    obtain ⟨found',hfound'⟩ := Option.isSome_iff_exists.mp (hsome' x hx)
    have hsame := hjoin x hx
    rw [hfound,hfound'] at hsame
    rw [hfound,hfound',show found' = found from hsame.symm]
  · intro x hx hkeeps
    obtain ⟨found,hfound⟩ := Option.isSome_iff_exists.mp (hsome x hx)
    obtain ⟨found',hfound'⟩ := Option.isSome_iff_exists.mp (hsome' x hx)
    rw [hfound] at hkeeps
    rw [hfound']
    cases found with
    | none => cases hkeeps
    | some y =>
      cases found' with
      | none => exact absurd hfound' (hdom x hx y hfound)
      | some y' => rfl

section
variable {γ : Type*}

/-- Two readers of a list in a row read each entry in a row. -/
theorem mapM_bind_mapM {f : α → Option β} {g : β → Option γ} (xs : List α) :
    (xs.mapM f).bind (fun ys => ys.mapM g) = xs.mapM (fun x => (f x).bind g) := by
  induction xs with
  | nil => rfl
  | cons x xs ih =>
    rw [List.mapM_cons,List.mapM_cons,← ih]
    cases f x with
    | none => rfl
    | some y =>
      cases xs.mapM f with
      | none =>
        change none = (g y).bind (fun _ => none)
        rw [Option.bind_fun_none]
      | some ys =>
        change (y::ys).mapM g = _
        rw [List.mapM_cons]
        rfl

theorem mapM_eq_some_iff {f : α → Option β} {xs : List α} {ys : List β} :
    xs.mapM f = some ys ↔ List.Forall₂ (fun x y => f x = some y) xs ys := by
  induction xs generalizing ys with
  | nil =>
    rw [List.mapM_nil,List.forall₂_nil_left_iff]
    exact ⟨fun h => (Option.some.inj h).symm,fun h => h ▸ rfl⟩
  | cons x xs ih =>
    rw [List.mapM_cons,List.forall₂_cons_left_iff]
    simp only [← ih]
    constructor
    · intro h
      obtain ⟨y,hy,h⟩ := Option.bind_eq_some_iff.mp h
      obtain ⟨rest,hrest,h⟩ := Option.bind_eq_some_iff.mp h
      exact ⟨y,rest,hy,hrest,(Option.some.inj h).symm⟩
    · rintro ⟨y,rest,hy,hrest,rfl⟩
      rw [hy,hrest]
      rfl
theorem exists_of_mapM {f : α → Option β} {xs : List α} {ys : List β} (h : xs.mapM f = some ys) :
    ∀ x ∈ xs, ∃ y ∈ ys, f x = some y := by
  have hall := mapM_eq_some_iff.mp h
  clear h
  induction hall with
  | nil => exact nofun
  | cons hx hrest ih =>
    refine List.forall_mem_cons.mpr ⟨⟨_,List.mem_cons_self,hx⟩,fun x hmem => ?_⟩
    obtain ⟨y,hy,hread⟩ := ih x hmem
    exact ⟨y,List.mem_cons_of_mem _ hy,hread⟩

end

end Lists
