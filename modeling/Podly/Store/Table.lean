import Mathlib.Data.List.Basic
import Mathlib.Data.List.Nodup

/-! Tables of rows under a primary key, and what each kind of statement does to the row of one
key. -/
namespace Store
variable {κ ρ : Type*} {key : ρ → κ}

/-- Rows in insertion order, no two of them under one key. -/
structure Table (key : ρ → κ) where
  rows : List ρ
  nodup : (rows.map key).Nodup

namespace Table

@[ext] theorem ext {t u : Table key} (h : t.rows = u.rows) : t = u := by
  cases t
  cases u
  cases h
  rfl

def empty : Table key := ⟨[],List.nodup_nil⟩

theorem eq_of_key_eq {t : Table key} {r s : ρ} (hr : r ∈ t.rows) (hs : s ∈ t.rows)
    (h : key r = key s) : r = s := List.inj_on_of_nodup_map t.nodup hr hs h

/-- Change every row without changing its key. -/
def mapRows (t : Table key) (f : ρ → ρ) (hf : ∀ r, key (f r) = key r) : Table key :=
  ⟨t.rows.map f,by
    have h : (t.rows.map f).map key = t.rows.map key := by
      rw [List.map_map]
      exact List.map_congr_left (fun r _ => hf r)
    rw [h]
    exact t.nodup⟩

/-- Delete the rows a condition selects. -/
def deleteWhere (t : Table key) (p : ρ → Bool) : Table key :=
  ⟨t.rows.filter (fun r => !p r),t.nodup.sublist (List.filter_sublist.map key)⟩

theorem mem_deleteWhere {t : Table key} {p : ρ → Bool} {r : ρ} :
    r ∈ (t.deleteWhere p).rows ↔ r ∈ t.rows ∧ p r = false := by
  simp [deleteWhere]

/-- Delete the oldest rows. -/
def dropOldest (t : Table key) (n : ℕ) : Table key :=
  ⟨t.rows.drop n,t.nodup.sublist ((List.drop_sublist n t.rows).map key)⟩

@[simp] theorem dropOldest_zero (t : Table key) : t.dropOldest 0 = t := rfl

variable [DecidableEq κ]

/-- The row under a key. -/
def get (t : Table key) (k : κ) : Option ρ := t.rows.find? (fun r => key r = k)

/-- Change the row under a key without changing the key. -/
def modify (t : Table key) (k : κ) (f : ρ → ρ) (hf : ∀ r, key (f r) = key r) : Table key :=
  t.mapRows (fun r => if key r = k then f r else r) (by
    intro r
    split
    · exact hf r
    · rfl)

/-- Insert a row unless its key is taken. -/
def insert (t : Table key) (r : ρ) : Option (Table key) :=
  if h : key r ∈ t.rows.map key then none
  else some ⟨t.rows ++ [r],by
    rw [List.map_append]
    refine List.nodup_append.mpr ⟨t.nodup,by simp,?_⟩
    intro a ha b hb
    rw [List.map_singleton,List.mem_singleton] at hb
    exact fun he => h (hb ▸ he ▸ ha)⟩

/-- Write a row: in the place of the row under its key, or at the end. -/
def put (t : Table key) (r : ρ) : Table key :=
  if h : key r ∈ t.rows.map key then
    ⟨t.rows.map (fun s => if key s = key r then r else s),by
      have hkeys : (t.rows.map (fun s => if key s = key r then r else s)).map key =
          t.rows.map key := by
        rw [List.map_map]
        refine List.map_congr_left (fun s _ => ?_)
        simp only [Function.comp_apply]
        split
        · rename_i hs
          exact hs.symm
        · rfl
      rw [hkeys]
      exact t.nodup⟩
  else
    ⟨t.rows ++ [r],by
      rw [List.map_append]
      refine List.nodup_append.mpr ⟨t.nodup,by simp,?_⟩
      intro a ha b hb
      rw [List.map_singleton,List.mem_singleton] at hb
      exact fun he => h (hb ▸ he ▸ ha)⟩

theorem get_eq_some {t : Table key} {k : κ} {r : ρ} :
    t.get k = some r ↔ r ∈ t.rows ∧ key r = k := by
  constructor
  · intro h
    exact ⟨List.mem_of_find?_eq_some h,by simpa using List.find?_some h⟩
  · rintro ⟨hr,rfl⟩
    have hsome : (t.get (key r)).isSome := List.find?_isSome.mpr ⟨r,hr,by simp⟩
    obtain ⟨s,hs⟩ := Option.isSome_iff_exists.mp hsome
    have hkey : key s = key r := by simpa using List.find?_some hs
    rw [hs,eq_of_key_eq (List.mem_of_find?_eq_some hs) hr hkey]

theorem get_eq_none {t : Table key} {k : κ} : t.get k = none ↔ ∀ r ∈ t.rows, key r ≠ k := by
  simp [get]

@[simp] theorem get_empty (k : κ) : (empty : Table key).get k = none := rfl

@[simp] theorem get_mapRows (t : Table key) (f : ρ → ρ) (hf : ∀ r, key (f r) = key r) (k : κ) :
    (t.mapRows f hf).get k = (t.get k).map f := by
  simp only [get, mapRows, List.find?_map, Function.comp_def, hf]

@[simp] theorem get_modify (t : Table key) (k : κ) (f : ρ → ρ) (hf : ∀ r, key (f r) = key r)
    (k' : κ) : (t.modify k f hf).get k' = if k' = k then (t.get k).map f else t.get k' := by
  rw [modify,get_mapRows]
  cases hrow : t.get k' with
  | none =>
    split
    · rename_i h
      rw [← h,hrow]
      rfl
    · rfl
  | some r =>
    have hkey : key r = k' := (get_eq_some.mp hrow).2
    rw [Option.map_some,hkey]
    split
    · rename_i h
      rw [← h,hrow,Option.map_some]
    · rfl

omit [DecidableEq κ] in
/-- A column that a change leaves alone. -/
theorem map_mapRows {β : Type*} {t : Table key} {f : ρ → ρ} (hf : ∀ r, key (f r) = key r) {g : ρ → β}
    (hg : ∀ r, g (f r) = g r) : (t.mapRows f hf).rows.map g = t.rows.map g := by
  rw [mapRows,List.map_map]
  exact List.map_congr_left (fun r _ => hg r)

theorem map_modify {β : Type*} {t : Table key} {k : κ} {f : ρ → ρ} (hf : ∀ r, key (f r) = key r)
    {g : ρ → β} (hg : ∀ r, g (f r) = g r) : (t.modify k f hf).rows.map g = t.rows.map g := by
  refine map_mapRows _ (fun r => ?_)
  split
  · exact hg r
  · rfl

/-- Two changes of one row in a row are one change. -/
theorem modify_modify {t : Table key} {k : κ} {f g : ρ → ρ} {hf : ∀ r, key (f r) = key r}
    {hg : ∀ r, key (g r) = key r} : (t.modify k f hf).modify k g hg =
      t.modify k (fun r => g (f r)) (fun r => (hg (f r)).trans (hf r)) := by
  apply ext
  simp only [modify,mapRows,List.map_map]
  apply List.map_congr_left
  intro r _
  by_cases hk : key r = k
  · simp only [Function.comp_apply,hf,hk,if_true]
  · simp only [Function.comp_apply,if_neg hk]

/-- A change that does nothing changes no row. -/
theorem modify_self (t : Table key) (k : κ) : t.modify k (fun r => r) (fun _ => rfl) = t := by
  apply ext
  simp [modify,mapRows]

/-- Changes of one row are the same when they agree on the row that is there. -/
theorem modify_eq_iff {t : Table key} {k : κ} {f g : ρ → ρ} {hf : ∀ r, key (f r) = key r}
    {hg : ∀ r, key (g r) = key r} {r : ρ} (hr : t.get k = some r) :
    t.modify k f hf = t.modify k g hg ↔ f r = g r := by
  constructor
  · intro h
    have hget := congrArg (fun u => get u k) h
    simp only [get_modify,if_true,hr,Option.map_some,Option.some.injEq] at hget
    exact hget
  · intro h
    apply ext
    apply List.map_congr_left
    intro s hs
    by_cases hk : key s = k
    · obtain rfl := Option.some.inj (hr.symm.trans (get_eq_some.mpr ⟨hs,hk⟩))
      simp only [if_pos hk,h]
    · simp only [if_neg hk]

/-- The rows around the one under a key have other keys. -/
theorem exists_split {t : Table key} {k : κ} {r : ρ} (hr : t.get k = some r) :
    ∃ before after, t.rows = before ++ r::after ∧ (∀ s ∈ before, key s ≠ k) ∧
      ∀ s ∈ after, key s ≠ k := by
  obtain ⟨hmem,hkey⟩ := get_eq_some.mp hr
  obtain ⟨before,after,hsplit⟩ := List.append_of_mem hmem
  have hnodup := t.nodup
  rw [hsplit,List.map_append,List.map_cons,List.nodup_append] at hnodup
  obtain ⟨-,hafter,hbefore⟩ := hnodup
  refine ⟨before,after,hsplit,?_,?_⟩
  · intro s hs
    exact hkey ▸ hbefore _ (List.mem_map_of_mem hs) _ List.mem_cons_self
  · intro s hs he
    rw [List.nodup_cons] at hafter
    exact hafter.1 (List.mem_map.mpr ⟨s,hs,he.trans hkey.symm⟩)

/-- Changing one row counts it out as it was and in as it is. -/
theorem countP_modify {t : Table key} {k : κ} {f : ρ → ρ} {hf : ∀ r, key (f r) = key r} {r : ρ}
    (hr : t.get k = some r) (q : ρ → Bool) : (t.modify k f hf).rows.countP q + (q r).toNat =
      t.rows.countP q + (q (f r)).toNat := by
  obtain ⟨before,after,hsplit,hb,ha⟩ := exists_split hr
  have hsame : ∀ rows : List ρ, (∀ s ∈ rows, key s ≠ k) →
      rows.map (fun s => if key s = k then f s else s) = rows := by
    intro rows hrows
    rw [List.map_congr_left (fun s hs => if_neg (hrows s hs)),List.map_id']
  simp only [modify,mapRows,hsplit,List.map_append,List.map_cons,if_pos (get_eq_some.mp hr).2,
    hsame _ hb,hsame _ ha,List.countP_append,List.countP_cons]
  cases q r <;> cases q (f r) <;> simp <;> omega

/-- There is one row under a key that is taken. -/
theorem countP_key {t : Table key} {k : κ} {r : ρ} (hr : t.get k = some r) (q : ρ → Bool) :
    t.rows.countP (fun s => q s && key s = k) = (q r).toNat := by
  obtain ⟨before,after,hsplit,hb,ha⟩ := exists_split hr
  have hnone : ∀ rows : List ρ, (∀ s ∈ rows, key s ≠ k) →
      rows.countP (fun s => q s && key s = k) = 0 := by
    intro rows hrows
    rw [List.countP_eq_zero]
    intro s hs
    simp [hrows s hs]
  rw [hsplit,List.countP_append,List.countP_cons,hnone before hb,hnone after ha]
  cases q r with
  | false => simp
  | true => simp [(get_eq_some.mp hr).2]

omit [DecidableEq κ] in
/-- A deletion counts out the rows it selects. -/
theorem countP_deleteWhere (t : Table key) (p q : ρ → Bool) :
    (t.deleteWhere p).rows.countP q + t.rows.countP (fun r => q r && p r) = t.rows.countP q := by
  simp only [deleteWhere]
  induction t.rows with
  | nil => rfl
  | cons r rows ih =>
    simp only [List.filter_cons,List.countP_cons]
    cases hp : p r <;> cases hq : q r <;> simp [hq] <;> omega

/-- A row survives unless the condition selects it. -/
@[simp] theorem get_deleteWhere (t : Table key) (p : ρ → Bool) (k : κ) :
    (t.deleteWhere p).get k = (t.get k).filter (fun r => !p r) := by
  cases hrow : t.get k with
  | none =>
    rw [Option.filter_none,get_eq_none]
    intro r hr
    exact get_eq_none.mp hrow r (List.mem_of_mem_filter hr)
  | some r =>
    obtain ⟨hr,hkey⟩ := get_eq_some.mp hrow
    rw [Option.filter_some]
    split
    · rename_i hp
      exact get_eq_some.mpr ⟨List.mem_filter.mpr ⟨hr,hp⟩,hkey⟩
    · rename_i hp
      rw [get_eq_none]
      intro s hs hskey
      obtain ⟨hs,hps⟩ := List.mem_filter.mp hs
      exact hp (eq_of_key_eq hs hr (hskey.trans hkey.symm) ▸ hps)

theorem rows_insert {t u : Table key} {r : ρ} (h : t.insert r = some u) :
    u.rows = t.rows ++ [r] := by
  unfold insert at h
  split at h
  · cases h
  · exact congrArg rows (Option.some.inj h).symm

theorem insert_eq_none {t : Table key} {r : ρ} : t.insert r = none ↔ t.get (key r) ≠ none := by
  unfold insert
  split
  · rename_i htaken
    obtain ⟨s,hs,hkey⟩ := List.mem_map.mp htaken
    simp [get_eq_some.mpr ⟨hs,hkey⟩]
  · rename_i hfresh
    have hnone : t.get (key r) = none :=
      get_eq_none.mpr (fun s hs hkey => hfresh (List.mem_map.mpr ⟨s,hs,hkey⟩))
    simp [hnone]

/-- An insertion adds the one row and leaves the others. -/
theorem get_insert {t u : Table key} {r : ρ} (h : t.insert r = some u) (k : κ) :
    u.get k = if k = key r then some r else t.get k := by
  unfold insert at h
  split at h
  · simp at h
  · rename_i hfresh
    have hu : u.rows = t.rows ++ [r] := congrArg rows (Option.some.inj h).symm
    split
    · rename_i hk
      exact get_eq_some.mpr ⟨by simp [hu],hk.symm⟩
    · rename_i hk
      have hne : (decide (key r = k)) = false := decide_eq_false (fun he => hk he.symm)
      unfold get
      rw [hu,List.find?_append]
      simp [hne]

/-- A written row is read back, and the rows of other keys are left. -/
@[simp] theorem get_put (t : Table key) (r : ρ) (k : κ) :
    (t.put r).get k = if k = key r then some r else t.get k := by
  unfold put
  split
  · rename_i htaken
    obtain ⟨s,hs,hkey⟩ := List.mem_map.mp htaken
    split
    · rename_i hk
      exact get_eq_some.mpr ⟨List.mem_map.mpr ⟨s,hs,if_pos hkey⟩,hk.symm⟩
    · rename_i hk
      simp only [get,List.find?_map]
      have hpred : (fun s => decide (key s = k)) ∘ (fun s => if key s = key r then r else s) =
          fun s => decide (key s = k) := by
        funext s
        simp only [Function.comp_apply]
        split
        · rename_i hs
          rw [hs]
        · rfl
      rw [hpred]
      cases hrow : t.rows.find? (fun s => decide (key s = k)) with
      | none => rfl
      | some s =>
        have hs : key s = k := by simpa using List.find?_some hrow
        rw [Option.map_some,if_neg (fun he => hk (hs.symm.trans he))]
  · rename_i hfresh
    have hinsert : t.insert r = some ⟨t.rows ++ [r],_⟩ := dif_neg hfresh
    exact get_insert hinsert k

/-- A key that is taken stays with its row. -/
theorem insert_get_ne_none {t u : Table key} {r : ρ} (h : t.insert r = some u) :
    t.get (key r) = none := by
  unfold insert at h
  split at h
  · simp at h
  · rename_i hfresh
    rw [get_eq_none]
    intro s hs he
    exact hfresh (List.mem_map.mpr ⟨s,hs,he⟩)

section Numbered
variable {ρ : Type*} {key : ρ → ℕ}

/-- The key of the next row, one more than the greatest there is. -/
def nextKey (t : Table key) : ℕ := t.rows.foldr (fun r k => max (key r) k) 0 + 1

theorem key_lt_nextKey (t : Table key) {r : ρ} (hr : r ∈ t.rows) : key r < t.nextKey := by
  have h : ∀ rows : List ρ, r ∈ rows → key r ≤ rows.foldr (fun r k => max (key r) k) 0 := by
    intro rows hr
    induction rows with
    | nil => cases hr
    | cons s rows ih =>
      simp only [List.foldr_cons]
      rcases List.mem_cons.mp hr with rfl | hr
      · omega
      · have := ih hr
        omega
  have := h t.rows hr
  unfold nextKey
  omega

/-- Append a row under the next key. -/
def append (t : Table key) (row : ℕ → ρ) (hrow : ∀ k, key (row k) = k) : Table key :=
  ⟨t.rows ++ [row t.nextKey],by
    rw [List.map_append]
    refine List.nodup_append.mpr ⟨t.nodup,by simp,?_⟩
    intro a ha b hb
    obtain ⟨r,hr,rfl⟩ := List.mem_map.mp ha
    rw [List.map_singleton,List.mem_singleton,hrow] at hb
    have := t.key_lt_nextKey hr
    omega⟩

@[simp] theorem rows_append (t : Table key) (row : ℕ → ρ) (hrow : ∀ k, key (row k) = k) :
    (t.append row hrow).rows = t.rows ++ [row t.nextKey] := rfl

theorem get_nextKey (t : Table key) : t.get t.nextKey = none :=
  get_eq_none.mpr (fun _ hr => Nat.ne_of_lt (t.key_lt_nextKey hr))

theorem get_append (t : Table key) (row : ℕ → ρ) (hrow : ∀ k, key (row k) = k) (k : ℕ) :
    (t.append row hrow).get k = if k = t.nextKey then some (row t.nextKey) else t.get k := by
  have hfind : (t.append row hrow).get k = (t.get k).or (if t.nextKey = k then some (row t.nextKey)
      else none) := by
    simp [get,List.find?_append,hrow,List.find?_singleton]
  rw [hfind]
  by_cases hk : k = t.nextKey
  · rw [hk,get_nextKey,if_pos rfl]
    rfl
  · rw [if_neg (Ne.symm hk),if_neg hk,Option.or_none]

/-- Append a row for each entry of a list, under the keys that come next. -/
def appendAll {α : Type*} (row : α → ℕ → ρ) (hrow : ∀ a k, key (row a k) = k) :
    Table key → List α → Table key
  | t, [] => t
  | t, a::as => appendAll row hrow (t.append (row a) (hrow a)) as

theorem appendAll_append {α : Type*} (row : α → ℕ → ρ) (hrow : ∀ a k, key (row a k) = k)
    (t : Table key) (as bs : List α) :
    (t.appendAll row hrow as).appendAll row hrow bs = t.appendAll row hrow (as ++ bs) := by
  induction as generalizing t with
  | nil => rfl
  | cons a as ih => exact ih (t.append (row a) (hrow a))

/-- What the rows say apart from their keys is added in the order of the list. -/
theorem map_appendAll {α β : Type*} {row : α → ℕ → ρ} (hrow : ∀ a k, key (row a k) = k)
    {f : ρ → β} {g : α → β} (hf : ∀ a k, f (row a k) = g a) (t : Table key) (as : List α) :
    (t.appendAll row hrow as).rows.map f = t.rows.map f ++ as.map g := by
  induction as generalizing t with
  | nil => simp [appendAll]
  | cons a as ih =>
    rw [appendAll,ih,rows_append,List.map_append,List.map_singleton,hf,List.map_cons,
      List.append_assoc,List.singleton_append]

/-- The rows that are there stay first, and the ones after them come from the list. -/
theorem exists_rows_appendAll {α : Type*} {row : α → ℕ → ρ} (hrow : ∀ a k, key (row a k) = k)
    (t : Table key) (as : List α) : ∃ new, (t.appendAll row hrow as).rows = t.rows ++ new ∧
      ∀ r ∈ new, ∃ a ∈ as, ∃ k, r = row a k := by
  induction as generalizing t with
  | nil => exact ⟨[],(List.append_nil _).symm,fun r hr => absurd hr List.not_mem_nil⟩
  | cons a as ih =>
    obtain ⟨new,hnew,hfrom⟩ := ih (t.append (row a) (hrow a))
    refine ⟨row a t.nextKey::new,?_,?_⟩
    · rw [appendAll,hnew,rows_append,List.append_assoc,List.singleton_append]
    · intro r hr
      rcases List.mem_cons.mp hr with rfl | hr
      · exact ⟨a,List.mem_cons_self,t.nextKey,rfl⟩
      · obtain ⟨b,hb,k,hk⟩ := hfrom r hr
        exact ⟨b,List.mem_cons_of_mem a hb,k,hk⟩

end Numbered

end Table

end Store
