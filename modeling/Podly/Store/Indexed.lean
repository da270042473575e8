import Mathlib.Data.List.Nodup
import Podly.Store.Table

/-! Tables with a second unique index, and the statements that it can fail. -/
namespace Store
variable {κ ι ρ : Type*}

/-- A table no two rows of which share a value of the index. -/
structure Indexed (key : ρ → κ) (index : ρ → ι) where
  table : Table key
  index_nodup : (table.rows.map index).Nodup

namespace Indexed
variable {key : ρ → κ} {index : ρ → ι}

@[ext] theorem ext {t u : Indexed key index} (h : t.table.rows = u.table.rows) : t = u := by
  cases t
  cases u
  cases Table.ext h
  rfl

def empty : Indexed key index := ⟨Table.empty,List.nodup_nil⟩

theorem eq_of_index_eq {t : Indexed key index} {r s : ρ} (hr : r ∈ t.table.rows)
    (hs : s ∈ t.table.rows) (h : index r = index s) : r = s :=
  List.inj_on_of_nodup_map t.index_nodup hr hs h

def deleteWhere (t : Indexed key index) (p : ρ → Bool) : Indexed key index :=
  ⟨t.table.deleteWhere p,t.index_nodup.sublist (List.filter_sublist.map index)⟩

theorem mem_deleteWhere {t : Indexed key index} {p : ρ → Bool} {r : ρ} :
    r ∈ (t.deleteWhere p).table.rows ↔ r ∈ t.table.rows ∧ p r = false := Table.mem_deleteWhere

/-- Change every row without changing its key or its index. -/
def mapRows (t : Indexed key index) (f : ρ → ρ) (hkey : ∀ r, key (f r) = key r)
    (hindex : ∀ r, index (f r) = index r) : Indexed key index :=
  ⟨t.table.mapRows f hkey,by
    have h : (t.table.mapRows f hkey).rows.map index = t.table.rows.map index := by
      rw [Table.mapRows,List.map_map]
      exact List.map_congr_left (fun r _ => hindex r)
    rw [h]
    exact t.index_nodup⟩

section Find
variable [DecidableEq ι]

/-- The row under a value of the index. -/
def find (t : Indexed key index) (i : ι) : Option ρ :=
  t.table.rows.find? (fun r => index r = i)

theorem find_eq_some {t : Indexed key index} {i : ι} {r : ρ} :
    t.find i = some r ↔ r ∈ t.table.rows ∧ index r = i := by
  constructor
  · intro h
    exact ⟨List.mem_of_find?_eq_some h,by simpa using List.find?_some h⟩
  · rintro ⟨hr,rfl⟩
    have hsome : (t.find (index r)).isSome := List.find?_isSome.mpr ⟨r,hr,by simp⟩
    obtain ⟨s,hs⟩ := Option.isSome_iff_exists.mp hsome
    have hindex : index s = index r := by simpa using List.find?_some hs
    rw [hs,eq_of_index_eq (List.mem_of_find?_eq_some hs) hr hindex]

theorem find_eq_none {t : Indexed key index} {i : ι} :
    t.find i = none ↔ ∀ r ∈ t.table.rows, index r ≠ i := by
  simp [find]

end Find

variable [DecidableEq κ]

def get (t : Indexed key index) (k : κ) : Option ρ := t.table.get k

/-- What a change keeps of a row is kept when only one row is changed. -/
theorem ite_kept {β : Type*} (g : ρ → β) (f : ρ → ρ) (k : κ) (hg : ∀ r, g (f r) = g r) (r : ρ) :
    g (if key r = k then f r else r) = g r := by
  split
  · exact hg r
  · rfl

/-- Change the row under a key without changing its key or its index. -/
def modify (t : Indexed key index) (k : κ) (f : ρ → ρ) (hkey : ∀ r, key (f r) = key r)
    (hindex : ∀ r, index (f r) = index r) : Indexed key index :=
  t.mapRows (fun r => if key r = k then f r else r) (ite_kept key f k hkey)
    (ite_kept index f k hindex)

theorem mem_modify {t : Indexed key index} {k : κ} {f : ρ → ρ} (hkey : ∀ r, key (f r) = key r)
    (hindex : ∀ r, index (f r) = index r) {s : ρ} : s ∈ (t.modify k f hkey hindex).table.rows ↔
      ∃ r ∈ t.table.rows, (if key r = k then f r else r) = s := List.mem_map

/-- What the change of a row keeps is found under every key. -/
theorem map_get_modify {β : Type*} {t : Indexed key index} {k : κ} {f : ρ → ρ}
    (hkey : ∀ r, key (f r) = key r) (hindex : ∀ r, index (f r) = index r) {g : ρ → β}
    (hg : ∀ r, g (f r) = g r) (k' : κ) :
    ((t.modify k f hkey hindex).get k').map g = (t.get k').map g := by
  change ((t.table.modify k f hkey).get k').map g = (t.table.get k').map g
  rw [Table.get_modify]
  split
  · rename_i h
    subst h
    rw [Option.map_map]
    exact congrArg (fun h => (t.table.get k').map h) (funext hg)
  · rfl

variable [DecidableEq ι]

/-- Change the row under a key, unless another row has the new value of its index. -/
def update (t : Indexed key index) (k : κ) (f : ρ → ρ) (hf : ∀ r, key (f r) = key r) :
    Option (Indexed key index) :=
  if h : ((t.table.modify k f hf).rows.map index).Nodup then some ⟨t.table.modify k f hf,h⟩
  else none

section
variable {t u : Indexed key index} {k : κ} {f : ρ → ρ} {hf : ∀ r, key (f r) = key r}

theorem table_update (h : t.update k f hf = some u) : u.table = t.table.modify k f hf := by
  unfold update at h
  split at h
  · exact (congrArg table (Option.some.inj h)).symm
  · cases h

/-- An update fails exactly when the index of the changed row is that of another one. -/
theorem update_eq_none_iff {r : ρ} (hr : t.get k = some r) :
    t.update k f hf = none ↔ ∃ s ∈ t.table.rows, key s ≠ k ∧ index s = index (f r) := by
  obtain ⟨hmem,hkey⟩ := Table.get_eq_some.mp hr
  have hrow : ∀ s ∈ t.table.rows, key s = k → s = r := fun s hs hk =>
    Table.eq_of_key_eq hs hmem (hk.trans hkey.symm)
  have hnone : t.update k f hf = none ↔ ¬((t.table.modify k f hf).rows.map index).Nodup := by
    unfold update
    split <;> simp_all
  rw [hnone,Table.modify,Table.mapRows,List.map_map,← not_iff_not,not_not]
  have hrows : t.table.rows.Nodup := t.index_nodup.of_map
  rw [List.nodup_map_iff_inj_on hrows]
  simp only [Function.comp_apply,not_exists,not_and]
  constructor
  · intro h s hs hk he
    have hsr : s = r := h s hs r hmem (by rw [if_neg hk,if_pos hkey,he])
    exact hk (hsr ▸ hkey)
  · intro h s hs s' hs' he
    by_cases hk : key s = k
    · obtain rfl := hrow s hs hk
      by_cases hk' : key s' = k
      · exact (hrow s' hs' hk').symm
      · rw [if_pos hk,if_neg hk'] at he
        exact absurd he.symm (h s' hs' hk')
    · by_cases hk' : key s' = k
      · obtain rfl := hrow s' hs' hk'
        rw [if_neg hk,if_pos hk'] at he
        exact absurd he (h s hs hk)
      · rw [if_neg hk,if_neg hk'] at he
        exact eq_of_index_eq hs hs' he

theorem mem_update (h : t.update k f hf = some u) {s : ρ} :
    s ∈ u.table.rows ↔ ∃ r ∈ t.table.rows, (if key r = k then f r else r) = s := by
  rw [table_update h]
  exact List.mem_map

theorem get_update (h : t.update k f hf = some u) {r : ρ} (hr : t.get k = some r) :
    u.get k = some (f r) := by
  have hr' : t.table.get k = some r := hr
  rw [get,table_update h,Table.get_modify,if_pos rfl,hr',Option.map_some]

/-- A change that leaves the index alone goes through. -/
theorem exists_update_of_index_eq {r : ρ} (hr : t.get k = some r) (hindex : index (f r) = index r) :
    ∃ u, t.update k f hf = some u := by
  rw [← Option.ne_none_iff_exists']
  intro hnone
  obtain ⟨s,hs,hk,he⟩ := (update_eq_none_iff hr).mp hnone
  obtain ⟨hmem,hkey⟩ := Table.get_eq_some.mp hr
  exact hk (eq_of_index_eq hs hmem (he.trans hindex) ▸ hkey)

theorem map_update {β : Type*} (h : t.update k f hf = some u) {g : ρ → β}
    (hg : ∀ r, g (f r) = g r) : u.table.rows.map g = t.table.rows.map g := by
  rw [table_update h]
  exact Table.map_modify hf hg

end

/-- Insert a row unless its key or its index is taken. -/
def insert (t : Indexed key index) (r : ρ) : Option (Indexed key index) :=
  if hkey : t.get (key r) = none then
    if hindex : t.find (index r) = none then
      some ⟨⟨t.table.rows ++ [r],by
        rw [List.map_append]
        refine List.nodup_append.mpr ⟨t.table.nodup,by simp,?_⟩
        intro a ha b hb he
        obtain ⟨s,hs,rfl⟩ := List.mem_map.mp ha
        rw [List.map_singleton,List.mem_singleton] at hb
        exact Table.get_eq_none.mp hkey s hs (he.trans hb)⟩,by
        rw [List.map_append]
        refine List.nodup_append.mpr ⟨t.index_nodup,by simp,?_⟩
        intro a ha b hb he
        obtain ⟨s,hs,rfl⟩ := List.mem_map.mp ha
        rw [List.map_singleton,List.mem_singleton] at hb
        exact find_eq_none.mp hindex s hs (he.trans hb)⟩
    else none
  else none

theorem rows_insert {t u : Indexed key index} {r : ρ} (h : t.insert r = some u) :
    u.table.rows = t.table.rows ++ [r] := by
  unfold insert at h
  split at h
  · split at h
    · rw [← Option.some.inj h]
    · cases h
  · cases h

section Numbered
variable {key : ρ → ℕ}

/-- Append a row under the next key, whose index no other row has. -/
def append (t : Indexed key index) (row : ℕ → ρ) (hrow : ∀ k, key (row k) = k)
    (h : t.find (index (row t.table.nextKey)) = none) : Indexed key index :=
  ⟨t.table.append row hrow,by
    simp only [Table.append,List.map_append,List.map_singleton]
    refine List.nodup_append.mpr ⟨t.index_nodup,by simp,?_⟩
    intro a ha b hb he
    rw [List.mem_singleton] at hb
    obtain ⟨r,hr,rfl⟩ := List.mem_map.mp ha
    exact find_eq_none.mp h r hr (he.trans hb)⟩

theorem append_table (t : Indexed key index) (row : ℕ → ρ) (hrow : ∀ k, key (row k) = k)
    (h : t.find (index (row t.table.nextKey)) = none) :
    (t.append row hrow h).table.rows = t.table.rows ++ [row t.table.nextKey] := rfl

/-- The row under a value of the index, created if there is none. -/
def findOrCreate (t : Indexed key index) (i : ι) (row : ℕ → ρ) (hrow : ∀ k, key (row k) = k)
    (hindex : ∀ k, index (row k) = i) : ρ × Indexed key index :=
  match h : t.find i with
  | some r => (r,t)
  | none => (row t.table.nextKey,t.append row hrow ((congrArg t.find (hindex _)).trans h))

section
variable {t : Indexed key index} {i : ι} {row : ℕ → ρ} {hrow : ∀ k, key (row k) = k}
  {hindex : ∀ k, index (row k) = i}

/-- The row that is found or created is there, under its index. -/
theorem findOrCreate_mem : (t.findOrCreate i row hrow hindex).1 ∈
      (t.findOrCreate i row hrow hindex).2.table.rows ∧
    index (t.findOrCreate i row hrow hindex).1 = i := by
  unfold findOrCreate
  split
  · rename_i r h
    exact find_eq_some.mp h
  · exact ⟨by simp [append_table],hindex _⟩

/-- A row is added, or nothing changes. -/
theorem rows_findOrCreate :
    (t.findOrCreate i row hrow hindex).2.table.rows = t.table.rows ∨
      (t.findOrCreate i row hrow hindex).2.table.rows = t.table.rows ++ [row t.table.nextKey] := by
  unfold findOrCreate
  split
  · exact Or.inl rfl
  · exact Or.inr rfl

/-- The other rows are as before. -/
theorem mem_findOrCreate_of_ne {r : ρ} (hr : index r ≠ i) :
    r ∈ (t.findOrCreate i row hrow hindex).2.table.rows ↔ r ∈ t.table.rows := by
  unfold findOrCreate
  split
  · exact Iff.rfl
  · simp only [append_table,List.mem_append,List.mem_singleton]
    constructor
    · rintro (h | rfl)
      · exact h
      · exact absurd (hindex _) hr
    · exact Or.inl

end

end Numbered

end Indexed

end Store
