import Mathlib.Algebra.Ring.Nat
import Podly.Json.Machine

/-! The outermost object of a text: the keys that are read of it, how many objects are open, and where
it ends. -/
namespace Json
variable {S : Type} {R : Reader S}

/-- The keys of the object that a mode is in or behind. -/
def Mode.keys : Mode S → Option (List String)
  | .firstKey => some []
  | .key fields => some (fields.map Prod.fst)
  | .keyText fields _ _ => some (fields.map Prod.fst)
  | .colon fields name => some (fields.map Prod.fst ++ [name])
  | .after (.object fields) => some (fields.map Prod.fst)
  | _ => none

/-- The keys of the outermost object, by those of the innermost. -/
def keysIn (inner : Option (List String)) : List (Frame S) → Option (List String)
  | [] => inner
  | .arr _::stack => keysIn none stack
  | .obj fields key::stack => keysIn (some (fields.map Prod.fst ++ [key])) stack

/-- The keys that are read of the outermost value, if it is an object. -/
def State.outerKeys (s : State S) : Option (List String) := keysIn s.mode.keys s.stack

section Keys
variable {inner : Option (List String)} {keys : List String} {stack : List (Frame S)}
  {s t : State S} {v : Value S} {c : Char} {xs : List Char}

theorem keysIn_obj {fields : List (String × Value S)} {key : String} :
    keysIn inner (.obj fields key::stack) = keysIn (some (fields.map Prod.fst ++ [key])) stack := rfl

/-- Where something encloses the innermost value, its keys do not matter. -/
theorem keysIn_of_none (h : keysIn none stack = some keys) : keysIn inner stack = some keys := by
  cases stack with
  | nil => cases h
  | cons frame stack => cases frame <;> exact h

theorem outerKeys_of_close (h : close v stack c = some t)
    (hkeys : keysIn (Mode.after v).keys stack = some keys) : t.outerKeys = some keys := by
  rcases close_eq_some h with ⟨-,rfl⟩ | ⟨items,rest,rfl,⟨-,rfl⟩ | ⟨-,rfl⟩⟩ |
      ⟨fields,key,rest,rfl,⟨-,rfl⟩ | ⟨-,rfl⟩⟩
  · exact hkeys
  · exact hkeys
  · exact hkeys
  · simpa [State.outerKeys,Mode.keys,keysIn_obj] using hkeys
  · simpa [State.outerKeys,Mode.keys,keysIn_obj] using hkeys

theorem outerKeys_of_beginValue (h : beginValue stack c = some t)
    (hkeys : keysIn none stack = some keys) : t.outerKeys = some keys := by
  rcases beginValue_eq_some h with ⟨-,rfl⟩ | ⟨-,rfl⟩ | ⟨-,rfl⟩ | ⟨-,rfl⟩ <;>
    exact keysIn_of_none hkeys

/-- A character adds a key to those of the outermost object when it ends one, and else none. -/
theorem outerKeys_of_step (hstep : step R s c = some t) (hkeys : s.outerKeys = some keys) :
    t.outerKeys = some keys ∨ c = '"' ∧ ∃ key, t.outerKeys = some (keys ++ [key]) := by
  cases transition_of_step hstep with
  | value h => exact .inl (outerKeys_of_beginValue h hkeys)
  | first h => exact .inl (outerKeys_of_beginValue h hkeys)
  | scalarEnd hx h => exact .inl (outerKeys_of_close h hkeys)
  | after h => exact .inl (outerKeys_of_close h hkeys)
  | @keyEnd fields raw key stack hkey =>
    -- the keys of an inner object do not count
    cases stack with
    | nil =>
      obtain rfl := Option.some.inj hkeys
      exact .inr ⟨rfl,key,rfl⟩
    | cons frame stack =>
      refine .inl ?_
      cases frame <;> exact hkeys
  | _ => exact .inl hkeys

/-- Keys that are read stay. -/
theorem outerKeys_of_run (hrun : run R s xs = some t) (hkeys : s.outerKeys = some keys) :
    ∃ more, t.outerKeys = some (keys ++ more) := by
  refine run_induction (motive := fun s => ∃ more, s.outerKeys = some (keys ++ more)) ?_ hrun
    ⟨[],by simpa using hkeys⟩
  rintro u c u' hstep ⟨more,hmore⟩
  rcases outerKeys_of_step hstep hmore with hsame | ⟨-,key,hadded⟩
  · exact ⟨more,hsame⟩
  · exact ⟨more ++ [key],by rw [hadded,List.append_assoc]⟩

/-- Without a quote no key is added. -/
theorem outerKeys_of_run_of_no_quote (hxs : ∀ c ∈ xs, c ≠ '"') (hrun : run R s xs = some t)
    (hkeys : s.outerKeys = some keys) : t.outerKeys = some keys := by
  induction xs generalizing s with
  | nil =>
    obtain rfl := Option.some.inj hrun
    exact hkeys
  | cons c xs ih =>
    obtain ⟨hc,hxs⟩ := List.forall_mem_cons.mp hxs
    rw [run_cons] at hrun
    obtain ⟨u,hstep,hrest⟩ := Option.bind_eq_some_iff.mp hrun
    refine ih hxs hrest ?_
    exact (outerKeys_of_step hstep hkeys).resolve_right fun hadded => hc hadded.1

/-- A scalar that ends adds no key. -/
theorem Behind.outerKeys (h : Behind R s t) : t.outerKeys = s.outerKeys := by
  rcases h with rfl | ⟨token,x,stack,-,rfl,rfl⟩
  · rfl
  · rfl

end Keys

/-! How many objects are open -/

def Mode.openObjects : Mode S → ℕ
  | .firstKey | .key _ | .keyText _ _ _ | .colon _ _ => 1
  | _ => 0

def Frame.openObjects : Frame S → ℕ
  | .arr _ => 0
  | .obj _ _ => 1

def State.openObjects (s : State S) : ℕ :=
  s.mode.openObjects + (s.stack.map Frame.openObjects).sum

/-- The text is within a string, or a key, and behind a backslash. -/
def Mode.inString : Mode S → Bool
  | .keyText _ _ _ | .text _ _ => true
  | _ => false

def Mode.escaped : Mode S → Bool
  | .keyText _ _ escaped | .text _ escaped => escaped
  | _ => false

section Depth
variable {stack : List (Frame S)} {s t : State S} {v : Value S} {c : Char} {xs : List Char}

theorem keysIn_of_openObjects (h : (stack.map Frame.openObjects).sum = 0) (hne : stack ≠ [])
    (inner : Option (List String)) : keysIn inner stack = none := by
  induction stack generalizing inner with
  | nil => exact absurd rfl hne
  | cons frame stack ih =>
    cases frame with
    | obj fields key => simp [Frame.openObjects] at h
    | arr items =>
      have hrest : (stack.map Frame.openObjects).sum = 0 := by simpa [Frame.openObjects] using h
      cases stack with
      | nil => rfl
      | cons frame stack => exact ih hrest (List.cons_ne_nil _ _) none

/-- No object is open when the outermost one has ended. -/
theorem eq_after_of_openObjects {keys : List String} (hkeys : s.outerKeys = some keys)
    (h : s.openObjects = 0) : ∃ fields, s = ⟨.after (.object fields),[]⟩ := by
  obtain ⟨mode,stack⟩ := s
  obtain ⟨hmode,hstack⟩ := Nat.add_eq_zero_iff.mp h
  by_cases hnil : stack = []
  · subst hnil
    cases mode with
    | after v =>
      cases v with
      | object fields => exact ⟨fields,rfl⟩
      | _ => cases hkeys
    | firstKey => cases hmode
    | key fields => cases hmode
    | keyText fields raw escaped => cases hmode
    | colon fields key => cases hmode
    | _ => cases hkeys
  · rw [State.outerKeys,keysIn_of_openObjects hstack hnil] at hkeys
    cases hkeys

/-- Behind the outermost value there are only spaces. -/
theorem run_after_nil (hrun : run R ⟨.after v,[]⟩ xs = some t) :
    t = ⟨.after v,[]⟩ ∧ ∀ c ∈ xs, isSpace c := by
  induction xs with
  | nil => exact ⟨(Option.some.inj hrun).symm,nofun⟩
  | cons c xs ih =>
    rw [run_cons,step_after] at hrun
    obtain ⟨u,hstep,hrest⟩ := Option.bind_eq_some_iff.mp hrun
    rcases close_eq_some hstep with ⟨hspace,rfl⟩ | ⟨_,_,hstack,-⟩ | ⟨_,_,_,hstack,-⟩
    · obtain ⟨rfl,hxs⟩ := ih hrest
      exact ⟨rfl,List.forall_mem_cons.mpr ⟨hspace,hxs⟩⟩
    · cases hstack
    · cases hstack

/-- An object is complete where its text ends. -/
theorem run_of_parse_object {fields : List (String × Value S)}
    (h : parse R xs = some (.object fields)) : run R start xs = some ⟨.after (.object fields),[]⟩ := by
  obtain ⟨⟨mode,stack⟩,hrun,hresult⟩ := Option.bind_eq_some_iff.mp h
  cases stack with
  | cons frame stack => cases mode <;> cases hresult
  | nil =>
    cases mode with
    | after v =>
      obtain rfl := Option.some.inj hresult
      exact hrun
    | scalar token =>
      obtain ⟨x,-,hx⟩ := Option.map_eq_some_iff.mp hresult
      cases hx
    | _ => cases hresult

/-- A text that begins with a brace is one of an object. -/
theorem outerKeys_of_open (hrun : run R start xs = some t) (hopen : xs.head? = some '\x7b') :
    ∃ keys, t.outerKeys = some keys := by
  obtain ⟨rest,rfl⟩ := List.head?_eq_some_iff.mp hopen
  have hrest : run R ⟨.firstKey,[]⟩ rest = some t := hrun
  obtain ⟨keys,hkeys⟩ := outerKeys_of_run hrest rfl
  exact ⟨_,hkeys⟩

/-- An object that lacks its last brace says nothing. -/
theorem parse_eq_none_of_cut {fields : List (String × Value S)} {ys : List Char}
    (h : parse R (xs ++ ys) = some (.object fields)) (hopen : xs.head? = some '\x7b')
    (hclose : '\x7d' ∈ ys) : parse R xs = none := by
  obtain ⟨⟨mode,stack⟩,hrun,hrest⟩ := exists_of_run_append (run_of_parse_object h)
  obtain ⟨keys,hkeys⟩ := outerKeys_of_open hrun hopen
  rw [parse,hrun]
  cases stack with
  | cons frame stack => cases mode <;> rfl
  | nil =>
    cases mode with
    | after v => exact absurd ((run_after_nil hrest).2 _ hclose) (by decide)
    | scalar token => cases hkeys
    | _ => rfl

end Depth

end Json
