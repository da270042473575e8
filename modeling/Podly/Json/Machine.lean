import Mathlib.Data.List.Basic
import Mathlib.Data.List.Infix

/-! A parser of JSON that takes one character at a time. What it is in the middle of is a mode, and
the arrays and objects around it are a stack. What numbers, literals and strings say is left to a
reader. -/
namespace Json

/-- A JSON value; a scalar is a number, a truth value or null. -/
inductive Value (S : Type)
  | scalar (s : S)
  | text (s : String)
  | array (items : List (Value S))
  | object (fields : List (String × Value S))

section Depth
variable {S : Type}

mutual

/-- How deep the arrays and objects of a value are nested. -/
def depth : Value S → ℕ
  | .scalar _ => 0
  | .text _ => 0
  | .array items => depthItems items + 1
  | .object fields => depthFields fields + 1

def depthItems : List (Value S) → ℕ
  | [] => 0
  | v::items => max (depth v) (depthItems items)

def depthFields : List (String × Value S) → ℕ
  | [] => 0
  | (_,v)::fields => max (depth v) (depthFields fields)

end

theorem depthItems_le {items : List (Value S)} {n : ℕ} :
    depthItems items ≤ n ↔ ∀ v ∈ items, depth v ≤ n := by
  induction items with
  | nil => exact iff_of_true (Nat.zero_le n) nofun
  | cons v items ih => rw [depthItems,Nat.max_le,ih,List.forall_mem_cons]

theorem depthFields_le {fields : List (String × Value S)} {n : ℕ} :
    depthFields fields ≤ n ↔ ∀ field ∈ fields, depth field.2 ≤ n := by
  induction fields with
  | nil => exact iff_of_true (Nat.zero_le n) nofun
  | cons field fields ih => rw [depthFields,Nat.max_le,ih,List.forall_mem_cons]

end Depth

/-- What a string says that is written with escapes, and what a scalar says, if anything. -/
structure Reader (S : Type) where
  decode : List Char → Option String
  scalar : List Char → Option S

/-- An array with its items so far, or an object with its fields so far and the key of the next. -/
inductive Frame (S : Type)
  | arr (items : List (Value S))
  | obj (fields : List (String × Value S)) (key : String)

/-- What comes next: a value, or the first one of an array; a key, or the first one of an object; the
rest of a key, a colon, the rest of a string or of a scalar; or what stands behind a value. -/
inductive Mode (S : Type)
  | value
  | first
  | firstKey
  | key (fields : List (String × Value S))
  | keyText (fields : List (String × Value S)) (raw : List Char) (escaped : Bool)
  | colon (fields : List (String × Value S)) (key : String)
  | text (raw : List Char) (escaped : Bool)
  | scalar (token : List Char)
  | after (v : Value S)

structure State (S : Type) where
  mode : Mode S
  stack : List (Frame S)

def isSpace (c : Char) : Bool := c = ' ' || c = '\t' || c = '\n' || c = '\r'

/-- The characters of numbers and of literals. -/
def isScalarChar (c : Char) : Bool := c.isAlphanum || c = '+' || c = '-' || c = '.'

def isControl (c : Char) : Bool := c.toNat < 32

variable {S : Type} (R : Reader S)

/-- A character that a value begins with. -/
def beginValue (stack : List (Frame S)) (c : Char) : Option (State S) :=
  if c = '"' then some ⟨.text [] false,stack⟩
  else if c = '\x7b' then some ⟨.firstKey,stack⟩
  else if c = '[' then some ⟨.first,stack⟩
  else if isScalarChar c then some ⟨.scalar [c],stack⟩
  else none

/-- A character behind a value. -/
def close (v : Value S) (stack : List (Frame S)) (c : Char) : Option (State S) :=
  if isSpace c then some ⟨.after v,stack⟩
  else
    match stack with
    | [] => none
    | .arr items::stack =>
      if c = ',' then some ⟨.value,.arr (items ++ [v])::stack⟩
      else if c = ']' then some ⟨.after (.array (items ++ [v])),stack⟩
      else none
    | .obj fields key::stack =>
      if c = ',' then some ⟨.key (fields ++ [(key,v)]),stack⟩
      else if c = '\x7d' then some ⟨.after (.object (fields ++ [(key,v)])),stack⟩
      else none

def step (s : State S) (c : Char) : Option (State S) :=
  match s.mode with
  | .value => if isSpace c then some s else beginValue s.stack c
  | .first =>
    if isSpace c then some s
    else if c = ']' then some ⟨.after (.array []),s.stack⟩
    else beginValue (.arr []::s.stack) c
  | .firstKey =>
    if isSpace c then some s
    else if c = '\x7d' then some ⟨.after (.object []),s.stack⟩
    else if c = '"' then some ⟨.keyText [] [] false,s.stack⟩
    else none
  | .key fields =>
    if isSpace c then some s
    else if c = '"' then some ⟨.keyText fields [] false,s.stack⟩
    else none
  | .keyText fields raw escaped =>
    if isControl c then none
    else if escaped then some ⟨.keyText fields (raw ++ [c]) false,s.stack⟩
    else if c = '"' then (R.decode raw).map (fun key => ⟨.colon fields key,s.stack⟩)
    else some ⟨.keyText fields (raw ++ [c]) (c = '\\'),s.stack⟩
  | .colon fields key =>
    if isSpace c then some s
    else if c = ':' then some ⟨.value,.obj fields key::s.stack⟩
    else none
  | .text raw escaped =>
    if isControl c then none
    else if escaped then some ⟨.text (raw ++ [c]) false,s.stack⟩
    else if c = '"' then (R.decode raw).map (fun text => ⟨.after (.text text),s.stack⟩)
    else some ⟨.text (raw ++ [c]) (c = '\\'),s.stack⟩
  | .scalar token =>
    if isScalarChar c then some ⟨.scalar (token ++ [c]),s.stack⟩
    else (R.scalar token).bind (fun x => close (.scalar x) s.stack c)
  | .after v => close v s.stack c

section Step
variable {R} {stack : List (Frame S)} {fields : List (String × Value S)} {key : String}
  {raw token : List Char} {escaped : Bool} {v : Value S} {c : Char}

theorem step_value : step R ⟨.value,stack⟩ c =
    if isSpace c then some ⟨.value,stack⟩ else beginValue stack c := rfl

theorem step_first : step R ⟨.first,stack⟩ c =
    if isSpace c then some ⟨.first,stack⟩
    else if c = ']' then some ⟨.after (.array []),stack⟩
    else beginValue (.arr []::stack) c := rfl

theorem step_firstKey : step R ⟨.firstKey,stack⟩ c =
    if isSpace c then some ⟨.firstKey,stack⟩
    else if c = '\x7d' then some ⟨.after (.object []),stack⟩
    else if c = '"' then some ⟨.keyText [] [] false,stack⟩
    else none := rfl

theorem step_key : step R ⟨.key fields,stack⟩ c =
    if isSpace c then some ⟨.key fields,stack⟩
    else if c = '"' then some ⟨.keyText fields [] false,stack⟩
    else none := rfl

theorem step_keyText : step R ⟨.keyText fields raw escaped,stack⟩ c =
    if isControl c then none
    else if escaped then some ⟨.keyText fields (raw ++ [c]) false,stack⟩
    else if c = '"' then (R.decode raw).map (fun key => ⟨.colon fields key,stack⟩)
    else some ⟨.keyText fields (raw ++ [c]) (c = '\\'),stack⟩ := rfl

theorem step_colon : step R ⟨.colon fields key,stack⟩ c =
    if isSpace c then some ⟨.colon fields key,stack⟩
    else if c = ':' then some ⟨.value,.obj fields key::stack⟩
    else none := rfl

theorem step_text : step R ⟨.text raw escaped,stack⟩ c =
    if isControl c then none
    else if escaped then some ⟨.text (raw ++ [c]) false,stack⟩
    else if c = '"' then (R.decode raw).map (fun text => ⟨.after (.text text),stack⟩)
    else some ⟨.text (raw ++ [c]) (c = '\\'),stack⟩ := rfl

theorem step_scalar : step R ⟨.scalar token,stack⟩ c =
    if isScalarChar c then some ⟨.scalar (token ++ [c]),stack⟩
    else (R.scalar token).bind (fun x => close (.scalar x) stack c) := rfl

theorem step_after : step R ⟨.after v,stack⟩ c = close v stack c := rfl

end Step

def run (s : State S) (text : List Char) : Option (State S) := text.foldlM (step R) s

def start : State S := ⟨.value,[]⟩

/-- The value that is complete where the text ends. -/
def result (s : State S) : Option (Value S) :=
  match s with
  | ⟨.after v,[]⟩ => some v
  | ⟨.scalar token,[]⟩ => (R.scalar token).map .scalar
  | _ => none

def parse (text : List Char) : Option (Value S) := (run R start text).bind (result R)

section Runs
variable {R} {s t u : State S} {v : Value S} {c : Char} {xs ys : List Char}

@[simp] theorem run_nil : run R s [] = some s := rfl

@[simp] theorem run_cons : run R s (c::xs) = (step R s c).bind (fun t => run R t xs) :=
  List.foldlM_cons

theorem run_append : run R s (xs ++ ys) = (run R s xs).bind (fun t => run R t ys) :=
  List.foldlM_append

/-- A text that is read has its parts read. -/
theorem exists_of_run_append (h : run R s (xs ++ ys) = some u) :
    ∃ t, run R s xs = some t ∧ run R t ys = some u := by
  rw [run_append] at h
  exact Option.bind_eq_some_iff.mp h

/-- A relation that steps keep to all states behind is one that runs keep. -/
theorem run_induction {motive : State S → Prop} (hstep : ∀ s c t, step R s c = some t →
    motive s → motive t) (h : run R s xs = some t) (hs : motive s) : motive t := by
  induction xs generalizing s with
  | nil =>
    obtain rfl := Option.some.inj h
    exact hs
  | cons c xs ih =>
    obtain ⟨u,hu,hrest⟩ := Option.bind_eq_some_iff.mp (run_cons ▸ h)
    exact ih hrest (hstep s c u hu hs)

end Runs

/-! Spaces and the characters of scalars -/

theorem not_isScalarChar_of_isSpace {c : Char} (h : isSpace c) : isScalarChar c = false := by
  simp only [isSpace,Bool.or_eq_true,decide_eq_true_eq] at h
  rcases h with ((rfl | rfl) | rfl) | rfl <;> decide

/-- Behind a value there is a space, a comma or a closing bracket. -/
theorem close_eq_some {v : Value S} {stack : List (Frame S)} {c : Char} {t : State S}
    (h : close v stack c = some t) : isSpace c ∧ t = ⟨.after v,stack⟩ ∨
      (∃ items rest, stack = .arr items::rest ∧
        (c = ',' ∧ t = ⟨.value,.arr (items ++ [v])::rest⟩ ∨
          c = ']' ∧ t = ⟨.after (.array (items ++ [v])),rest⟩)) ∨
      ∃ fields key rest, stack = .obj fields key::rest ∧
        (c = ',' ∧ t = ⟨.key (fields ++ [(key,v)]),rest⟩ ∨
          c = '\x7d' ∧ t = ⟨.after (.object (fields ++ [(key,v)])),rest⟩) := by
  rw [close.eq_def] at h
  split at h
  · rename_i hspace
    exact .inl ⟨hspace,(Option.some.inj h).symm⟩
  · cases stack with
    | nil => cases h
    | cons frame rest =>
      cases frame with
      | arr items =>
        refine .inr (.inl ⟨items,rest,rfl,?_⟩)
        dsimp only at h
        split_ifs at h with hcomma hbracket
        · exact .inl ⟨hcomma,(Option.some.inj h).symm⟩
        · exact .inr ⟨hbracket,(Option.some.inj h).symm⟩
      | obj fields key =>
        refine .inr (.inr ⟨fields,key,rest,rfl,?_⟩)
        dsimp only at h
        split_ifs at h with hcomma hbrace
        · exact .inl ⟨hcomma,(Option.some.inj h).symm⟩
        · exact .inr ⟨hbrace,(Option.some.inj h).symm⟩

theorem not_isScalarChar_of_close {v : Value S} {stack : List (Frame S)} {c : Char} {t : State S}
    (h : close v stack c = some t) : isScalarChar c = false := by
  rcases close_eq_some h with ⟨hspace,-⟩ | ⟨_,_,_,⟨rfl,-⟩ | ⟨rfl,-⟩⟩ | ⟨_,_,_,_,⟨rfl,-⟩ | ⟨rfl,-⟩⟩
  · exact not_isScalarChar_of_isSpace hspace
  all_goals decide

/-- A value begins with a quote, a bracket or a character of a scalar. -/
theorem beginValue_eq_some {stack : List (Frame S)} {c : Char} {t : State S}
    (h : beginValue stack c = some t) : c = '"' ∧ t = ⟨.text [] false,stack⟩ ∨
      c = '\x7b' ∧ t = ⟨.firstKey,stack⟩ ∨ c = '[' ∧ t = ⟨.first,stack⟩ ∨
        isScalarChar c ∧ t = ⟨.scalar [c],stack⟩ := by
  rw [beginValue] at h
  split_ifs at h with hquote hbrace hbracket hscalar
  · exact .inl ⟨hquote,(Option.some.inj h).symm⟩
  · exact .inr (.inl ⟨hbrace,(Option.some.inj h).symm⟩)
  · exact .inr (.inr (.inl ⟨hbracket,(Option.some.inj h).symm⟩))
  · exact .inr (.inr (.inr ⟨hscalar,(Option.some.inj h).symm⟩))

/-! What a character can do -/

/-- Where a space says nothing. -/
def Mode.idle : Mode S → Bool
  | .value | .first | .firstKey => true
  | .key _ => true
  | .colon _ _ => true
  | _ => false

section Transitions
variable {R} {s t : State S} {c : Char}

/-- The steps, one by one. -/
inductive Transition (R : Reader S) : State S → Char → State S → Prop
  | space {mode : Mode S} {stack c} (hmode : mode.idle) (hc : isSpace c) :
      Transition R ⟨mode,stack⟩ c ⟨mode,stack⟩
  | value {stack c t} (h : beginValue stack c = some t) : Transition R ⟨.value,stack⟩ c t
  | first {stack c t} (h : beginValue (.arr []::stack) c = some t) : Transition R ⟨.first,stack⟩ c t
  | emptyArray {stack} : Transition R ⟨.first,stack⟩ ']' ⟨.after (.array []),stack⟩
  | emptyObject {stack} : Transition R ⟨.firstKey,stack⟩ '\x7d' ⟨.after (.object []),stack⟩
  | firstKey {stack} : Transition R ⟨.firstKey,stack⟩ '"' ⟨.keyText [] [] false,stack⟩
  | key {fields stack} : Transition R ⟨.key fields,stack⟩ '"' ⟨.keyText fields [] false,stack⟩
  | keyChar {fields raw escaped stack c} (hc : isControl c = false) (hquote : escaped = true ∨ c ≠ '"') :
      Transition R ⟨.keyText fields raw escaped,stack⟩ c
        ⟨.keyText fields (raw ++ [c]) (!escaped && c = '\\'),stack⟩
  | keyEnd {fields raw key stack} (hkey : R.decode raw = some key) :
      Transition R ⟨.keyText fields raw false,stack⟩ '"' ⟨.colon fields key,stack⟩
  | colon {fields key stack} :
      Transition R ⟨.colon fields key,stack⟩ ':' ⟨.value,.obj fields key::stack⟩
  | textChar {raw escaped stack c} (hc : isControl c = false) (hquote : escaped = true ∨ c ≠ '"') :
      Transition R ⟨.text raw escaped,stack⟩ c ⟨.text (raw ++ [c]) (!escaped && c = '\\'),stack⟩
  | textEnd {raw text stack} (htext : R.decode raw = some text) :
      Transition R ⟨.text raw false,stack⟩ '"' ⟨.after (.text text),stack⟩
  | scalarChar {token stack c} (hc : isScalarChar c) :
      Transition R ⟨.scalar token,stack⟩ c ⟨.scalar (token ++ [c]),stack⟩
  | scalarEnd {token x stack c t} (hx : R.scalar token = some x)
      (h : close (.scalar x) stack c = some t) : Transition R ⟨.scalar token,stack⟩ c t
  | after {v stack c t} (h : close v stack c = some t) : Transition R ⟨.after v,stack⟩ c t

theorem transition_of_step (h : step R s c = some t) : Transition R s c t := by
  obtain ⟨mode,stack⟩ := s
  cases mode with
  | value =>
    rw [step_value] at h
    split_ifs at h with hspace
    · obtain rfl := Option.some.inj h
      exact .space rfl hspace
    · exact .value h
  | first =>
    rw [step_first] at h
    split_ifs at h with hspace hbracket
    · obtain rfl := Option.some.inj h
      exact .space rfl hspace
    · obtain rfl := Option.some.inj h
      exact hbracket ▸ .emptyArray
    · exact .first h
  | firstKey =>
    rw [step_firstKey] at h
    split_ifs at h with hspace hbrace hquote
    all_goals obtain rfl := Option.some.inj h
    · exact .space rfl hspace
    · exact hbrace ▸ .emptyObject
    · exact hquote ▸ .firstKey
  | key fields =>
    rw [step_key] at h
    split_ifs at h with hspace hquote
    all_goals obtain rfl := Option.some.inj h
    · exact .space rfl hspace
    · exact hquote ▸ .key
  | keyText fields raw escaped =>
    rw [step_keyText] at h
    split_ifs at h with hcontrol hescaped hquote
    · obtain rfl := Option.some.inj h
      subst hescaped
      exact .keyChar (by simpa using hcontrol) (.inl rfl)
    · obtain ⟨key,hkey,rfl⟩ := Option.map_eq_some_iff.mp h
      obtain rfl : escaped = false := by simpa using hescaped
      exact hquote ▸ .keyEnd hkey
    · obtain rfl := Option.some.inj h
      obtain rfl : escaped = false := by simpa using hescaped
      exact .keyChar (by simpa using hcontrol) (.inr hquote)
  | colon fields key =>
    rw [step_colon] at h
    split_ifs at h with hspace hcolon
    all_goals obtain rfl := Option.some.inj h
    · exact .space rfl hspace
    · exact hcolon ▸ .colon
  | text raw escaped =>
    rw [step_text] at h
    split_ifs at h with hcontrol hescaped hquote
    · obtain rfl := Option.some.inj h
      subst hescaped
      exact .textChar (by simpa using hcontrol) (.inl rfl)
    · obtain ⟨text,htext,rfl⟩ := Option.map_eq_some_iff.mp h
      obtain rfl : escaped = false := by simpa using hescaped
      exact hquote ▸ .textEnd htext
    · obtain rfl := Option.some.inj h
      obtain rfl : escaped = false := by simpa using hescaped
      exact .textChar (by simpa using hcontrol) (.inr hquote)
  | scalar token =>
    rw [step_scalar] at h
    split_ifs at h with hscalar
    · obtain rfl := Option.some.inj h
      exact .scalarChar hscalar
    · obtain ⟨x,hx,hclose⟩ := Option.bind_eq_some_iff.mp h
      exact .scalarEnd hx hclose
  | after v => exact .after h

end Transitions

/-! Line breaks and other control characters between the tokens can be dropped -/

section Dropped
variable {R} {s s' t u : State S} {c : Char} {xs : List Char}

/-- The same state, but for a scalar whose end has not been seen yet. -/
def Behind (R : Reader S) (s s' : State S) : Prop :=
  s' = s ∨ ∃ token x stack, R.scalar token = some x ∧ s = ⟨.after (.scalar x),stack⟩ ∧
    s' = ⟨.scalar token,stack⟩

theorem Behind.eq_of_not_scalar (h : Behind R s s') (hs : ∀ x, s.mode ≠ .after (.scalar x)) :
    s' = s := by
  rcases h with rfl | ⟨token,x,stack,-,rfl,-⟩
  · rfl
  · exact absurd rfl (hs x)

/-- A control character that is read is a space between tokens. -/
theorem Behind.drop (h : Behind R s s') (hspace : isSpace c) (hcontrol : isControl c)
    (hstep : step R s c = some t) : Behind R t s' := by
  have hclose : ∀ {v : Value S} {stack t}, close v stack c = some t → t = ⟨.after v,stack⟩ := by
    intro v stack t hclose
    rw [close.eq_def,if_pos hspace] at hclose
    exact (Option.some.inj hclose).symm
  have hbegin : ∀ {stack : List (Frame S)}, beginValue stack c ≠ some t := by
    intro stack hbegin
    rcases beginValue_eq_some hbegin with ⟨rfl,-⟩ | ⟨rfl,-⟩ | ⟨rfl,-⟩ | ⟨hscalar,-⟩
    · exact absurd hspace (by decide)
    · exact absurd hspace (by decide)
    · exact absurd hspace (by decide)
    · exact absurd hscalar (by simp [not_isScalarChar_of_isSpace hspace])
  rcases h with rfl | ⟨token,x,stack,hx,rfl,rfl⟩
  · cases transition_of_step hstep with
    | space => exact .inl rfl
    | value h => exact absurd h hbegin
    | first h => exact absurd h hbegin
    | scalarChar hc => exact absurd hc (by simp [not_isScalarChar_of_isSpace hspace])
    | scalarEnd hx h => exact .inr ⟨_,_,_,hx,hclose h,rfl⟩
    | after h => exact .inl (hclose h).symm
    | keyChar hc => exact absurd hcontrol (by simp [hc])
    | textChar hc => exact absurd hcontrol (by simp [hc])
    | _ => exact absurd hspace (by decide)
  · exact .inr ⟨token,x,stack,hx,hclose hstep,rfl⟩

/-- The next character ends the scalar. -/
theorem Behind.step (h : Behind R s s') (hstep : step R s c = some t) : Json.step R s' c = some t := by
  rcases h with rfl | ⟨token,x,stack,hx,rfl,rfl⟩
  · exact hstep
  · have hnot := not_isScalarChar_of_close hstep
    rw [step_scalar,hnot,if_neg Bool.false_ne_true,hx]
    exact hstep

theorem Behind.run_filter {p : Char → Bool} (hp : ∀ c, p c → isSpace c ∧ isControl c)
    (h : Behind R s s') (hrun : run R s xs = some t) :
    ∃ t', run R s' (xs.filter (!p ·)) = some t' ∧ Behind R t t' := by
  induction xs generalizing s s' with
  | nil =>
    obtain rfl := Option.some.inj hrun
    exact ⟨s',rfl,h⟩
  | cons c xs ih =>
    rw [run_cons] at hrun
    obtain ⟨u,hstep,hrest⟩ := Option.bind_eq_some_iff.mp hrun
    by_cases hc : p c
    · rw [List.filter_cons_of_neg (by simpa using hc)]
      exact ih (h.drop (hp c hc).1 (hp c hc).2 hstep) hrest
    · rw [List.filter_cons_of_pos (by simpa using hc),run_cons,h.step hstep]
      exact ih (.inl rfl) hrest

/-- A text says the same without the control characters between its tokens. -/
theorem parse_filter {p : Char → Bool} (hp : ∀ c, p c → isSpace c ∧ isControl c) {v : Value S}
    (h : parse R xs = some v) (hv : ∀ x, v ≠ .scalar x) :
    parse R (xs.filter (!p ·)) = some v := by
  obtain ⟨t,hrun,hresult⟩ := Option.bind_eq_some_iff.mp h
  obtain ⟨t',hrun',hbehind⟩ := Behind.run_filter hp (.inl rfl) hrun
  have heq : t' = t := by
    apply hbehind.eq_of_not_scalar
    obtain ⟨mode,stack⟩ := t
    rintro x rfl
    cases stack with
    | nil => exact hv x (Option.some.inj hresult).symm
    | cons frame stack => cases hresult
  rw [parse,hrun',heq]
  exact hresult

end Dropped

end Json
