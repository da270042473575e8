import Podly.Json.Machine

/-! Values written as text, and that they are read back from it. -/
namespace Json
variable {S : Type}

/-- The inside of a string: no quote in it is without a backslash, and no backslash is the last
character. -/
def wellQuoted : Bool → List Char → Bool
  | escaped, [] => !escaped
  | escaped, c::cs =>
    !isControl c && if escaped then wellQuoted false cs else c ≠ '"' && wellQuoted (c = '\\') cs

/-- How strings and scalars are written, which the reader understands. -/
structure Printer (R : Reader S) where
  quote : String → List Char
  print : S → List Char
  wellQuoted_quote : ∀ s, wellQuoted false (quote s)
  decode_quote : ∀ s, R.decode (quote s) = some s
  print_ne_nil : ∀ x, print x ≠ []
  isScalarChar_print : ∀ x, ∀ c ∈ print x, isScalarChar c
  scalar_print : ∀ x, R.scalar (print x) = some x

variable {R : Reader S} (P : Printer R)

mutual

/-- `json.dumps` -/
def dumps : Value S → List Char
  | .scalar x => P.print x
  | .text s => '"'::P.quote s ++ ['"']
  | .array [] => ['[',']']
  | .array (v::items) => '['::dumps v ++ dumpsItems items
  | .object [] => ['\x7b','\x7d']
  | .object ((key,v)::fields) =>
    '\x7b' :: '"' :: P.quote key ++ ['"',':',' '] ++ dumps v ++ dumpsFields fields

/-- The rest of an array behind an item. -/
def dumpsItems : List (Value S) → List Char
  | [] => [']']
  | v::items => [',',' '] ++ dumps v ++ dumpsItems items

/-- The rest of an object behind a field. -/
def dumpsFields : List (String × Value S) → List Char
  | [] => ['\x7d']
  | (key,v)::fields =>
    [',',' ','"'] ++ P.quote key ++ ['"',':',' '] ++ dumps v ++ dumpsFields fields

end

section Written
variable (quote : String → List Char) (print : S → List Char) (gap : List Char)

mutual

/-- A value that is written with this behind its commas and colons. -/
def written : Value S → List Char
  | .scalar x => print x
  | .text s => '"'::quote s ++ ['"']
  | .array [] => ['[',']']
  | .array (v::items) => '['::written v ++ writtenItems items
  | .object [] => ['\x7b','\x7d']
  | .object ((key,v)::fields) =>
    '\x7b' :: '"' :: quote key ++ ['"',':'] ++ gap ++ written v ++ writtenFields fields

/-- The rest of an array behind an item. -/
def writtenItems : List (Value S) → List Char
  | [] => [']']
  | v::items => ',' :: gap ++ written v ++ writtenItems items

/-- The rest of an object behind a field. -/
def writtenFields : List (String × Value S) → List Char
  | [] => ['\x7d']
  | (key,v)::fields =>
    ',' :: gap ++ ['"'] ++ quote key ++ ['"',':'] ++ gap ++ written v ++ writtenFields fields

end

end Written

mutual

theorem dumps_eq_written (v : Value S) : dumps P v = written P.quote P.print [' '] v := by
  match v with
  | .scalar x => rw [dumps,written]
  | .text s => rw [dumps,written]
  | .array [] => rw [dumps,written]
  | .array (v::items) => rw [dumps,written,dumps_eq_written v,dumpsItems_eq_written items]
  | .object [] => rw [dumps,written]
  | .object ((key,v)::fields) =>
    rw [dumps,written,dumps_eq_written v,dumpsFields_eq_written fields]
    simp

theorem dumpsItems_eq_written (items : List (Value S)) :
    dumpsItems P items = writtenItems P.quote P.print [' '] items := by
  match items with
  | [] => rw [dumpsItems,writtenItems]
  | v::items =>
    rw [dumpsItems,writtenItems,dumps_eq_written v,dumpsItems_eq_written items]

theorem dumpsFields_eq_written (fields : List (String × Value S)) :
    dumpsFields P fields = writtenFields P.quote P.print [' '] fields := by
  match fields with
  | [] => rw [dumpsFields,writtenFields]
  | (key,v)::fields =>
    rw [dumpsFields,writtenFields,dumps_eq_written v,dumpsFields_eq_written fields]
    simp

end

section Strings
variable {stack : List (Frame S)} {fields : List (String × Value S)} {raw xs rest : List Char}
  {escaped : Bool} {s : String}

/-- A string is read up to the quote that ends it. -/
theorem run_text (hxs : wellQuoted escaped xs) (hs : R.decode (raw ++ xs) = some s) :
    run R ⟨.text raw escaped,stack⟩ (xs ++ '"'::rest) = run R ⟨.after (.text s),stack⟩ rest := by
  induction xs generalizing raw escaped with
  | nil =>
    obtain rfl : escaped = false := by simpa [wellQuoted] using hxs
    rw [List.append_nil] at hs
    rw [List.nil_append,run_cons,step_text,if_neg (by decide),if_neg Bool.false_ne_true,if_pos rfl,hs]
    rfl
  | cons c xs ih =>
    have hdecode : R.decode ((raw ++ [c]) ++ xs) = some s := by
      rwa [List.append_assoc,List.singleton_append]
    rw [wellQuoted,Bool.and_eq_true,Bool.not_eq_true'] at hxs
    obtain ⟨hcontrol,hxs⟩ := hxs
    rw [List.cons_append,run_cons,step_text,hcontrol,if_neg Bool.false_ne_true]
    cases escaped with
    | true => exact ih hxs hdecode
    | false =>
      rw [if_neg Bool.false_ne_true,Bool.and_eq_true,decide_eq_true_eq] at hxs
      rw [if_neg Bool.false_ne_true,if_neg hxs.1]
      exact ih hxs.2 hdecode

theorem run_keyText (hxs : wellQuoted escaped xs) (hs : R.decode (raw ++ xs) = some s) :
    run R ⟨.keyText fields raw escaped,stack⟩ (xs ++ '"'::rest) =
      run R ⟨.colon fields s,stack⟩ rest := by
  induction xs generalizing raw escaped with
  | nil =>
    obtain rfl : escaped = false := by simpa [wellQuoted] using hxs
    rw [List.append_nil] at hs
    rw [List.nil_append,run_cons,step_keyText,if_neg (by decide),if_neg Bool.false_ne_true,
      if_pos rfl,hs]
    rfl
  | cons c xs ih =>
    have hdecode : R.decode ((raw ++ [c]) ++ xs) = some s := by
      rwa [List.append_assoc,List.singleton_append]
    rw [wellQuoted,Bool.and_eq_true,Bool.not_eq_true'] at hxs
    obtain ⟨hcontrol,hxs⟩ := hxs
    rw [List.cons_append,run_cons,step_keyText,hcontrol,if_neg Bool.false_ne_true]
    cases escaped with
    | true => exact ih hxs hdecode
    | false =>
      rw [if_neg Bool.false_ne_true,Bool.and_eq_true,decide_eq_true_eq] at hxs
      rw [if_neg Bool.false_ne_true,if_neg hxs.1]
      exact ih hxs.2 hdecode

end Strings

section Scalars
variable {stack : List (Frame S)} {token xs rest : List Char} {x : S} {c : Char}

theorem run_scalar (hxs : ∀ d ∈ xs, isScalarChar d) (hx : R.scalar (token ++ xs) = some x)
    (hc : isScalarChar c = false) :
    run R ⟨.scalar token,stack⟩ (xs ++ c::rest) = run R ⟨.after (.scalar x),stack⟩ (c::rest) := by
  induction xs generalizing token with
  | nil =>
    rw [List.append_nil] at hx
    rw [List.nil_append,run_cons,run_cons,step_scalar,step_after,hc,if_neg Bool.false_ne_true,hx]
    rfl
  | cons d xs ih =>
    obtain ⟨hd,hxs⟩ := List.forall_mem_cons.mp hxs
    rw [List.cons_append,run_cons,step_scalar,if_pos hd]
    exact ih hxs (by rwa [List.append_assoc,List.singleton_append])

theorem step_value_of_isScalarChar (hc : isScalarChar c) :
    step R ⟨.value,stack⟩ c = some ⟨.scalar [c],stack⟩ := by
  have hspace : ¬isSpace c := by
    intro h
    rw [not_isScalarChar_of_isSpace h] at hc
    cases hc
  have hne : ∀ d, isScalarChar d = false → c ≠ d := by
    rintro d hd rfl
    rw [hd] at hc
    cases hc
  rw [step_value,if_neg hspace,beginValue,if_neg (hne _ (by decide)),if_neg (hne _ (by decide)),
    if_neg (hne _ (by decide)),if_pos hc]

end Scalars

/-- Behind a scalar stands what ends it. -/
def Ended : Value S → List Char → Prop
  | .scalar _, rest => ∃ c more, rest = c::more ∧ isScalarChar c = false
  | _, _ => True

section Run
variable {gap : List Char}

theorem writtenItems_eq_cons (items : List (Value S)) (rest : List Char) :
    ∃ c more, writtenItems P.quote P.print gap items ++ rest = c::more ∧ isScalarChar c = false := by
  cases items with
  | nil => exact ⟨_,_,rfl,by decide⟩
  | cons v items => exact ⟨',',_,by rw [writtenItems]; rfl,by decide⟩

theorem writtenFields_eq_cons (fields : List (String × Value S)) (rest : List Char) :
    ∃ c more, writtenFields P.quote P.print gap fields ++ rest = c::more ∧ isScalarChar c = false := by
  cases fields with
  | nil => exact ⟨_,_,rfl,by decide⟩
  | cons field fields => exact ⟨',',_,by rw [writtenFields]; rfl,by decide⟩

theorem ended_of_eq_cons {v : Value S} {rest : List Char}
    (h : ∃ c more, rest = c::more ∧ isScalarChar c = false) : Ended v rest := by
  cases v with
  | scalar x => exact h
  | _ => trivial

/-- Behind an opening bracket a value is read as anywhere. -/
theorem run_first_written (v : Value S) (stack : List (Frame S)) (rest : List Char) :
    run R ⟨.first,stack⟩ (written P.quote P.print gap v ++ rest) =
      run R ⟨.value,.arr []::stack⟩ (written P.quote P.print gap v ++ rest) := by
  have hstep : ∀ c xs, isSpace c = false → c ≠ ']' →
      run R ⟨.first,stack⟩ (c::xs) = run R ⟨.value,.arr []::stack⟩ (c::xs) := by
    intro c xs hspace hne
    rw [run_cons,run_cons,step_first,step_value,hspace,if_neg Bool.false_ne_true,if_neg hne,
      if_neg Bool.false_ne_true]
  match v with
  | .scalar x =>
    obtain ⟨d,token,hprint⟩ := List.exists_cons_of_ne_nil (P.print_ne_nil x)
    have hd : isScalarChar d := P.isScalarChar_print x d (hprint ▸ List.mem_cons_self)
    rw [written,hprint]
    refine hstep d _ ?_ ?_
    · by_contra hspace
      rw [not_isScalarChar_of_isSpace (by simpa using hspace)] at hd
      cases hd
    · rintro rfl
      exact absurd hd (by decide)
  | .text s => exact hstep '"' _ (by decide) (by decide)
  | .array [] => exact hstep '[' _ (by decide) (by decide)
  | .array (v::items) => exact hstep '[' _ (by decide) (by decide)
  | .object [] => exact hstep '\x7b' _ (by decide) (by decide)
  | .object ((key,v)::fields) => exact hstep '\x7b' _ (by decide) (by decide)

variable (hgap : ∀ c ∈ gap, isSpace c)
include hgap

/-- A gap before a value says nothing. -/
theorem run_value_gap (stack : List (Frame S)) (xs : List Char) :
    run R ⟨.value,stack⟩ (gap ++ xs) = run R ⟨.value,stack⟩ xs := by
  induction gap with
  | nil => rfl
  | cons c gap ih =>
    obtain ⟨hc,hgap⟩ := List.forall_mem_cons.mp hgap
    rw [List.cons_append,run_cons,step_value,if_pos hc]
    exact ih hgap

theorem run_key_gap (fields : List (String × Value S)) (stack : List (Frame S)) (xs : List Char) :
    run R ⟨.key fields,stack⟩ (gap ++ xs) = run R ⟨.key fields,stack⟩ xs := by
  induction gap with
  | nil => rfl
  | cons c gap ih =>
    obtain ⟨hc,hgap⟩ := List.forall_mem_cons.mp hgap
    rw [List.cons_append,run_cons,step_key,if_pos hc]
    exact ih hgap

/-- A key is read with its colon. -/
theorem run_key (fields : List (String × Value S)) (key : String) (stack : List (Frame S))
    (xs : List Char) : run R ⟨.keyText fields [] false,stack⟩ (P.quote key ++ ['"',':'] ++ gap ++ xs) =
      run R ⟨.value,.obj fields key::stack⟩ xs := by
  rw [List.append_assoc,List.append_assoc,← run_value_gap hgap]
  exact run_keyText (P.wellQuoted_quote key) (P.decode_quote key)

mutual

/-- A value that is written is read. -/
theorem run_written (v : Value S) (stack : List (Frame S)) (rest : List Char) (h : Ended v rest) :
    run R ⟨.value,stack⟩ (written P.quote P.print gap v ++ rest) = run R ⟨.after v,stack⟩ rest := by
  match v with
  | .scalar x =>
    obtain ⟨c,more,rfl,hc⟩ := h
    have hchars := P.isScalarChar_print x
    have hx := P.scalar_print x
    obtain ⟨d,token,hprint⟩ := List.exists_cons_of_ne_nil (P.print_ne_nil x)
    rw [hprint] at hchars hx
    obtain ⟨hd,htoken⟩ := List.forall_mem_cons.mp hchars
    rw [written,hprint,List.cons_append,run_cons,step_value_of_isScalarChar hd]
    exact run_scalar htoken hx hc
  | .text s =>
    rw [written,List.append_assoc]
    exact run_text (P.wellQuoted_quote s) (P.decode_quote s)
  | .array [] =>
    rw [written]
    rfl
  | .array (v::items) =>
    have hend : Ended v (writtenItems P.quote P.print gap items ++ rest) :=
      ended_of_eq_cons (writtenItems_eq_cons P items rest)
    rw [written,List.append_assoc]
    calc run R ⟨.value,stack⟩ ('['::written P.quote P.print gap v ++
          (writtenItems P.quote P.print gap items ++ rest))
      _ = run R ⟨.first,stack⟩ (written P.quote P.print gap v ++
          (writtenItems P.quote P.print gap items ++ rest)) := rfl
      _ = run R ⟨.value,.arr []::stack⟩ (written P.quote P.print gap v ++
          (writtenItems P.quote P.print gap items ++ rest)) := run_first_written P v stack _
      _ = run R ⟨.after v,.arr []::stack⟩ (writtenItems P.quote P.print gap items ++ rest) :=
        run_written v (.arr []::stack) _ hend
      _ = run R ⟨.after (.array (v::items)),stack⟩ rest := run_writtenItems items [] v stack rest
  | .object [] =>
    rw [written]
    rfl
  | .object ((key,v)::fields) =>
    have hend : Ended v (writtenFields P.quote P.print gap fields ++ rest) :=
      ended_of_eq_cons (writtenFields_eq_cons P fields rest)
    rw [written]
    calc run R ⟨.value,stack⟩ ('\x7b' :: '"' :: P.quote key ++ ['"',':'] ++ gap ++
          written P.quote P.print gap v ++ writtenFields P.quote P.print gap fields ++ rest)
      _ = run R ⟨.keyText [] [] false,stack⟩ (P.quote key ++ ['"',':'] ++ gap ++
          written P.quote P.print gap v ++ writtenFields P.quote P.print gap fields ++ rest) := rfl
      _ = run R ⟨.value,.obj [] key::stack⟩ (written P.quote P.print gap v ++
          (writtenFields P.quote P.print gap fields ++ rest)) := by
        rw [← run_key P hgap,List.append_assoc,List.append_assoc]
      _ = run R ⟨.after v,.obj [] key::stack⟩ (writtenFields P.quote P.print gap fields ++ rest) :=
        run_written v (.obj [] key::stack) _ hend
      _ = run R ⟨.after (.object ((key,v)::fields)),stack⟩ rest :=
        run_writtenFields fields [] key v stack rest

/-- An array is read behind an item. -/
theorem run_writtenItems (items before : List (Value S)) (v : Value S) (stack : List (Frame S))
    (rest : List Char) :
    run R ⟨.after v,.arr before::stack⟩ (writtenItems P.quote P.print gap items ++ rest) =
      run R ⟨.after (.array (before ++ v::items)),stack⟩ rest := by
  match items with
  | [] =>
    rw [writtenItems]
    rfl
  | w::items =>
    have hend : Ended w (writtenItems P.quote P.print gap items ++ rest) :=
      ended_of_eq_cons (writtenItems_eq_cons P items rest)
    rw [writtenItems]
    calc run R ⟨.after v,.arr before::stack⟩ (',' :: gap ++ written P.quote P.print gap w ++
          writtenItems P.quote P.print gap items ++ rest)
      _ = run R ⟨.value,.arr (before ++ [v])::stack⟩ (gap ++ written P.quote P.print gap w ++
          writtenItems P.quote P.print gap items ++ rest) := rfl
      _ = run R ⟨.value,.arr (before ++ [v])::stack⟩ (written P.quote P.print gap w ++
          (writtenItems P.quote P.print gap items ++ rest)) := by
        rw [List.append_assoc,List.append_assoc,run_value_gap hgap]
      _ = run R ⟨.after w,.arr (before ++ [v])::stack⟩ (writtenItems P.quote P.print gap items ++ rest) :=
        run_written w (.arr (before ++ [v])::stack) _ hend
      _ = run R ⟨.after (.array (before ++ v::w::items)),stack⟩ rest := by
        rw [run_writtenItems items (before ++ [v]) w stack rest,List.append_assoc]
        rfl

theorem run_writtenFields (fields before : List (String × Value S)) (key : String) (v : Value S)
    (stack : List (Frame S)) (rest : List Char) :
    run R ⟨.after v,.obj before key::stack⟩ (writtenFields P.quote P.print gap fields ++ rest) =
      run R ⟨.after (.object (before ++ (key,v)::fields)),stack⟩ rest := by
  match fields with
  | [] =>
    rw [writtenFields]
    rfl
  | (name,w)::fields =>
    have hend : Ended w (writtenFields P.quote P.print gap fields ++ rest) :=
      ended_of_eq_cons (writtenFields_eq_cons P fields rest)
    rw [writtenFields]
    calc run R ⟨.after v,.obj before key::stack⟩ (',' :: gap ++ ['"'] ++ P.quote name ++ ['"',':'] ++
          gap ++ written P.quote P.print gap w ++ writtenFields P.quote P.print gap fields ++ rest)
      _ = run R ⟨.key (before ++ [(key,v)]),stack⟩ (gap ++ ('"' :: P.quote name ++ ['"',':'] ++ gap ++
          (written P.quote P.print gap w ++ (writtenFields P.quote P.print gap fields ++ rest)))) := by
        simp only [List.append_assoc,List.cons_append,List.nil_append]
        rfl
      _ = run R ⟨.keyText (before ++ [(key,v)]) [] false,stack⟩ (P.quote name ++ ['"',':'] ++ gap ++
          (written P.quote P.print gap w ++ (writtenFields P.quote P.print gap fields ++ rest))) :=
        run_key_gap hgap (before ++ [(key,v)]) stack _
      _ = run R ⟨.value,.obj (before ++ [(key,v)]) name::stack⟩ (written P.quote P.print gap w ++
          (writtenFields P.quote P.print gap fields ++ rest)) := run_key P hgap _ _ _ _
      _ = run R ⟨.after w,.obj (before ++ [(key,v)]) name::stack⟩
          (writtenFields P.quote P.print gap fields ++ rest) := run_written w _ _ hend
      _ = run R ⟨.after (.object (before ++ (key,v)::(name,w)::fields)),stack⟩ rest := by
        rw [run_writtenFields fields (before ++ [(key,v)]) name w stack rest,List.append_assoc]
        rfl

end

/-- An object is read from its own text. -/
theorem parse_written (fields : List (String × Value S)) :
    parse R (written P.quote P.print gap (.object fields)) = some (.object fields) := by
  have hrun := run_written P hgap (.object fields) [] [] trivial
  rw [List.append_nil] at hrun
  rw [parse,start,hrun]
  rfl

end Run

theorem parse_dumps (fields : List (String × Value S)) :
    parse R (dumps P (.object fields)) = some (.object fields) := by
  rw [dumps_eq_written]
  exact parse_written P (List.forall_mem_singleton.mpr rfl) fields

end Json

/-! A reader and a printer that leave scalars as they are written, and write of the characters of strings
only those as escapes that have to be. -/
namespace Json.Plain

/-- A scalar as it is written. -/
abbrev Token := { token : List Char // token ≠ [] ∧ token.all isScalarChar }

def hexDigit (n : ℕ) : Char := Char.ofNat (if n < 10 then 48 + n else 87 + n)

def hexValue (c : Char) : Option ℕ :=
  if 48 ≤ c.toNat ∧ c.toNat < 58 then some (c.toNat - 48)
  else if 97 ≤ c.toNat ∧ c.toNat < 103 then some (c.toNat - 87)
  else if 65 ≤ c.toNat ∧ c.toNat < 71 then some (c.toNat - 55)
  else none

/-- The character of four digits, which no half of a pair is. -/
def ofHex (digits : List Char) : Option Char := do
  let values ← digits.mapM hexValue
  let n := values.foldl (fun n value => 16 * n + value) 0
  if n.isValidChar then some (Char.ofNat n) else none

/-- The character behind a backslash. -/
def ofEscape (c : Char) : Option Char :=
  if c = '"' ∨ c = '\\' ∨ c = '/' then some c
  else if c = 'b' then some (Char.ofNat 8)
  else if c = 't' then some '\t'
  else if c = 'n' then some '\n'
  else if c = 'f' then some (Char.ofNat 12)
  else if c = 'r' then some '\r'
  else none

def unescape : List Char → Option (List Char)
  | [] => some []
  | c::cs =>
    if c ≠ '\\' then (unescape cs).map (c::·)
    else
      match cs with
      | 'u'::p::q::r::s::cs => (ofHex [p,q,r,s]).bind (fun d => (unescape cs).map (d::·))
      | e::cs => (ofEscape e).bind (fun d => (unescape cs).map (d::·))
      | [] => none

def escape (c : Char) : List Char :=
  if isControl c then ['\\','u','0','0',hexDigit (c.toNat / 16),hexDigit (c.toNat % 16)]
  else if c = '"' ∨ c = '\\' then ['\\',c]
  else [c]

/-- A character that needs no backslash. -/
def unmarked (c : Char) : Bool := !isControl c && c ≠ '"' && c ≠ '\\'

theorem ofHex_hexDigit : ∀ n < 32,
    ofHex ['0','0',hexDigit (n / 16),hexDigit (n % 16)] = some (Char.ofNat n) ∧
      unmarked (hexDigit (n / 16)) ∧ unmarked (hexDigit (n % 16)) := by
  decide

theorem unescape_escape (c : Char) (cs : List Char) :
    unescape (escape c ++ cs) = (unescape cs).map (c::·) := by
  rw [escape]
  split_ifs with hcontrol hspecial
  · have hn : c.toNat < 32 := of_decide_eq_true hcontrol
    have hhex := (ofHex_hexDigit c.toNat hn).1
    rw [Char.ofNat_toNat] at hhex
    change (ofHex _).bind _ = _
    rw [hhex]
    rfl
  · rcases hspecial with rfl | rfl <;> rfl
  · rw [List.singleton_append,unescape.eq_def]
    exact if_pos fun h => hspecial (.inr h)

theorem wellQuoted_cons {c : Char} (h : unmarked c) (cs : List Char) :
    wellQuoted false (c::cs) = wellQuoted false cs := by
  simp only [unmarked,Bool.and_eq_true,Bool.not_eq_true',decide_eq_true_eq] at h
  obtain ⟨⟨hcontrol,hquote⟩,hescape⟩ := h
  simp [wellQuoted,hcontrol,hquote,hescape]

theorem wellQuoted_escape (c : Char) (cs : List Char) :
    wellQuoted false (escape c ++ cs) = wellQuoted false cs := by
  rw [escape]
  split_ifs with hcontrol hspecial
  · have hn : c.toNat < 32 := of_decide_eq_true hcontrol
    obtain ⟨-,hhigh,hlow⟩ := ofHex_hexDigit c.toNat hn
    calc wellQuoted false (['\\','u','0','0',hexDigit (c.toNat / 16),hexDigit (c.toNat % 16)] ++ cs)
      _ = wellQuoted false (hexDigit (c.toNat / 16)::hexDigit (c.toNat % 16)::cs) := rfl
      _ = wellQuoted false cs := by rw [wellQuoted_cons hhigh,wellQuoted_cons hlow]
  · rcases hspecial with rfl | rfl <;> rfl
  · refine wellQuoted_cons ?_ cs
    obtain ⟨hquote,hescape⟩ := not_or.mp hspecial
    simp [unmarked,hcontrol,hquote,hescape]

def reader : Reader Token where
  decode raw := (unescape raw).map String.ofList
  scalar token :=
    if h : token ≠ [] ∧ token.all isScalarChar then some ⟨token,h⟩ else none

theorem unescape_flatMap (cs : List Char) : unescape (cs.flatMap escape) = some cs := by
  induction cs with
  | nil => rfl
  | cons c cs ih =>
    rw [List.flatMap_cons,unescape_escape,ih]
    rfl

theorem wellQuoted_flatMap (cs : List Char) : wellQuoted false (cs.flatMap escape) := by
  induction cs with
  | nil => rfl
  | cons c cs ih => rwa [List.flatMap_cons,wellQuoted_escape]

def printer : Printer reader where
  quote s := s.toList.flatMap escape
  print := Subtype.val
  wellQuoted_quote s := wellQuoted_flatMap s.toList
  decode_quote s := by
    change (unescape _).map _ = _
    rw [unescape_flatMap,Option.map_some,String.ofList_toList]
  print_ne_nil x := x.property.1
  isScalarChar_print x := List.all_eq_true.mp x.property.2
  scalar_print x := dif_pos x.property

end Json.Plain
