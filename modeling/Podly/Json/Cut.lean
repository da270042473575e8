import Podly.Json.Machine

/-! Texts that are cut off: what a text can become that is read in part, and what it becomes when its
arrays and then its objects are closed where it ends. -/
namespace Json
variable {S : Type} {R : Reader S}

/-- The values that the innermost value can become. -/
def Mode.Becomes : Mode S → Value S → Prop
  | .after v, w => w = v
  | .first, w => ∃ items, w = .array items
  | .firstKey, w => ∃ fields, w = .object fields
  | .key fields, w | .keyText fields _ _, w | .colon fields _, w =>
    ∃ more, w = .object (fields ++ more)
  | .value, _ | .text _ _, _ | .scalar _, _ => True

/-- The values that the outermost one can become, by what the innermost can. -/
def FitsIn (P : Value S → Prop) : List (Frame S) → Value S → Prop
  | [], v => P v
  | .arr items::stack, v =>
    FitsIn (fun a => ∃ w more, P w ∧ a = .array (items ++ w::more)) stack v
  | .obj fields key::stack, v =>
    FitsIn (fun o => ∃ w more, P w ∧ o = .object (fields ++ (key,w)::more)) stack v

/-- The values that a text can become that is read up to a state. -/
def State.Fits (s : State S) (v : Value S) : Prop := FitsIn s.mode.Becomes s.stack v

section Fits
variable {P Q : Value S → Prop} {stack : List (Frame S)} {s t : State S} {v w : Value S} {c : Char}
  {xs : List Char}

theorem fitsIn_arr {items : List (Value S)} : FitsIn P (.arr items::stack) v ↔
    FitsIn (fun a => ∃ w more, P w ∧ a = .array (items ++ w::more)) stack v := Iff.rfl

theorem fitsIn_obj {fields : List (String × Value S)} {key : String} :
    FitsIn P (.obj fields key::stack) v ↔
      FitsIn (fun o => ∃ w more, P w ∧ o = .object (fields ++ (key,w)::more)) stack v := Iff.rfl

theorem FitsIn.mono (hPQ : ∀ w, P w → Q w) (h : FitsIn P stack v) : FitsIn Q stack v := by
  induction stack generalizing P Q with
  | nil => exact hPQ v h
  | cons frame stack ih =>
    cases frame with
    | arr items =>
      refine ih ?_ h
      rintro a ⟨w,more,hw,rfl⟩
      exact ⟨w,more,hPQ w hw,rfl⟩
    | obj fields key =>
      refine ih ?_ h
      rintro o ⟨w,more,hw,rfl⟩
      exact ⟨w,more,hPQ w hw,rfl⟩

/-- What stands behind a value leaves it as it is. -/
theorem fits_of_close (h : close w stack c = some t) (hv : t.Fits v) :
    FitsIn (· = w) stack v := by
  rcases close_eq_some h with ⟨-,rfl⟩ | ⟨items,rest,rfl,⟨-,rfl⟩ | ⟨-,rfl⟩⟩ |
      ⟨fields,key,rest,rfl,⟨-,rfl⟩ | ⟨-,rfl⟩⟩
  · exact hv
  · rw [fitsIn_arr]
    refine FitsIn.mono ?_ (fitsIn_arr.mp hv)
    rintro a ⟨x,more,-,rfl⟩
    exact ⟨w,x::more,rfl,by rw [List.append_assoc]; rfl⟩
  · rw [fitsIn_arr]
    refine FitsIn.mono ?_ hv
    rintro a rfl
    exact ⟨w,[],rfl,rfl⟩
  · rw [fitsIn_obj]
    refine FitsIn.mono ?_ hv
    rintro o ⟨more,rfl⟩
    exact ⟨w,more,rfl,by rw [List.append_assoc]; rfl⟩
  · rw [fitsIn_obj]
    refine FitsIn.mono ?_ hv
    rintro o rfl
    exact ⟨w,[],rfl,rfl⟩

theorem fits_of_beginValue (h : beginValue stack c = some t) (hv : t.Fits v) :
    FitsIn (fun _ => True) stack v := by
  rcases beginValue_eq_some h with ⟨-,rfl⟩ | ⟨-,rfl⟩ | ⟨-,rfl⟩ | ⟨-,rfl⟩ <;>
    exact FitsIn.mono (fun _ _ => trivial) hv

/-- What a text can become after a character, it could become before. -/
theorem State.Fits.of_step (hstep : step R s c = some t) (hv : t.Fits v) : s.Fits v := by
  cases transition_of_step hstep with
  | space => exact hv
  | value h => exact fits_of_beginValue h hv
  | first h =>
    refine FitsIn.mono ?_ (fitsIn_arr.mp (fits_of_beginValue h hv))
    rintro a ⟨x,more,-,rfl⟩
    exact ⟨x::more,rfl⟩
  | emptyArray =>
    refine FitsIn.mono ?_ hv
    rintro a rfl
    exact ⟨[],rfl⟩
  | emptyObject =>
    refine FitsIn.mono ?_ hv
    rintro o rfl
    exact ⟨[],rfl⟩
  | firstKey =>
    refine FitsIn.mono ?_ hv
    rintro o ⟨more,rfl⟩
    exact ⟨more,rfl⟩
  | key => exact hv
  | keyChar => exact hv
  | keyEnd => exact hv
  | colon =>
    refine FitsIn.mono ?_ (fitsIn_obj.mp hv)
    rintro o ⟨x,more,-,rfl⟩
    exact ⟨(_,x)::more,rfl⟩
  | textChar => exact hv
  | textEnd => exact FitsIn.mono (fun _ _ => trivial) hv
  | scalarChar => exact hv
  | scalarEnd hx h => exact FitsIn.mono (fun _ _ => trivial) (fits_of_close h hv)
  | after h => exact fits_of_close h hv

theorem State.Fits.of_run (hrun : run R s xs = some t) (hv : t.Fits v) : s.Fits v := by
  induction xs generalizing s with
  | nil => exact Option.some.inj hrun ▸ hv
  | cons c xs ih =>
    rw [run_cons] at hrun
    obtain ⟨u,hstep,hrest⟩ := Option.bind_eq_some_iff.mp hrun
    exact (ih hrest).of_step hstep

end Fits

/-- A value is no object. -/
def Value.NotObject (v : Value S) : Prop := ∀ fields, v ≠ .object fields

theorem Value.notObject_array (items : List (Value S)) : (Value.array items).NotObject :=
  fun _ => nofun

theorem Value.notObject_scalar (x : S) : (Value.scalar x).NotObject := fun _ => nofun

/-- A value is another one cut off: a scalar may be cut to anything, an array or an object ends with an
entry that is cut off, and an entry of an array is then no object. -/
inductive CutOff : Value S → Value S → Prop
  | same (v : Value S) : CutOff v v
  | scalar (x : S) (v : Value S) : CutOff (.scalar x) v
  | array (items more : List (Value S)) : CutOff (.array items) (.array (items ++ more))
  | item (items : List (Value S)) {v w : Value S} (more : List (Value S)) (h : CutOff v w)
      (hv : v.NotObject) : CutOff (.array (items ++ [v])) (.array (items ++ w::more))
  | object (fields more : List (String × Value S)) :
      CutOff (.object fields) (.object (fields ++ more))
  | field (fields : List (String × Value S)) (key : String) {v w : Value S}
      (more : List (String × Value S)) (h : CutOff v w) :
      CutOff (.object (fields ++ [(key,v)])) (.object (fields ++ (key,w)::more))

/-- The closing brackets and then the closing braces that a text is repaired with. -/
def closers (brackets braces : ℕ) : List Char :=
  List.replicate brackets ']' ++ List.replicate braces '\x7d'

section Closed
variable {P : Value S → Prop} {stack : List (Frame S)} {s t : State S} {v w x : Value S} {c : Char}
  {xs : List Char} {brackets braces : ℕ}

/-- Behind a value braces close objects. -/
theorem cutOff_of_braces (hx : ∀ y, P y → CutOff x y)
    (hrun : run R ⟨.after x,stack⟩ (closers 0 braces) = some ⟨.after v,[]⟩)
    (hw : FitsIn P stack w) : CutOff v w := by
  induction braces generalizing stack x P with
  | zero =>
    cases hrun
    exact hx w hw
  | succ braces ih =>
    rw [closers,List.replicate_zero,List.nil_append,List.replicate_succ,run_cons,step_after] at hrun
    obtain ⟨t,hstep,hrest⟩ := Option.bind_eq_some_iff.mp hrun
    rcases close_eq_some hstep with ⟨hspace,-⟩ | ⟨_,_,-,⟨hc,-⟩ | ⟨hc,-⟩⟩ |
        ⟨fields,key,rest,rfl,⟨hc,-⟩ | ⟨-,rfl⟩⟩
    · exact absurd hspace (by decide)
    · exact absurd hc (by decide)
    · exact absurd hc (by decide)
    · exact absurd hc (by decide)
    · refine ih ?_ hrest hw
      rintro o ⟨y,more,hy,rfl⟩
      exact .field fields key more (hx y hy)

/-- Behind a value that is no object, or a whole one, brackets close arrays. -/
theorem cutOff_of_closers (hx : ∀ y, P y → CutOff x y) (hwhole : x.NotObject ∨ ∀ y, P y → y = x)
    (hrun : run R ⟨.after x,stack⟩ (closers brackets braces) = some ⟨.after v,[]⟩)
    (hw : FitsIn P stack w) : CutOff v w := by
  induction brackets generalizing stack x P with
  | zero => exact cutOff_of_braces hx hrun hw
  | succ brackets ih =>
    rw [closers,List.replicate_succ,List.cons_append,run_cons,step_after] at hrun
    obtain ⟨t,hstep,hrest⟩ := Option.bind_eq_some_iff.mp hrun
    rcases close_eq_some hstep with ⟨hspace,-⟩ | ⟨items,rest,rfl,⟨hc,-⟩ | ⟨-,rfl⟩⟩ |
        ⟨_,_,_,-,⟨hc,-⟩ | ⟨hc,-⟩⟩
    · exact absurd hspace (by decide)
    · exact absurd hc (by decide)
    · refine ih ?_ (.inl (Value.notObject_array _)) hrest hw
      rintro a ⟨y,more,hy,rfl⟩
      rcases hwhole with hnot | hsame
      · exact .item items more (hx y hy) hnot
      · have hwhole := CutOff.array (items ++ [x]) more
        rw [List.append_assoc,List.singleton_append] at hwhole
        rwa [hsame y hy]
    · exact absurd hc (by decide)
    · exact absurd hc (by decide)

/-- Closers do not end a string. -/
theorem run_text_ne_after {raw : List Char} {escaped : Bool} (hxs : ∀ c ∈ xs, c ≠ '"')
    (hrun : run R ⟨.text raw escaped,stack⟩ xs = some t) (v : Value S) : t.mode ≠ .after v := by
  induction xs generalizing raw escaped with
  | nil =>
    obtain rfl := Option.some.inj hrun
    exact nofun
  | cons c xs ih =>
    obtain ⟨hc,hxs⟩ := List.forall_mem_cons.mp hxs
    rw [run_cons,step_text] at hrun
    obtain ⟨u,hstep,hrest⟩ := Option.bind_eq_some_iff.mp hrun
    split_ifs at hstep
    · obtain rfl := Option.some.inj hstep
      exact ih hxs hrest
    · obtain rfl := Option.some.inj hstep
      exact ih hxs hrest

theorem run_keyText_ne_after {fields : List (String × Value S)} {raw : List Char} {escaped : Bool}
    (hxs : ∀ c ∈ xs, c ≠ '"') (hrun : run R ⟨.keyText fields raw escaped,stack⟩ xs = some t)
    (v : Value S) : t.mode ≠ .after v := by
  induction xs generalizing raw escaped with
  | nil =>
    obtain rfl := Option.some.inj hrun
    exact nofun
  | cons c xs ih =>
    obtain ⟨hc,hxs⟩ := List.forall_mem_cons.mp hxs
    rw [run_cons,step_keyText] at hrun
    obtain ⟨u,hstep,hrest⟩ := Option.bind_eq_some_iff.mp hrun
    split_ifs at hstep
    · obtain rfl := Option.some.inj hstep
      exact ih hxs hrest
    · obtain rfl := Option.some.inj hstep
      exact ih hxs hrest

theorem mem_closers (h : c ∈ closers brackets braces) : c = ']' ∨ c = '\x7d' :=
  (List.mem_append.mp h).imp List.eq_of_mem_replicate List.eq_of_mem_replicate

/-- The first of the closers. -/
theorem closers_cases (brackets braces : ℕ) : closers brackets braces = [] ∨
    (∃ n, closers brackets braces = ']'::closers n braces) ∨
      ∃ n, closers brackets braces = '\x7d'::closers 0 n := by
  cases brackets with
  | succ n => exact .inr (.inl ⟨n,rfl⟩)
  | zero =>
    cases braces with
    | zero => exact .inl rfl
    | succ n => exact .inr (.inr ⟨n,rfl⟩)

/-- A text that its closers make whole is cut off from any that it can become. -/
theorem cutOff_of_closed (hrun : run R s (closers brackets braces) = some ⟨.after v,[]⟩)
    (hw : s.Fits w) : CutOff v w := by
  have hquote : ∀ c ∈ closers brackets braces, c ≠ '"' := by
    intro c hc
    rcases mem_closers hc with rfl | rfl <;> decide
  obtain ⟨mode,stack⟩ := s
  cases mode with
  | after x => exact cutOff_of_closers (by rintro y rfl; exact .same y) (.inr fun _ h => h) hrun hw
  | text raw escaped => exact absurd rfl (run_text_ne_after hquote hrun v)
  | keyText fields raw escaped => exact absurd rfl (run_keyText_ne_after hquote hrun v)
  | scalar token =>
    -- the first of the closers ends the scalar
    have hended : ∃ x, run R ⟨.after (.scalar x),stack⟩ (closers brackets braces) =
        some ⟨.after v,[]⟩ := by
      rcases closers_cases brackets braces with hnil | ⟨n,hcons⟩ | ⟨n,hcons⟩
      · rw [hnil] at hrun
        cases hrun
      · rw [hcons,run_cons,step_scalar,if_neg (by decide)] at hrun
        obtain ⟨t,hstep,hrest⟩ := Option.bind_eq_some_iff.mp hrun
        obtain ⟨x,-,hclose⟩ := Option.bind_eq_some_iff.mp hstep
        exact ⟨x,by rw [hcons,run_cons,step_after,hclose]; exact hrest⟩
      · rw [hcons,run_cons,step_scalar,if_neg (by decide)] at hrun
        obtain ⟨t,hstep,hrest⟩ := Option.bind_eq_some_iff.mp hrun
        obtain ⟨x,-,hclose⟩ := Option.bind_eq_some_iff.mp hstep
        exact ⟨x,by rw [hcons,run_cons,step_after,hclose]; exact hrest⟩
    obtain ⟨x,hended⟩ := hended
    exact cutOff_of_closers (fun y _ => .scalar x y) (.inl (Value.notObject_scalar x)) hended hw
  | first =>
    rcases closers_cases brackets braces with hnil | ⟨n,hcons⟩ | ⟨n,hcons⟩
    · rw [hnil] at hrun
      cases hrun
    · rw [hcons] at hrun
      refine cutOff_of_closers ?_ (.inl (Value.notObject_array [])) hrun hw
      rintro a ⟨items,rfl⟩
      exact .array [] items
    · rw [hcons] at hrun
      cases hrun
  | firstKey =>
    rcases closers_cases brackets braces with hnil | ⟨n,hcons⟩ | ⟨n,hcons⟩
    · rw [hnil] at hrun
      cases hrun
    · rw [hcons] at hrun
      cases hrun
    · rw [hcons] at hrun
      refine cutOff_of_braces ?_ hrun hw
      rintro o ⟨fields,rfl⟩
      exact .object [] fields
  | _ =>
    rcases closers_cases brackets braces with hnil | ⟨n,hcons⟩ | ⟨n,hcons⟩
    · rw [hnil] at hrun
      cases hrun
    · rw [hcons] at hrun
      cases hrun
    · rw [hcons] at hrun
      cases hrun

theorem parse_closers : parse R (closers brackets braces) = none := by
  rcases closers_cases brackets braces with hnil | ⟨n,hcons⟩ | ⟨n,hcons⟩
  · rw [hnil]
    rfl
  · rw [hcons]
    rfl
  · rw [hcons]
    rfl

end Closed

end Json
