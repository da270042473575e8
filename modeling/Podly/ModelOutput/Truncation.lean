import Podly.Json.Outer
import Podly.ModelOutput.Clean

/-! Where the scan for the end of the object stops: it counts the objects that are open. -/
namespace Podly.ModelOutput
open Json
variable {S : Type} {R : Reader S}

section Scan
variable {scan : Scan} {c : Char} {xs ys : List Char}

theorem Scan.next_plain {depth : ℤ} (hquote : c ≠ '"') (hopen : c ≠ '\x7b') (hclose : c ≠ '\x7d') :
    (⟨depth,false,false⟩ : Scan).next c = ⟨depth,false,false⟩ := by
  rw [Scan.next,if_neg Bool.false_ne_true,if_neg Bool.false_ne_true,if_neg hquote,if_neg hopen,
    if_neg hclose]

theorem Scan.next_brace {depth : ℤ} :
    (⟨depth + 1,false,false⟩ : Scan).next '\x7d' = ⟨depth,false,false⟩ :=
  congrArg (fun depth => (⟨depth,false,false⟩ : Scan)) (add_sub_cancel_right depth 1)

theorem Scan.ends_iff (h : 0 < scan.depth) : scan.ends c ↔ (scan.next c).depth = 0 := by
  obtain ⟨depth,inString,escape⟩ := scan
  have hdepth : depth ≠ 0 := ne_of_gt h
  cases escape with
  | true => simp [Scan.ends,Scan.next,hdepth]
  | false =>
    cases inString with
    | true =>
      simp only [Scan.ends,Scan.next]
      split_ifs <;> simp [hdepth]
    | false =>
      by_cases hclose : c = '\x7d'
      · subst hclose
        exact decide_eq_true_iff
      · have hends : Scan.ends ⟨depth,false,false⟩ c = false := by simp [Scan.ends,hclose]
        have hnext : (Scan.next ⟨depth,false,false⟩ c).depth ≠ 0 := by
          have hsucc : depth + 1 ≠ 0 := ne_of_gt (Int.add_pos h Int.one_pos)
          simp only [Scan.next,if_neg Bool.false_ne_true,if_neg hclose]
          split_ifs
          · exact hdepth
          · exact hsucc
          · exact hdepth
        rw [hends]
        exact iff_of_false Bool.false_ne_true hnext

/-- What the scan stops at is a beginning, and more text behind it changes nothing. -/
theorem Scan.root_isPrefix (h : scan.root xs = some ys) : ys <+: xs := by
  induction xs generalizing scan ys with
  | nil => cases h
  | cons c xs ih =>
    rw [Scan.root] at h
    split at h
    · obtain rfl := Option.some.inj h
      exact ⟨xs,rfl⟩
    · obtain ⟨rest,hrest,rfl⟩ := Option.map_eq_some_iff.mp h
      exact (List.cons_prefix_cons).mpr ⟨rfl,ih hrest⟩

theorem Scan.root_append (h : scan.root xs = some ys) (more : List Char) :
    scan.root (xs ++ more) = some ys := by
  induction xs generalizing scan ys with
  | nil => cases h
  | cons c xs ih =>
    rw [Scan.root] at h
    rw [List.cons_append,Scan.root]
    split at h
    · rename_i hends
      rw [if_pos hends]
      exact h
    · rename_i hends
      obtain ⟨rest,hrest,rfl⟩ := Option.map_eq_some_iff.mp h
      rw [if_neg hends,ih hrest]
      rfl

end Scan

/-- What the scan has counted of a text that is read up to a state. -/
def scanOf (s : State S) : Scan := ⟨s.openObjects,s.mode.inString,s.mode.escaped⟩

section Simulation
variable {stack : List (Frame S)} {fields : List (String × Value S)} {keys : List String}
  {s t : State S} {v : Value S} {c : Char} {xs : List Char}

/-- The objects that are open around a value. -/
def openIn (stack : List (Frame S)) : ℤ := ((stack.map Frame.openObjects).sum : ℕ)

theorem openIn_arr (items : List (Value S)) : openIn (.arr items::stack) = openIn stack := by
  simp [openIn,Frame.openObjects]

theorem openIn_obj (key : String) : openIn (.obj fields key::stack) = openIn stack + 1 := by
  simp [openIn,Frame.openObjects,add_comm]

theorem scanOf_mk (mode : Mode S) : scanOf ⟨mode,stack⟩ =
    ⟨mode.openObjects + openIn stack,mode.inString,mode.escaped⟩ := by
  rw [scanOf,State.openObjects,Nat.cast_add]
  rfl

theorem scanOf_outside {mode : Mode S} (hopen : mode.openObjects = 0) (hstring : mode.inString = false)
    (hescaped : mode.escaped = false) : scanOf ⟨mode,stack⟩ = ⟨openIn stack,false,false⟩ := by
  rw [scanOf_mk,hopen,hstring,hescaped,Nat.cast_zero,zero_add]

theorem scanOf_inside {mode : Mode S} (hopen : mode.openObjects = 1) :
    scanOf ⟨mode,stack⟩ = ⟨openIn stack + 1,mode.inString,mode.escaped⟩ := by
  rw [scanOf_mk,hopen,Nat.cast_one,add_comm]

theorem scanOf_text {raw : List Char} {escaped : Bool} :
    scanOf ⟨.text raw escaped,stack⟩ = ⟨openIn stack,true,escaped⟩ := by
  rw [scanOf_mk,Mode.openObjects.eq_def,Nat.cast_zero,zero_add]
  rfl

theorem ne_of_isSpace (h : isSpace c) : c ≠ '"' ∧ c ≠ '\x7b' ∧ c ≠ '\x7d' := by
  refine ⟨?_,?_,?_⟩ <;>
  · rintro rfl
    exact absurd h (by decide)

theorem ne_of_isScalarChar (h : isScalarChar c) : c ≠ '"' ∧ c ≠ '\x7b' ∧ c ≠ '\x7d' := by
  refine ⟨?_,?_,?_⟩ <;>
  · rintro rfl
    exact absurd h (by decide)

theorem next_of_close (h : close v stack c = some t) :
    (⟨openIn stack,false,false⟩ : Scan).next c = scanOf t := by
  rcases close_eq_some h with ⟨hspace,rfl⟩ | ⟨items,rest,rfl,⟨rfl,rfl⟩ | ⟨rfl,rfl⟩⟩ |
      ⟨fields,key,rest,rfl,⟨rfl,rfl⟩ | ⟨rfl,rfl⟩⟩
  · obtain ⟨hquote,hopen,hclose⟩ := ne_of_isSpace hspace
    rw [Scan.next_plain hquote hopen hclose,scanOf_outside rfl rfl rfl]
  · rw [scanOf_outside rfl rfl rfl,openIn_arr,openIn_arr]
    rfl
  · rw [scanOf_outside rfl rfl rfl,openIn_arr]
    rfl
  · rw [scanOf_inside rfl,openIn_obj]
    rfl
  · rw [scanOf_outside rfl rfl rfl,openIn_obj]
    exact Scan.next_brace

theorem next_of_beginValue (h : beginValue stack c = some t) :
    (⟨openIn stack,false,false⟩ : Scan).next c = scanOf t := by
  rcases beginValue_eq_some h with ⟨rfl,rfl⟩ | ⟨rfl,rfl⟩ | ⟨rfl,rfl⟩ | ⟨hscalar,rfl⟩
  · rw [scanOf_text]
    rfl
  · rw [scanOf_inside rfl]
    rfl
  · rw [scanOf_outside rfl rfl rfl]
    rfl
  · obtain ⟨hquote,hopen,hclose⟩ := ne_of_isScalarChar hscalar
    rw [Scan.next_plain hquote hopen hclose,scanOf_outside rfl rfl rfl]

/-- In a string the scan counts nothing and waits for the quote. -/
theorem next_inString {depth : ℤ} {escaped : Bool} (h : escaped ∨ c ≠ '"') :
    (⟨depth,true,escaped⟩ : Scan).next c = ⟨depth,true,!escaped && c = '\\'⟩ := by
  cases escaped with
  | true => rfl
  | false =>
    have hquote : c ≠ '"' := h.resolve_left Bool.false_ne_true
    by_cases hescape : c = '\\'
    · subst hescape
      rfl
    · simp [Scan.next,hquote,hescape]

theorem outside_of_idle {mode : Mode S} (h : mode.idle) :
    mode.inString = false ∧ mode.escaped = false := by
  cases mode <;> first | exact ⟨rfl,rfl⟩ | cases h

/-- The scan counts what the reader has open. -/
theorem next_of_step (h : step R s c = some t) : (scanOf s).next c = scanOf t := by
  cases transition_of_step h with
  | space hmode hspace =>
    obtain ⟨hquote,hopen,hclose⟩ := ne_of_isSpace hspace
    obtain ⟨hstring,hescaped⟩ := outside_of_idle hmode
    rw [scanOf_mk,hstring,hescaped]
    exact Scan.next_plain hquote hopen hclose
  | value hbegin =>
    rw [scanOf_outside rfl rfl rfl]
    exact next_of_beginValue hbegin
  | first hbegin =>
    rw [scanOf_outside rfl rfl rfl,← openIn_arr []]
    exact next_of_beginValue hbegin
  | emptyArray =>
    rw [scanOf_outside rfl rfl rfl,scanOf_outside rfl rfl rfl]
    rfl
  | emptyObject =>
    rw [scanOf_inside rfl,scanOf_outside rfl rfl rfl]
    exact Scan.next_brace
  | firstKey =>
    rw [scanOf_inside rfl,scanOf_inside rfl]
    rfl
  | key =>
    rw [scanOf_inside rfl,scanOf_inside rfl]
    rfl
  | keyChar hcontrol hquote =>
    rw [scanOf_inside rfl,scanOf_inside rfl]
    exact next_inString hquote
  | keyEnd =>
    rw [scanOf_inside rfl,scanOf_inside rfl]
    rfl
  | colon =>
    rw [scanOf_inside rfl,scanOf_outside rfl rfl rfl,openIn_obj]
    rfl
  | textChar hcontrol hquote =>
    rw [scanOf_text,scanOf_text]
    exact next_inString hquote
  | textEnd =>
    rw [scanOf_text,scanOf_outside rfl rfl rfl]
    rfl
  | scalarChar hscalar =>
    obtain ⟨hquote,hopen,hclose⟩ := ne_of_isScalarChar hscalar
    rw [scanOf_outside rfl rfl rfl,scanOf_outside rfl rfl rfl]
    exact Scan.next_plain hquote hopen hclose
  | scalarEnd hx hclose =>
    rw [scanOf_outside rfl rfl rfl]
    exact next_of_close hclose
  | after hclose =>
    rw [scanOf_outside rfl rfl rfl]
    exact next_of_close hclose

/-- From within the outermost object the scan finds its end. -/
theorem root_of_run (hrun : run R s xs = some ⟨.after (.object fields),[]⟩)
    (hkeys : s.outerKeys = some keys) (hopen : 0 < s.openObjects) (hend : xs.getLast? = some '\x7d') :
    (scanOf s).root xs = some xs := by
  induction xs generalizing s keys with
  | nil => cases hend
  | cons c xs ih =>
    rw [run_cons] at hrun
    obtain ⟨u,hstep,hrest⟩ := Option.bind_eq_some_iff.mp hrun
    have hnext := next_of_step hstep
    have hends : (scanOf s).ends c ↔ u.openObjects = 0 := by
      rw [Scan.ends_iff (Int.natCast_pos.mpr hopen),hnext]
      exact Int.natCast_eq_zero
    obtain ⟨keys',hkeys'⟩ : ∃ keys', u.outerKeys = some keys' := by
      rcases outerKeys_of_step hstep hkeys with hsame | ⟨-,key,hadded⟩
      · exact ⟨keys,hsame⟩
      · exact ⟨keys ++ [key],hadded⟩
    rw [Scan.root]
    by_cases hzero : u.openObjects = 0
    · obtain ⟨fields',rfl⟩ := eq_after_of_openObjects hkeys' hzero
      obtain ⟨-,hspaces⟩ := run_after_nil hrest
      have hnil : xs = [] := by
        by_contra hne
        rw [List.getLast?_cons_of_ne_nil hne] at hend
        exact absurd (hspaces _ (List.mem_of_getLast? hend)) (by decide)
      rw [if_pos (hends.mpr hzero),hnil]
    · have hne : xs ≠ [] := by
        rintro rfl
        obtain rfl := Option.some.inj hrest
        exact hzero rfl
      have hlast : xs.getLast? = some '\x7d' := by
        rwa [List.getLast?_cons_of_ne_nil hne] at hend
      rw [if_neg (fun h => hzero (hends.mp h)),hnext,
        ih hrest hkeys' (Nat.pos_of_ne_zero hzero) hlast]
      rfl

end Simulation

section Truncation
variable {fields : List (String × Value S)} {text xs : List Char}

theorem root_of_parse (h : parse R text = some (.object fields)) (hopen : text.head? = some '\x7b')
    (hclose : text.getLast? = some '\x7d') : (⟨0,false,false⟩ : Scan).root text = some text := by
  obtain ⟨rest,rfl⟩ := List.head?_eq_some_iff.mp hopen
  have hrun : run R ⟨.firstKey,[]⟩ rest = some ⟨.after (.object fields),[]⟩ := run_of_parse_object h
  have hne : rest ≠ [] := by
    rintro rfl
    cases hrun
  rw [List.getLast?_cons_of_ne_nil hne] at hclose
  have hroot := root_of_run (s := ⟨.firstKey,[]⟩) hrun rfl Nat.one_pos hclose
  rw [Scan.root,if_neg (by decide)]
  change (Scan.root (scanOf (S := S) ⟨.firstKey,[]⟩) rest).map _ = _
  rw [hroot]
  rfl

/-- What stands behind the object is dropped. -/
theorem truncateAfterBalancedRoot_append (h : parse R text = some (.object fields))
    (hopen : text.head? = some '\x7b') (hclose : text.getLast? = some '\x7d') (trailing : List Char) :
    truncateAfterBalancedRoot (text ++ trailing) = text := by
  rw [truncateAfterBalancedRoot,Scan.root_append (root_of_parse h hopen hclose) trailing]
  rfl

/-- An object that is cut off stays as it is. -/
theorem truncateAfterBalancedRoot_of_cut (h : parse R text = some (.object fields))
    (hopen : text.head? = some '\x7b') (hclose : text.getLast? = some '\x7d') (hcut : xs <+: text)
    (hne : xs ≠ text) : truncateAfterBalancedRoot xs = xs := by
  obtain ⟨rest,hrest⟩ := id hcut
  rw [truncateAfterBalancedRoot]
  cases hroot : (⟨0,false,false⟩ : Scan).root xs with
  | none => rfl
  | some ys =>
    have hwhole := Scan.root_append hroot rest
    rw [hrest,root_of_parse h hopen hclose] at hwhole
    obtain rfl := Option.some.inj hwhole
    exact absurd (hcut.eq_of_length_le (Scan.root_isPrefix hroot).length_le) hne

end Truncation

section Repair
variable {text before : List Char} {pattern : List Char → Bool}

theorem beforeMatch_isPrefix (h : beforeMatch pattern text = some before) : before <+: text := by
  induction text generalizing before with
  | nil => cases h
  | cons c text ih =>
    rw [beforeMatch] at h
    split at h
    · obtain rfl := Option.some.inj h
      exact List.nil_prefix
    · obtain ⟨rest,hrest,rfl⟩ := Option.map_eq_some_iff.mp h
      exact List.cons_prefix_cons.mpr ⟨rfl,ih hrest⟩

/-- The repair cuts the text off and closes what is open. -/
theorem exists_attemptJsonRepair (text : List Char) : ∃ before brackets braces, before <+: text ∧
    attemptJsonRepair text = before ++ closers brackets braces := by
  rw [attemptJsonRepair]
  split
  · exact ⟨text,0,0,List.prefix_rfl,(List.append_nil text).symm⟩
  · have hstripped : (text.rdropWhile Writer.isSpace).rdropWhile (· = ',') <+: text :=
      (List.rdropWhile_prefix _ _).trans (List.rdropWhile_prefix _ text)
    refine ⟨_,_,_,?_,rfl⟩
    refine List.IsPrefix.trans ?_ hstripped
    cases hkey : beforeMatch endsBehindKey
        ((text.rdropWhile Writer.isSpace).rdropWhile (· = ',')) with
    | some before => exact beforeMatch_isPrefix hkey
    | none =>
      cases hvalue : beforeMatch endsInValue
          ((text.rdropWhile Writer.isSpace).rdropWhile (· = ',')) with
      | some before => exact beforeMatch_isPrefix hvalue
      | none => exact List.prefix_rfl

end Repair

end Podly.ModelOutput
