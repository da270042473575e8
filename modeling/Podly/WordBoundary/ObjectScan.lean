import Podly.Brackets.Spans
import Podly.ModelOutput.Truncation
import Podly.WordBoundary.ReplyText

/-! The scanner of objects finds the outermost pairs of braces outside of strings, and so the text of
every JSON object that stands behind a text without quotes and braces. -/
namespace Podly.WordBoundary
open Brackets (Marks Matched Outermost Place Point)

theorem opening_ne_quote : '\x7b' ≠ '"' := by decide

theorem closing_ne_quote : '\x7d' ≠ '"' := by decide

theorem closing_ne_opening : '\x7d' ≠ '\x7b' := by decide

/-- Braces, outside of double quotes with backslashes for escapes. -/
def braces : Marks Char :=
  ⟨'"','\\','\x7b','\x7d',opening_ne_quote,closing_ne_quote,closing_ne_opening⟩

/-- `text[start : end + 1]`. -/
def slice (text : List Char) (span : ℕ × ℕ) : List Char :=
  (text.drop span.1).take (span.2 + 1 - span.1)

/-- The state of the scanner by that of a scan for brackets. -/
def scanOf (text : List Char) (s : Brackets.Scan) : Scan :=
  ⟨s.point.depth,s.start,decide (s.point.place ≠ .outside),decide (s.point.place = .escaped),
    s.spans.map (slice text)⟩

theorem scanChar_scanOf (text : List Char) (s : Brackets.Scan) (charAt : Char × ℕ) :
    scanChar text (scanOf text s) charAt = scanOf text (braces.scanStep s charAt) := by
  obtain ⟨⟨place,depth⟩,start,spans⟩ := s
  obtain ⟨c,k⟩ := charAt
  cases place with
  | quoted =>
    by_cases hescape : c = '\\'
    · simp [scanChar,scanOf,Marks.scanStep,Marks.next,braces,hescape]
    · by_cases hquote : c = '"' <;>
        simp [scanChar,scanOf,Marks.scanStep,Marks.next,braces,hescape,hquote]
  | escaped => simp [scanChar,scanOf,Marks.scanStep,Marks.next,braces]
  | outside =>
    by_cases hquote : c = '"'
    · simp [scanChar,scanOf,Marks.scanStep,Marks.next,braces,hquote]
    · by_cases hopening : c = '\x7b'
      · by_cases hdepth : depth = 0 <;>
          simp [scanChar,scanOf,Marks.scanStep,Marks.next,braces,hopening,hdepth]
      · by_cases hclosing : c = '\x7d'
        · rcases depth with _ | _ | depth
          · simp [scanChar,scanOf,Marks.scanStep,Marks.next,braces,hclosing]
          · cases start <;> simp [scanChar,scanOf,Marks.scanStep,Marks.next,braces,hclosing,slice]
          · simp [scanChar,scanOf,Marks.scanStep,Marks.next,braces,hclosing]
        · simp [scanChar,scanOf,Marks.scanStep,Marks.next,braces,hquote,hopening,hclosing]

/-- The scan of a text in front of a position. -/
def scanTo (text : List Char) (k : ℕ) : Scan :=
  (text.zipIdx.take k).foldl (scanChar text) ⟨0,none,false,false,[]⟩

theorem scanTo_eq (text : List Char) (k : ℕ) : scanTo text k = scanOf text (braces.scanTo text k) := by
  have hstart : scanOf text ⟨⟨.outside,0⟩,none,[]⟩ = ⟨0,none,false,false,[]⟩ := rfl
  rw [scanTo,Marks.scanTo,← hstart]
  exact List.foldl_hom (scanOf text) (scanChar_scanOf text)

theorem scanTo_length (text : List Char) :
    (scanTo text text.length).objects = extractJsonObjects text := by
  rw [scanTo,List.take_of_length_le (by rw [List.length_zipIdx]),extractJsonObjects]

/-- The objects are the texts between the outermost pairs of braces, one after the other. -/
theorem extractJsonObjects_eq (text : List Char) :
    extractJsonObjects text = (braces.spans text).map (slice text) := by
  rw [← scanTo_length,scanTo_eq]
  rfl

/-! Objects of JSON -/

/-- Where the count of open objects is. -/
def pointOf (scan : ModelOutput.Scan) : Point :=
  ⟨if scan.escape then .escaped else if scan.inString then .quoted else .outside,scan.depth.toNat⟩

theorem next_pointOf {scan : ModelOutput.Scan} (hdepth : 0 ≤ scan.depth)
    (hescape : scan.escape → scan.inString) (c : Char) :
    braces.next (pointOf scan) c = pointOf (scan.next c) := by
  obtain ⟨depth,inString,escape⟩ := scan
  cases escape with
  | true =>
    obtain rfl : inString = true := hescape rfl
    simp [pointOf,ModelOutput.Scan.next,Marks.next]
  | false =>
    cases inString with
    | true =>
      by_cases hescape : c = '\\'
      · simp [pointOf,ModelOutput.Scan.next,Marks.next,braces,hescape]
      · by_cases hquote : c = '"' <;>
          simp [pointOf,ModelOutput.Scan.next,Marks.next,braces,hescape,hquote]
    | false =>
      by_cases hquote : c = '"'
      · simp [pointOf,ModelOutput.Scan.next,Marks.next,braces,hquote]
      · by_cases hopening : c = '\x7b'
        · have hsucc : (depth + 1).toNat = depth.toNat + 1 := Int.toNat_add_nat hdepth 1
          simp [pointOf,ModelOutput.Scan.next,Marks.next,braces,hopening,hsucc]
        · by_cases hclosing : c = '\x7d'
          · simp [pointOf,ModelOutput.Scan.next,Marks.next,braces,hclosing]
          · simp [pointOf,ModelOutput.Scan.next,Marks.next,braces,hquote,hopening,hclosing]

section Objects
variable {S : Type} {R : Json.Reader S} {s t : Json.State S} {xs object : List Char}
  {fields : List (String × Json.Value S)}

theorem inString_of_escaped {mode : Json.Mode S} (h : mode.escaped) : mode.inString := by
  cases mode <;> first | rfl | cases h

/-- What the parser of JSON has open, the scanner has counted. -/
theorem foldl_next_of_run (h : Json.run R s xs = some t) :
    xs.foldl braces.next (pointOf (ModelOutput.scanOf s)) = pointOf (ModelOutput.scanOf t) := by
  induction xs generalizing s with
  | nil => rw [Option.some.inj h,List.foldl_nil]
  | cons c xs ih =>
    rw [Json.run_cons] at h
    obtain ⟨u,hstep,hrest⟩ := Option.bind_eq_some_iff.mp h
    rw [List.foldl_cons,next_pointOf (Int.natCast_nonneg _) inString_of_escaped,
      ModelOutput.next_of_step hstep,ih hrest]

theorem behind_of_run (h : Json.run R Json.start xs = some t) :
    braces.behind xs = pointOf (ModelOutput.scanOf t) := foldl_next_of_run h

/-- Before its last brace an object is open. -/
theorem depth_pos_of_parse (h : Json.parse R object = some (.object fields))
    (hopen : object.head? = some '\x7b') (hclose : object.getLast? = some '\x7d') {k : ℕ}
    (hpos : 0 < k) (hlt : k < object.length) : 0 < (braces.pointAt object k).depth := by
  have hrun := Json.run_of_parse_object h
  rw [← List.take_append_drop k object] at hrun
  obtain ⟨t,htake,hdrop⟩ := Json.exists_of_run_append hrun
  have hne : object.drop k ≠ [] := by simpa using hlt
  have hlast : '\x7d' ∈ object.drop k := by
    refine List.mem_of_getLast? ?_
    rw [List.getLast?_drop,if_neg (by omega),hclose]
  obtain ⟨keys,hkeys⟩ := Json.outerKeys_of_open htake (by rw [List.head?_take,if_neg (by omega),hopen])
  rw [Marks.pointAt,behind_of_run htake]
  refine Nat.pos_of_ne_zero (fun hzero => ?_)
  obtain ⟨fields',rfl⟩ := Json.eq_after_of_openObjects hkeys hzero
  exact absurd ((Json.run_after_nil hdrop).2 _ hlast) (by decide)

theorem outermost_of_parse (h : Json.parse R object = some (.object fields))
    (hopen : object.head? = some '\x7b') (hclose : object.getLast? = some '\x7d') :
    Outermost braces object 0 (object.length - 1) := by
  have hend : braces.behind object = ⟨.outside,0⟩ := behind_of_run (Json.run_of_parse_object h)
  have hfirst : object[0]? = some '\x7b' := by rw [← List.head?_eq_getElem?,hopen]
  have hlast : object[object.length - 1]? = some '\x7d' := by
    rw [← List.getLast?_eq_getElem?,hclose]
  have hpos : 0 < object.length := List.length_pos_of_mem (List.mem_of_getLast? hclose)
  have hback : braces.pointAt object (object.length - 1 + 1) = ⟨.outside,0⟩ := by
    rw [Nat.sub_add_cancel hpos,Brackets.pointAt_length,hend]
  have hlong : 0 < object.length - 1 := by
    refine Nat.pos_of_ne_zero (fun hone => ?_)
    rw [hone,hfirst] at hlast
    exact absurd (Option.some.inj hlast) (by decide)
  -- a brace within a string would leave the text in it
  have hplace : (braces.pointAt object (object.length - 1)).place = .outside := by
    rw [Brackets.pointAt_succ hlast] at hback
    cases hp : (braces.pointAt object (object.length - 1)).place with
    | outside => rfl
    | quoted =>
      have hstays : braces.next (braces.pointAt object (object.length - 1)) '\x7d' =
          braces.pointAt object (object.length - 1) := by
        rw [Marks.next,hp]
        rfl
      rw [hstays] at hback
      rw [hback] at hp
      cases hp
    | escaped =>
      rw [Marks.next,hp] at hback
      cases hback
  refine ⟨⟨hfirst,?_,hlast,hplace,hlong,?_,?_⟩,?_⟩
  · rw [Brackets.pointAt_zero]
  · intro k hk hle
    rw [Brackets.pointAt_zero]
    exact depth_pos_of_parse h hopen hclose hk (by omega)
  · rw [hback,Brackets.pointAt_zero]
  · rw [Brackets.pointAt_zero]

end Objects

/-- The text of an object of JSON, from its first brace to its last. -/
def IsObjectText (object : List Char) : Prop :=
  (∃ (S : Type) (R : Json.Reader S) (fields : List (String × Json.Value S)),
    Json.parse R object = some (.object fields)) ∧
  object.head? = some '\x7b' ∧ object.getLast? = some '\x7d'

/-- Neither quotes nor braces. -/
def IsPlain (text : List Char) : Prop := ∀ c ∈ text, c ≠ '"' ∧ c ≠ '\x7b' ∧ c ≠ '\x7d'

/-- An object is found behind a text without quotes and braces, whatever stands behind it. -/
theorem mem_extractJsonObjects {before object : List Char} (hbefore : IsPlain before)
    (hobject : IsObjectText object) (trailing : List Char) :
    object ∈ extractJsonObjects (before ++ (object ++ trailing)) := by
  obtain ⟨⟨S,R,fields,hparse⟩,hopen,hclose⟩ := hobject
  have hpair := ((outermost_of_parse hparse hopen hclose).append_right trailing).append_left
    (Brackets.behind_of_plain hbefore)
  rw [extractJsonObjects_eq,List.mem_map]
  refine ⟨_,Brackets.mem_spans.mpr hpair,?_⟩
  have hpos : 0 < object.length := List.length_pos_of_mem (List.mem_of_getLast? hclose)
  have hlength : before.length + (object.length - 1) + 1 - (before.length + 0) = object.length := by
    omega
  rw [slice,hlength,Nat.add_zero,List.drop_left,List.take_left]

end Podly.WordBoundary
