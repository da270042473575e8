import Mathlib.Data.Rat.Defs
import Podly.Json.Dumps
import Podly.ModelOutput.Stated
import Podly.ModelOutput.Truncation

/-! Which replies keep the predictions that their object states. -/
namespace Podly.ModelOutput
open Json Writer

/-- A text of one object that satisfies the schema, nested no deeper than `pydantic` reads, with some
text before it. -/
structure Answer {S F : Type} (L : Library S F) where
  before : List Char
  text : List Char
  fields : List (String × Value S)
  predictions : AdSegmentPredictionList F
  before_no_brace : '\x7b' ∉ before
  head_text : text.head? = some '\x7b'
  getLast_text : text.getLast? = some '\x7d'
  parse_text : parse L.reader text = some (.object fields)
  depth_fields : depth (.object fields) ≤ L.recursionLimit
  stated_fields : L.stated fields = some predictions

/-- Behind the object there is more text, or the object is cut off. -/
inductive Ending (length : ℕ)
  | whole (trailing : List Char)
  | cut (n : Fin length)

section
variable {S F : Type} {L : Library S F}

/-- The keys of the outermost object that are read up to the end of a text. -/
def keysRead (R : Reader S) (text : List Char) : List String :=
  ((run R start text).bind State.outerKeys).getD []

namespace Answer
variable (a : Answer L)

def reply : Ending a.text.length → List Char
  | .whole trailing => a.before ++ (a.text ++ trailing)
  | .cut n => a.before ++ a.text.take n

/-- The predictions of a whole object come back, those of one that is cut off in part or not at all. -/
def Survives (ending : Ending a.text.length) : Prop :=
  match ending with
  | .whole _ => cleanAndParseModelOutput L (a.reply ending) = some a.predictions
  | .cut _ => ∀ result, cleanAndParseModelOutput L (a.reply ending) = some result →
    result.adSegments <+: a.predictions.adSegments

/-- The text of the object without its line breaks. -/
def flat : List Char := a.text.filter (· ≠ '\n')

/-- The lists are merged: the key is spelled out twice, and `json.loads` reads the object. -/
def Merged : Prop := 2 ≤ count adSegmentsKey a.flat ∧ L.loadable (.object a.fields)

/-- Every list but the last one is empty. -/
def OneList : Prop := ∀ v ∈ (valuesOf "ad_segments" a.fields).dropLast, v = .array []

/-- There is no apostrophe in the part of the object that is there; its lists are merged or all but the
last one are empty, and so are those before the last that has begun in an object that is cut off. -/
def Kept : Ending a.text.length → Prop
  | .whole _ => '\x27' ∉ a.text ∧ (a.Merged ∨ a.OneList)
  | .cut n => '\x27' ∉ a.text.take n ∧ ∀ v ∈ (valuesOf "ad_segments" a.fields).take
      ((keysRead L.reader (a.text.take n)).count "ad_segments" - 1), v = .array []

end Answer

/-! Cleaning -/

section Clean
variable {xs : List Char}

theorem strip_eq_rdropWhile (h : xs.head? = some '\x7b') :
    strip xs = xs.rdropWhile Writer.isSpace := by
  obtain ⟨rest,rfl⟩ := List.head?_eq_some_iff.mp h
  rfl

theorem strip_isPrefix (h : xs.head? = some '\x7b') : strip xs <+: xs := by
  rw [strip_eq_rdropWhile h]
  exact List.rdropWhile_prefix _ xs

/-- A text that begins with a brace still does where less of it is there. -/
theorem head?_of_isPrefix {before : List Char} (h : xs.head? = some '\x7b') (hbefore : before <+: xs)
    (hne : before ≠ []) : before.head? = some '\x7b' := by
  obtain ⟨rest,rfl⟩ := hbefore
  rwa [List.head?_append_of_ne_nil before hne] at h

theorem strip_ne_nil (h : xs.head? = some '\x7b') : strip xs ≠ [] := by
  rw [strip_eq_rdropWhile h,Ne,List.rdropWhile_eq_nil_iff]
  intro hspaces
  exact absurd (hspaces _ (List.mem_of_head? h)) (by decide)

theorem strip_eq_self (h : xs.head? = some '\x7b') (hlast : xs.getLast? = some '\x7d') :
    strip xs = xs := by
  rw [strip_eq_rdropWhile h]
  obtain ⟨before,rfl⟩ := List.getLast?_eq_some_iff.mp hlast
  exact List.rdropWhile_concat_neg _ _ _ (by decide)

theorem head?_filter (h : xs.head? = some '\x7b') :
    (xs.filter (· ≠ '\n')).head? = some '\x7b' := by
  obtain ⟨rest,rfl⟩ := List.head?_eq_some_iff.mp h
  rfl

theorem getLast?_filter (h : xs.getLast? = some '\x7d') :
    (xs.filter (· ≠ '\n')).getLast? = some '\x7d' := by
  obtain ⟨before,rfl⟩ := List.getLast?_eq_some_iff.mp h
  rw [List.filter_append]
  exact List.getLast?_concat

/-- Without apostrophes cleaning drops the line breaks and the spaces at the end. -/
theorem clean_eq (h : '\x27' ∉ truncateAfterBalancedRoot xs) :
    clean xs = strip ((truncateAfterBalancedRoot xs).filter (· ≠ '\n')) := by
  have hmap : (truncateAfterBalancedRoot xs).map (fun c => if c = '\x27' then '"' else c) =
      truncateAfterBalancedRoot xs := by
    refine (List.map_congr_left fun c hc => ?_).trans (List.map_id _)
    exact if_neg (ne_of_mem_of_not_mem hc h)
  rw [clean,hmap]

end Clean

/-- Before the first brace nothing is read. -/
theorem cleanAndParseModelOutput_append {before xs : List Char} (hbefore : '\x7b' ∉ before)
    (hopen : xs.head? = some '\x7b') : cleanAndParseModelOutput L (before ++ xs) =
      (L.modelValidateJson (mergeDuplicateAdSegments L (clean xs)) <|>
        L.modelValidateJson (attemptJsonRepair (mergeDuplicateAdSegments L (clean xs)))) := by
  obtain ⟨rest,rfl⟩ := List.head?_eq_some_iff.mp hopen
  have hcount : (before ++ '\x7b'::rest).count '\x7b' ≥ 1 :=
    List.count_pos_iff.mpr (List.mem_append_right _ List.mem_cons_self)
  have hdrop : (before ++ '\x7b'::rest).dropWhile (· ≠ '\x7b') = '\x7b'::rest := by
    refine (List.dropWhile_append_of_pos fun c hc => ?_).trans rfl
    simpa using ne_of_mem_of_not_mem hc hbefore
  rw [cleanAndParseModelOutput,if_pos hcount,hdrop]

/-- Between tokens a line break is a space. -/
theorem isSpace_of_break {c : Char} (h : decide (c = '\n')) : Json.isSpace c ∧ isControl c := by
  obtain rfl := of_decide_eq_true h
  exact ⟨by decide,by decide⟩

theorem filter_break (xs : List Char) :
    xs.filter (· ≠ '\n') = xs.filter (fun c => !decide (c = '\n')) :=
  List.filter_congr fun _ _ => decide_not

/-! Whole objects -/

section Whole
variable (a : Answer L)

/-- Between the tokens line breaks say nothing. -/
theorem Answer.parse_flat : parse L.reader a.flat = some (.object a.fields) := by
  rw [Answer.flat,filter_break]
  exact parse_filter (fun _ => isSpace_of_break) a.parse_text (fun _ => nofun)

/-- A whole object without apostrophes is read without its line breaks. -/
theorem Answer.clean_whole (h : '\x27' ∉ a.text) (trailing : List Char) :
    clean (a.text ++ trailing) = a.flat := by
  have htruncated := truncateAfterBalancedRoot_append a.parse_text a.head_text a.getLast_text trailing
  rw [clean_eq (by rwa [htruncated]),htruncated]
  exact strip_eq_self (head?_filter a.head_text) (getLast?_filter a.getLast_text)

/-- Lists that are merged are written as one, which is read. -/
theorem Answer.modelValidateJson_merged (h : a.Merged) :
    L.modelValidateJson (mergeDuplicateAdSegments L a.flat) = some a.predictions := by
  obtain ⟨hcount,hloadable⟩ := h
  have hloads : L.loads a.flat = some (.object a.fields) := by
    rw [Library.loads,a.parse_flat]
    exact if_pos hloadable
  rw [mergeDuplicateAdSegments,if_neg (by omega),hloads]
  change L.modelValidateJson (dumps L.printer (mergeAll (.object a.fields))) = _
  have hdepth := (depth_mergeAll (.object a.fields)).trans a.depth_fields
  rw [mergeAll] at hdepth ⊢
  rw [Library.modelValidateJson_of_parse (parse_dumps _ _) hdepth]
  exact validate_mergeAll L a.stated_fields

theorem Answer.mergeDuplicateAdSegments_of_not_merged (h : ¬a.Merged) :
    mergeDuplicateAdSegments L a.flat = a.flat := by
  rw [mergeDuplicateAdSegments]
  split
  · rfl
  · rename_i hcount
    have hloads : L.loads a.flat = none := by
      rw [Library.loads,a.parse_flat]
      exact if_neg fun hloadable => h ⟨by omega,hloadable⟩
    rw [hloads]

/-- Exactly the objects without apostrophes survive whose lists are merged or but one empty. -/
theorem Answer.survives_whole_iff (h : '\x27' ∉ a.text) (trailing : List Char) :
    a.Survives (.whole trailing) ↔ a.Merged ∨ a.OneList := by
  obtain ⟨last,hlast,hiff⟩ := exists_predictions L a.stated_fields
  have hopen : (a.text ++ trailing).head? = some '\x7b' := by
    rw [List.head?_append,a.head_text]
    rfl
  have hreply : cleanAndParseModelOutput L (a.reply (.whole trailing)) =
      (L.modelValidateJson (mergeDuplicateAdSegments L a.flat) <|>
        L.modelValidateJson (attemptJsonRepair (mergeDuplicateAdSegments L a.flat))) := by
    rw [← a.clean_whole h trailing]
    exact cleanAndParseModelOutput_append a.before_no_brace hopen
  change cleanAndParseModelOutput L (a.reply (.whole trailing)) = some a.predictions ↔ _
  rw [hreply]
  by_cases hmerged : a.Merged
  · rw [a.modelValidateJson_merged hmerged]
    exact iff_of_true rfl (.inl hmerged)
  · have hread : L.modelValidateJson a.flat = some last := by
      rw [Library.modelValidateJson_of_parse a.parse_flat a.depth_fields]
      exact hlast
    rw [a.mergeDuplicateAdSegments_of_not_merged hmerged,hread]
    change some last = some a.predictions ↔ _
    rw [Option.some_inj,hiff,or_iff_right hmerged]
    rfl

end Whole

/-! Objects that are cut off -/

section Cut
variable (a : Answer L) {xs : List Char}

/-- Without its line breaks a text has the same outermost keys, and a part of it has the first ones. -/
theorem keysRead_isPrefix {R : Reader S} {fields : List (String × Value S)} {text before : List Char}
    (h : parse R text = some (.object fields)) (hcut : xs <+: text)
    (hopen : before.head? = some '\x7b') (hbefore : before <+: xs.filter (· ≠ '\n')) {s : State S}
    (hs : run R start before = some s) : ∃ keys, s.outerKeys = some keys ∧ keys <+: keysRead R xs := by
  obtain ⟨rest,rfl⟩ := hcut
  obtain ⟨t,ht,-⟩ := exists_of_run_append (run_of_parse_object h)
  obtain ⟨t',ht',hbehind⟩ := Behind.run_filter (fun _ => isSpace_of_break) (.inl rfl) ht
  obtain ⟨more,hmore⟩ := hbefore
  rw [← filter_break,← hmore] at ht'
  obtain ⟨s',hs',hrest⟩ := exists_of_run_append ht'
  obtain rfl := Option.some.inj (hs.symm.trans hs')
  obtain ⟨keys,hkeys⟩ := outerKeys_of_open hs hopen
  obtain ⟨added,hadded⟩ := outerKeys_of_run hrest hkeys
  rw [hbehind.outerKeys] at hadded
  refine ⟨keys,hkeys,added,?_⟩
  rw [keysRead,ht,Option.bind_some,hadded]
  rfl

/-- What the repair makes of a text that is cut off states the first of the segments. -/
theorem prefix_of_closed {before rest : List Char} {brackets braces : ℕ}
    {fields : List (String × Value S)} {stated result : AdSegmentPredictionList F}
    (h : parse L.reader (before ++ rest) = some (.object fields))
    (hkeys : ∀ s, run L.reader start before = some s → ∃ keys, s.outerKeys = some keys ∧
      ∀ v ∈ (valuesOf "ad_segments" fields).take (keys.count "ad_segments" - 1), v = .array [])
    (hstated : L.stated fields = some stated)
    (hresult : L.modelValidateJson (before ++ closers brackets braces) = some result) :
    result.adSegments <+: stated.adSegments := by
  obtain ⟨v,hparse,hvalidate⟩ := Library.exists_of_modelValidateJson hresult
  cases v with
  | object cut =>
    obtain ⟨s,hs,hclosed⟩ := exists_of_run_append (run_of_parse_object hparse)
    obtain ⟨s',hs',hrest⟩ := exists_of_run_append (run_of_parse_object h)
    obtain rfl := Option.some.inj (hs.symm.trans hs')
    have hfits : State.Fits ⟨.after (.object fields),[]⟩ (.object fields) := rfl
    have hcut : CutOff (.object cut) (.object fields) := cutOff_of_closed hclosed (hfits.of_run hrest)
    obtain ⟨keys,houter,hempty⟩ := hkeys s hs
    have hclosedKeys := outerKeys_of_run_of_no_quote (fun c hc => by
      rcases mem_closers hc with rfl | rfl <;> decide) hclosed houter
    obtain rfl := Option.some.inj hclosedKeys
    exact predictions_isPrefix L hcut hempty hvalidate hstated
  | _ => cases hvalidate

theorem mergeDuplicateAdSegments_of_parse (h : parse L.reader xs = none) :
    mergeDuplicateAdSegments L xs = xs := by
  have hloads : L.loads xs = none := by
    rw [Library.loads,h]
    rfl
  rw [mergeDuplicateAdSegments,hloads]
  exact ite_self _

section
variable {a} {n : Fin a.text.length}

theorem Answer.head_cut (hn : n.val ≠ 0) : (a.text.take n).head? = some '\x7b' := by
  refine head?_of_isPrefix a.head_text (List.take_prefix ..) ?_
  intro hnil
  rcases List.take_eq_nil_iff.mp hnil with hzero | hempty
  · exact hn hzero
  · have hlength := List.length_eq_zero_iff.mpr hempty
    omega

theorem Answer.clean_cut (h : '\x27' ∉ a.text.take n) :
    clean (a.text.take n) = strip ((a.text.take n).filter (· ≠ '\n')) := by
  have hne : a.text.take n ≠ a.text := by
    intro heq
    have hlength := congrArg List.length heq
    rw [List.length_take] at hlength
    omega
  have htruncated := truncateAfterBalancedRoot_of_cut a.parse_text a.head_text a.getLast_text
    (List.take_prefix ..) hne
  rw [clean_eq (by rwa [htruncated]),htruncated]

/-- What is cut off holds the last brace. -/
theorem Answer.mem_drop : '\x7d' ∈ (a.text.drop n).filter (· ≠ '\n') := by
  have hlast : (a.text.drop n).getLast? = some '\x7d' := by
    rw [List.getLast?_drop,if_neg (by omega),a.getLast_text]
  exact List.mem_filter.mpr ⟨List.mem_of_getLast? hlast,by decide⟩

theorem Answer.exists_flat (hn : n.val ≠ 0) :
    ∃ rest, strip ((a.text.take n).filter (· ≠ '\n')) ++ rest = a.flat ∧ '\x7d' ∈ rest := by
  obtain ⟨more,hmore⟩ := strip_isPrefix (head?_filter (Answer.head_cut hn))
  refine ⟨more ++ (a.text.drop n).filter (· ≠ '\n'),?_,List.mem_append_right _ Answer.mem_drop⟩
  rw [← List.append_assoc,hmore,← List.filter_append,List.take_append_drop]
  rfl

end

/-- An object that is cut off without apostrophes in its first list that is not empty states the first
segments. -/
theorem Answer.survives_cut (n : Fin a.text.length) (h : '\x27' ∉ a.text.take n)
    (hempty : ∀ v ∈ (valuesOf "ad_segments" a.fields).take
      ((keysRead L.reader (a.text.take n)).count "ad_segments" - 1), v = .array []) :
    a.Survives (.cut n) := by
  intro result hresult
  by_cases hn : n.val = 0
  · -- nothing of the object is there
    have hreply : a.reply (.cut n) = a.before := by
      rw [Answer.reply,hn,List.take_zero,List.append_nil]
    have hbrace : ¬a.before.count '\x7b' ≥ 1 := by
      rw [List.count_eq_zero_of_not_mem a.before_no_brace]
      decide
    rw [hreply,cleanAndParseModelOutput,if_neg hbrace] at hresult
    cases hresult
  have hopen := head?_filter (Answer.head_cut hn)
  obtain ⟨rest,hrest,hclose⟩ := Answer.exists_flat hn
  have hflat := a.parse_flat
  rw [← hrest] at hflat
  have hread := cleanAndParseModelOutput_append (L := L) a.before_no_brace (Answer.head_cut hn)
  rw [Answer.clean_cut h] at hread
  set cleaned := strip ((a.text.take n).filter (· ≠ '\n'))
  have hcleaned : cleaned <+: (a.text.take n).filter (· ≠ '\n') := strip_isPrefix hopen
  have hparse : parse L.reader cleaned = none :=
    parse_eq_none_of_cut hflat (head?_of_isPrefix hopen hcleaned (strip_ne_nil hopen)) hclose
  have hfirst : L.modelValidateJson cleaned = none := by
    rw [Library.modelValidateJson,hparse]
    rfl
  obtain ⟨before,brackets,braces,hbefore,hrepaired⟩ := exists_attemptJsonRepair cleaned
  rw [Answer.reply,hread,mergeDuplicateAdSegments_of_parse hparse,hfirst,hrepaired] at hresult
  change L.modelValidateJson (before ++ closers brackets braces) = some result at hresult
  have hne : before ≠ [] := by
    rintro rfl
    rw [List.nil_append,Library.modelValidateJson,parse_closers] at hresult
    cases hresult
  have hhead := head?_of_isPrefix hopen (hbefore.trans hcleaned) hne
  have hfiltered := hbefore.trans hcleaned
  obtain ⟨more,hmore⟩ := hbefore
  rw [← hmore,List.append_assoc] at hflat
  refine prefix_of_closed hflat (fun s hs => ?_) a.stated_fields hresult
  obtain ⟨keys,hkeys,hbegins⟩ :=
    keysRead_isPrefix a.parse_text (List.take_prefix ..) hhead hfiltered hs
  have hle := hbegins.sublist.count_le "ad_segments"
  exact ⟨keys,hkeys,fun v hv =>
    hempty v ((List.take_prefix_take_left (by omega)).subset hv)⟩

end Cut

/-- The replies that are kept survive, and of the whole objects without apostrophes no others. -/
theorem Answer.survives_of_kept (a : Answer L) :
    (∀ ending, a.Kept ending → a.Survives ending) ∧ ('\x27' ∉ a.text → ∀ trailing,
      a.Survives (.whole trailing) → a.Kept (.whole trailing)) := by
  constructor
  · intro ending h
    cases ending with
    | whole trailing => exact (a.survives_whole_iff h.1 trailing).mpr h.2
    | cut n => exact a.survives_cut n h.1 h.2
  · intro h trailing hsurvives
    exact ⟨h,(a.survives_whole_iff h trailing).mp hsurvives⟩

/-- What the text of one object states. -/
def Library.statedBy (L : Library S F) (text : List Char) : Option (AdSegmentPredictionList F) :=
  ((parse L.reader text).filter (fun v => depth v ≤ L.recursionLimit)).bind fun v =>
    match v with
    | .object fields => L.stated fields
    | _ => none

theorem Answer.exists_of_text {text : List Char} {predictions : AdSegmentPredictionList F}
    (hopen : text.head? = some '\x7b') (hclose : text.getLast? = some '\x7d')
    (hstated : L.statedBy text = some predictions) :
    ∃ a : Answer L, a.before = [] ∧ a.text = text ∧ a.predictions = predictions := by
  obtain ⟨v,hparse,hv⟩ := Option.bind_eq_some_iff.mp hstated
  cases v with
  | object fields =>
    obtain ⟨hparse,hdepth⟩ := Option.filter_eq_some_iff.mp hparse
    exact ⟨⟨[],text,fields,predictions,List.not_mem_nil,hopen,hclose,hparse,of_decide_eq_true hdepth,
      hv⟩,rfl,rfl,rfl⟩
  | _ => cases hv

end

/-! Two replies -/

/-- A decimal number without a sign or an exponent. -/
def decimal (token : List Char) : Option ℚ :=
  let value (digits : List Char) : ℕ := digits.foldl (fun n c => 10 * n + (c.toNat - 48)) 0
  let whole := token.takeWhile Char.isDigit
  match token.dropWhile Char.isDigit with
  | [] => some (value whole)
  | '.'::places =>
    if places.all Char.isDigit then some (value (whole ++ places) / 10 ^ places.length) else none
  | _ => none

def decimals : Library Plain.Token ℚ where
  reader := Plain.reader
  printer := Plain.printer
  float token := decimal token.val
  floatOfText s := decimal s.toList
  isNull token := token.val = "null".toList
  loadable _ := true
  recursionLimit := 200

def twoLists : List Char :=
  ("\x7b\"ad_segments\":[\x7b\"segment_offset\":1,\"confidence\":0.9\x7d]," ++
    "\"ad_segments\":[\x7b\"segment_offset\":2,\"confidence\":0.8\x7d]\x7d").toList

theorem survives_twoLists : ∃ a : Answer decimals, a.text = twoLists ∧
    cleanAndParseModelOutput decimals (a.reply (.whole ['!'])) =
      some ⟨[⟨1,9/10⟩,⟨2,4/5⟩],none,none⟩ := by
  obtain ⟨a,-,htext,hpredictions⟩ := Answer.exists_of_text
    (by decide +kernel) (by decide +kernel)
    (by decide +kernel : decimals.statedBy twoLists = some ⟨[⟨1,9/10⟩,⟨2,4/5⟩],none,none⟩)
  have hkept : a.Kept (.whole ['!']) := by
    refine ⟨?_,.inl ⟨?_,rfl⟩⟩
    · rw [htext]
      decide +kernel
    · rw [Answer.flat,htext]
      decide +kernel
  refine ⟨a,htext,?_⟩
  rw [← hpredictions]
  exact a.survives_of_kept.1 _ hkept

def withApostrophe : List Char :=
  ("\x7b\"ad_segments\":[\x7b\"segment_offset\":1,\"confidence\":0.9\x7d]," ++
    "\"note\":\"it\x27s\"\x7d").toList

/-- The quote that the apostrophe becomes ends the string, and the object is no longer read. -/
theorem not_survives_withApostrophe : ¬∀ (a : Answer decimals) ending, a.Survives ending := by
  intro hall
  obtain ⟨a,hbefore,htext,-⟩ := Answer.exists_of_text
    (by decide +kernel) (by decide +kernel)
    (by decide +kernel : decimals.statedBy withApostrophe = some ⟨[⟨1,9/10⟩],none,none⟩)
  have hread : cleanAndParseModelOutput decimals (a.reply (.whole [])) = none := by
    rw [Answer.reply,hbefore,htext]
    decide +kernel
  have hsurvives := hall a (.whole [])
  rw [Answer.Survives,hread] at hsurvives
  cases hsurvives

end Podly.ModelOutput
