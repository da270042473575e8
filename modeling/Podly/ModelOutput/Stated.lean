import Podly.ModelOutput.Clean

/-! The predictions that an object states, with the lists of repeated keys joined: merging the lists
keeps them, and an object that is cut off states the first of them. -/
namespace Podly.ModelOutput
open Json
variable {S F : Type} (L : Library S F)

namespace Library

/-- The segments of all lists of an object. -/
def statedSegments (fields : List (String × Value S)) : Option (List (AdSegmentPrediction F)) :=
  match valuesOf "ad_segments" fields with
  | [] => none
  | values => (values.mapM L.segmentsOf).map List.flatten

/-- The predictions of an object that satisfies the schema, possibly with several lists. -/
def stated (fields : List (String × Value S)) : Option (AdSegmentPredictionList F) := do
  let adSegments ← L.statedSegments fields
  L.withSegments fields adSegments

variable {L} {text : List Char} {v : Value S} {result : AdSegmentPredictionList F}

theorem modelValidateJson_of_parse (h : parse L.reader text = some v)
    (hdepth : depth v ≤ L.recursionLimit) : L.modelValidateJson text = L.validate v := by
  have hfilter : (some v).filter (fun v => depth v ≤ L.recursionLimit) = some v :=
    Option.filter_eq_some_iff.mpr ⟨rfl,decide_eq_true hdepth⟩
  rw [modelValidateJson,h,hfilter]
  rfl

theorem exists_of_modelValidateJson (h : L.modelValidateJson text = some result) :
    ∃ v, parse L.reader text = some v ∧ L.validate v = some result := by
  obtain ⟨v,hparse,hvalidate⟩ := Option.bind_eq_some_iff.mp h
  exact ⟨v,(Option.filter_eq_some_iff.mp hparse).1,hvalidate⟩

end Library

section Fields
variable {key k : String} {v : Value S} {fields more result : List (String × Value S)}

theorem valuesOf_append :
    valuesOf key (fields ++ more) = valuesOf key fields ++ valuesOf key more := by
  rw [valuesOf,List.filter_append,List.map_append]
  rfl

theorem valuesOf_singleton : valuesOf key [(k,v)] = if k = key then [v] else [] := by
  by_cases h : k = key <;> simp [valuesOf,h]

/-- The last field counts. -/
theorem valueOf_concat :
    valueOf key (fields ++ [(k,v)]) = if k = key then some v else valueOf key fields := by
  rw [valueOf,valuesOf_append,valuesOf_singleton]
  split
  · exact List.getLast?_concat
  · rw [List.append_nil]
    rfl

theorem valuesOf_map (f : Value S → Value S) :
    valuesOf key (fields.map (fun field => (field.1,f field.2))) = (valuesOf key fields).map f := by
  rw [valuesOf,valuesOf,List.filter_map,List.map_map,List.map_map]
  rfl

theorem valuesOf_cons (field : String × Value S) :
    valuesOf key (field::fields) =
      if field.1 = key then field.2::valuesOf key fields else valuesOf key fields := by
  by_cases h : field.1 = key <;> simp [valuesOf,h]

/-- Where a key is overwritten, each of its values becomes the new one. -/
theorem valuesOf_overwritten : valuesOf key
    (result.map (fun field => if field.1 = k then (k,v) else field)) =
      if k = key then (valuesOf key result).map (fun _ => v) else valuesOf key result := by
  induction result with
  | nil => split <;> rfl
  | cons field result ih =>
    rw [List.map_cons,valuesOf_cons,valuesOf_cons,ih]
    by_cases hk : k = key
    · subst hk
      by_cases hfield : field.1 = k <;> simp [hfield]
    · by_cases hfield : field.1 = k
      · simp [hfield,hk]
      · simp [hfield,hk]

theorem valueOf_assign_self : valueOf key (assign key v result) = some v := by
  rw [assign]
  split
  · rename_i hmem
    obtain ⟨field,hfield,hkey⟩ := List.mem_map.mp hmem
    have hvalue : field.2 ∈ valuesOf key result :=
      List.mem_map_of_mem (List.mem_filter.mpr ⟨hfield,by simpa using hkey⟩)
    have hne : valuesOf key result ≠ [] := List.ne_nil_of_mem hvalue
    rw [valueOf,valuesOf_overwritten,if_pos rfl,List.getLast?_map,List.getLast?_eq_some_getLast hne]
    rfl
  · rw [valueOf_concat,if_pos rfl]

theorem valueOf_assign_of_ne (h : k ≠ key) : valueOf key (assign k v result) = valueOf key result := by
  rw [assign]
  split
  · rw [valueOf,valuesOf_overwritten,if_neg h]
    rfl
  · rw [valueOf_concat,if_neg h]

/-- An assignment has the last word on its own key. -/
theorem valueOf_assign :
    valueOf key (assign k v result) = if k = key then some v else valueOf key result := by
  split
  · rename_i h
    subst h
    exact valueOf_assign_self
  · rename_i h
    exact valueOf_assign_of_ne h

theorem valueOf_mergePair (h : key ≠ "ad_segments") :
    valueOf key (mergePair result (k,v)) = if k = key then some v else valueOf key result := by
  rw [mergePair]
  split
  · rename_i hk
    have hne : k ≠ key := fun heq => h (heq ▸ hk)
    rw [if_neg hne]
    split <;> rw [valueOf_assign,if_neg hne]
  · exact valueOf_assign

/-- Merging leaves what the other keys say. -/
theorem valueOf_mergePairs (h : key ≠ "ad_segments") (pairs : List (String × Value S)) :
    valueOf key (mergePairs pairs) = valueOf key pairs := by
  induction pairs using List.reverseRecOn with
  | nil => rfl
  | append_singleton pairs pair ih =>
    obtain ⟨k,v⟩ := pair
    have hfold : mergePairs (pairs ++ [(k,v)]) = mergePair (mergePairs pairs) (k,v) :=
      List.foldl_concat ..
    rw [hfold,valueOf_mergePair h,valueOf_concat,ih]

theorem valueOf_mergePair_adSegments (new : List (Value S)) :
    valueOf "ad_segments" (mergePair result ("ad_segments",.array new)) =
      match valueOf "ad_segments" result with
      | some (.array old) => some (.array (old ++ new))
      | _ => some (.array new) := by
  rw [mergePair,if_pos rfl]
  cases valueOf "ad_segments" result with
  | none => exact valueOf_assign_self
  | some old => cases old <;> exact valueOf_assign_self

/-- Merging joins the lists. -/
theorem valueOf_mergePairs_adSegments {lists : List (List (Value S))}
    (pairs : List (String × Value S)) (h : valuesOf "ad_segments" pairs = lists.map .array) :
    valueOf "ad_segments" (mergePairs pairs) =
      if lists = [] then none else some (.array lists.flatten) := by
  induction pairs using List.reverseRecOn generalizing lists with
  | nil =>
    obtain rfl : lists = [] := List.map_eq_nil_iff.mp h.symm
    rfl
  | append_singleton pairs pair ih =>
    obtain ⟨k,v⟩ := pair
    have hfold : mergePairs (pairs ++ [(k,v)]) = mergePair (mergePairs pairs) (k,v) :=
      List.foldl_concat ..
    rw [valuesOf_append,valuesOf_singleton] at h
    rw [hfold]
    by_cases hk : k = "ad_segments"
    · rw [if_pos hk] at h
      obtain ⟨before,last,rfl,hbefore,hlast⟩ := List.append_eq_map_iff.mp h
      obtain ⟨new,rfl,rfl⟩ := List.map_eq_singleton_iff.mp hlast
      subst hk
      rw [valueOf_mergePair_adSegments,ih hbefore.symm,
        if_neg (List.append_ne_nil_of_right_ne_nil _ (List.cons_ne_nil _ _)),List.flatten_concat]
      by_cases hnil : before = []
      · rw [if_pos hnil,hnil]
        rfl
      · rw [if_neg hnil]
    · rw [if_neg hk,List.append_nil] at h
      rw [mergePair,if_neg hk,valueOf_assign_of_ne hk,ih h]

end Fields

section MergeAll

theorem mergeItems_eq_map (items : List (Value S)) : mergeItems items = items.map mergeAll := by
  induction items with
  | nil => rfl
  | cons v items ih => rw [mergeItems,ih,List.map_cons]

theorem mergeFields_eq_map (fields : List (String × Value S)) :
    mergeFields fields = fields.map (fun field => (field.1,mergeAll field.2)) := by
  induction fields with
  | nil => rfl
  | cons field fields ih => rw [mergeFields,ih,List.map_cons]

theorem valueOf_mergeFields (key : String) (fields : List (String × Value S)) :
    valueOf key (mergeFields fields) = (valueOf key fields).map mergeAll := by
  rw [mergeFields_eq_map,valueOf,valuesOf_map,List.getLast?_map]
  rfl

theorem number_mergeAll (v : Value S) : L.number (mergeAll v) = L.number v := by
  cases v <;> rfl

theorem contentTypeOf_map_mergeAll (v : Option (Value S)) :
    L.contentTypeOf (v.map mergeAll) = L.contentTypeOf v := by
  cases v with
  | none => rfl
  | some v => cases v <;> rfl

theorem confidenceOf_map_mergeAll (v : Option (Value S)) :
    L.confidenceOf (v.map mergeAll) = L.confidenceOf v := by
  cases v with
  | none => rfl
  | some v => cases v <;> rfl

/-- What a key other than `ad_segments` says after merging. -/
theorem valueOf_merged {key : String} (h : key ≠ "ad_segments") (fields : List (String × Value S)) :
    valueOf key (mergePairs (mergeFields fields)) = (valueOf key fields).map mergeAll := by
  rw [valueOf_mergePairs h,valueOf_mergeFields]

theorem segmentOf_mergeAll (v : Value S) : L.segmentOf (mergeAll v) = L.segmentOf v := by
  cases v with
  | object fields =>
    have hnumber : ∀ key ≠ "ad_segments",
        (valueOf key (mergePairs (mergeFields fields))).bind L.number =
          (valueOf key fields).bind L.number := by
      intro key hkey
      rw [valueOf_merged hkey,Option.bind_map]
      exact congrArg _ (funext (number_mergeAll L))
    rw [mergeAll,Library.segmentOf,Library.segmentOf,hnumber _ (by decide),hnumber _ (by decide)]
  | _ => rfl

theorem withSegments_merged (fields : List (String × Value S))
    (adSegments : List (AdSegmentPrediction F)) :
    L.withSegments (mergePairs (mergeFields fields)) adSegments =
      L.withSegments fields adSegments := by
  rw [Library.withSegments,Library.withSegments,valueOf_merged (by decide),
    valueOf_merged (by decide),contentTypeOf_map_mergeAll,confidenceOf_map_mergeAll]

/-- Lists that are read one by one can be read joined. -/
theorem exists_lists_of_mapM_segmentsOf {values : List (Value S)}
    {read : List (List (AdSegmentPrediction F))} (h : values.mapM L.segmentsOf = some read) :
    ∃ lists : List (List (Value S)), values = lists.map .array ∧
      lists.flatten.mapM L.segmentOf = some read.flatten := by
  induction values generalizing read with
  | nil =>
    obtain rfl := Option.some.inj h
    exact ⟨[],rfl,rfl⟩
  | cons v values ih =>
    rw [List.mapM_cons] at h
    obtain ⟨first,hfirst,h⟩ := Option.bind_eq_some_iff.mp h
    obtain ⟨rest,hrest,h⟩ := Option.bind_eq_some_iff.mp h
    obtain rfl := Option.some.inj h
    obtain ⟨lists,rfl,hlists⟩ := ih hrest
    cases v with
    | array items =>
      refine ⟨items::lists,rfl,?_⟩
      have hitems : items.mapM L.segmentOf = some first := hfirst
      rw [List.flatten_cons,List.mapM_append,hitems,hlists]
      rfl
    | _ => cases hfirst

/-! Merging nests no deeper -/

theorem mem_of_valueOf {key : String} {fields : List (String × Value S)} {v : Value S}
    (h : valueOf key fields = some v) : ∃ field ∈ fields, field.2 = v := by
  obtain ⟨field,hfield,rfl⟩ := List.mem_map.mp (List.mem_of_getLast? h)
  exact ⟨field,(List.mem_filter.mp hfield).1,rfl⟩

theorem depthFields_assign {key : String} {value : Value S} {result : List (String × Value S)} {n : ℕ}
    (hresult : depthFields result ≤ n) (hvalue : depth value ≤ n) :
    depthFields (assign key value result) ≤ n := by
  rw [depthFields_le] at hresult ⊢
  intro field hfield
  rw [assign] at hfield
  split at hfield
  · obtain ⟨old,hold,rfl⟩ := List.mem_map.mp hfield
    split
    · exact hvalue
    · exact hresult old hold
  · rcases List.mem_append.mp hfield with hfield | hfield
    · exact hresult field hfield
    · obtain rfl := List.mem_singleton.mp hfield
      exact hvalue

theorem depthFields_mergePair {result : List (String × Value S)} {pair : String × Value S} {n : ℕ}
    (hresult : depthFields result ≤ n) (hpair : depth pair.2 ≤ n) :
    depthFields (mergePair result pair) ≤ n := by
  rw [mergePair]
  split
  · split
    · rename_i old new hold hnew
      obtain ⟨field,hfield,hsame⟩ := mem_of_valueOf hold
      have hdepth : depthItems old + 1 ≤ n := by
        have hle := depthFields_le.mp hresult field hfield
        rwa [hsame] at hle
      rw [hnew] at hpair
      change depthItems new + 1 ≤ n at hpair
      refine depthFields_assign hresult ?_
      -- the joined list is as deep as the deeper one of the two
      have hitems : depthItems (old ++ new) ≤ max (depthItems old) (depthItems new) := by
        rw [depthItems_le,List.forall_mem_append]
        exact ⟨depthItems_le.mp (Nat.le_max_left _ _),depthItems_le.mp (Nat.le_max_right _ _)⟩
      change depthItems (old ++ new) + 1 ≤ n
      omega
    · exact depthFields_assign hresult hpair
  · exact depthFields_assign hresult hpair

theorem depthFields_mergePairs (pairs : List (String × Value S)) :
    depthFields (mergePairs pairs) ≤ depthFields pairs := by
  have hfold : ∀ (rest result : List (String × Value S)), depthFields result ≤ depthFields pairs →
      (∀ pair ∈ rest, depth pair.2 ≤ depthFields pairs) →
        depthFields (rest.foldl mergePair result) ≤ depthFields pairs := by
    intro rest
    induction rest with
    | nil => exact fun result hresult _ => hresult
    | cons pair rest ih =>
      intro result hresult hrest
      rw [List.forall_mem_cons] at hrest
      exact ih _ (depthFields_mergePair hresult hrest.1) hrest.2
  exact hfold pairs [] (Nat.zero_le _) (depthFields_le.mp le_rfl)

mutual

theorem depth_mergeAll : (v : Value S) → depth (mergeAll v) ≤ depth v
  | .scalar _ => Nat.le_refl _
  | .text _ => Nat.le_refl _
  | .array items => Nat.succ_le_succ (depthItems_mergeItems items)
  | .object fields =>
    Nat.succ_le_succ ((depthFields_mergePairs _).trans (depthFields_mergeFields fields))

theorem depthItems_mergeItems : (items : List (Value S)) →
    depthItems (mergeItems items) ≤ depthItems items
  | [] => Nat.le_refl _
  | v::items => max_le_max (depth_mergeAll v) (depthItems_mergeItems items)

theorem depthFields_mergeFields : (fields : List (String × Value S)) →
    depthFields (mergeFields fields) ≤ depthFields fields
  | [] => Nat.le_refl _
  | (_,v)::fields => max_le_max (depth_mergeAll v) (depthFields_mergeFields fields)

end

theorem exists_of_withSegments {fields : List (String × Value S)}
    {adSegments : List (AdSegmentPrediction F)} {result : AdSegmentPredictionList F}
    (h : L.withSegments fields adSegments = some result) : result.adSegments = adSegments ∧
      ∀ other, L.withSegments fields other = some { result with adSegments := other } := by
  obtain ⟨contentType,hcontentType,h⟩ := Option.bind_eq_some_iff.mp h
  obtain ⟨confidence,hconfidence,h⟩ := Option.bind_eq_some_iff.mp h
  obtain rfl := Option.some.inj h
  refine ⟨rfl,fun other => ?_⟩
  rw [Library.withSegments,hcontentType,hconfidence]
  rfl

/-- An object that satisfies the schema has a list, and each of its lists is read. -/
theorem exists_read_of_stated {fields : List (String × Value S)} {stated : AdSegmentPredictionList F}
    (h : L.stated fields = some stated) : ∃ read,
      (valuesOf "ad_segments" fields).mapM L.segmentsOf = some read ∧
        valuesOf "ad_segments" fields ≠ [] ∧ L.withSegments fields read.flatten = some stated := by
  obtain ⟨adSegments,hsegments,hrest⟩ := Option.bind_eq_some_iff.mp h
  rw [Library.statedSegments] at hsegments
  split at hsegments
  · cases hsegments
  · rename_i hne
    obtain ⟨read,hread,rfl⟩ := Option.map_eq_some_iff.mp hsegments
    exact ⟨read,hread,hne,hrest⟩

/-- Merging leaves what the object states. -/
theorem validate_mergeAll {fields : List (String × Value S)} {stated : AdSegmentPredictionList F}
    (h : L.stated fields = some stated) : L.validate (mergeAll (.object fields)) = some stated := by
  obtain ⟨read,hread,hne,hrest⟩ := exists_read_of_stated L h
  obtain ⟨lists,hlists,hflat⟩ := exists_lists_of_mapM_segmentsOf L hread
  have hmerged : valuesOf "ad_segments" (mergeFields fields) =
      (lists.map mergeItems).map .array := by
    rw [mergeFields_eq_map,valuesOf_map,hlists,List.map_map,List.map_map]
    rfl
  have hnil : lists.map mergeItems ≠ [] := by
    rintro hnil
    rw [hlists,List.map_eq_nil_iff.mp hnil] at hne
    exact hne rfl
  have hvalue : (valueOf "ad_segments" (mergePairs (mergeFields fields))).bind L.segmentsOf =
      some read.flatten := by
    have hitems : (lists.map mergeItems).flatten = lists.flatten.map mergeAll := by
      rw [List.map_flatten,funext mergeItems_eq_map]
    have hsegment : L.segmentOf ∘ mergeAll = L.segmentOf := funext (segmentOf_mergeAll L)
    rw [valueOf_mergePairs_adSegments _ hmerged,if_neg hnil,hitems,← hflat]
    change (lists.flatten.map mergeAll).mapM L.segmentOf = _
    rw [List.mapM_map,hsegment]
  rw [mergeAll,Library.validate,Library.predictions,hvalue,← hrest]
  exact withSegments_merged L fields _

/-- Lists that state no segments are empty. -/
theorem flatten_eq_nil_iff {values : List (Value S)} {read : List (List (AdSegmentPrediction F))}
    (h : values.mapM L.segmentsOf = some read) : read.flatten = [] ↔ ∀ v ∈ values, v = .array [] := by
  induction values generalizing read with
  | nil =>
    obtain rfl := Option.some.inj h
    exact iff_of_true rfl nofun
  | cons v values ih =>
    rw [List.mapM_cons] at h
    obtain ⟨first,hfirst,h⟩ := Option.bind_eq_some_iff.mp h
    obtain ⟨rest,hrest,h⟩ := Option.bind_eq_some_iff.mp h
    obtain rfl := Option.some.inj h
    have hempty : first = [] ↔ v = .array [] := by
      cases v with
      | array items =>
        have hitems : items.mapM L.segmentOf = some first := hfirst
        cases items with
        | nil =>
          obtain rfl := Option.some.inj hitems
          exact iff_of_true rfl rfl
        | cons item items =>
          rw [List.mapM_cons] at hitems
          obtain ⟨head,-,hitems⟩ := Option.bind_eq_some_iff.mp hitems
          obtain ⟨tail,-,hitems⟩ := Option.bind_eq_some_iff.mp hitems
          rw [← Option.some.inj hitems]
          exact iff_of_false (List.cons_ne_nil _ _) nofun
      | _ => cases hfirst
    rw [List.flatten_cons,List.append_eq_nil_iff,ih hrest,hempty,List.forall_mem_cons]

/-- Without merging the last list counts, which is all of them where the others are empty. -/
theorem exists_predictions {fields : List (String × Value S)} {stated : AdSegmentPredictionList F}
    (h : L.stated fields = some stated) : ∃ last, L.predictions fields = some last ∧
      (last = stated ↔ ∀ v ∈ (valuesOf "ad_segments" fields).dropLast, v = .array []) := by
  obtain ⟨read,hread,hne,hwith⟩ := exists_read_of_stated L h
  obtain ⟨hsegments,hother⟩ := exists_of_withSegments L hwith
  obtain ⟨before,v,hvalues⟩ := (List.eq_nil_or_concat _).resolve_left hne
  rw [hvalues,List.concat_eq_append,List.mapM_append,List.mapM_cons] at hread
  obtain ⟨first,hfirst,hread⟩ := Option.bind_eq_some_iff.mp hread
  obtain ⟨lists,hlists,hread⟩ := Option.bind_eq_some_iff.mp hread
  obtain ⟨last,hlast,hlists⟩ := Option.bind_eq_some_iff.mp hlists
  obtain rfl := Option.some.inj hread
  obtain rfl : [last] = lists := Option.some.inj hlists
  refine ⟨{ stated with adSegments := last },?_,?_⟩
  · have hvalue : valueOf "ad_segments" fields = some v := by
      rw [valueOf,hvalues,List.concat_eq_append,List.getLast?_concat]
    rw [Library.predictions,hvalue,Option.bind_some,hlast]
    exact hother last
  · rw [hvalues,List.concat_eq_append,List.dropLast_concat,← flatten_eq_nil_iff L hfirst]
    obtain ⟨adSegments,contentType,confidence⟩ := stated
    obtain rfl : adSegments = (first ++ [last]).flatten := hsegments
    simp

end MergeAll

section CutOff
variable {fields whole : List (String × Value S)} {v w : Value S}

theorem segmentOf_of_notObject (h : v.NotObject) : L.segmentOf v = none := by
  cases v with
  | object fields => exact absurd rfl (h fields)
  | _ => rfl

/-- A list that is cut off has whole segments only. -/
theorem segmentsOf_isPrefix {found all : List (AdSegmentPrediction F)} (h : CutOff v w)
    (hv : L.segmentsOf v = some found) (hw : L.segmentsOf w = some all) : found <+: all := by
  cases h with
  | same =>
    obtain rfl := Option.some.inj (hv.symm.trans hw)
    exact List.prefix_rfl
  | scalar => cases hv
  | object => cases hv
  | field => cases hv
  | array items more =>
    have hwhole : (items ++ more).mapM L.segmentOf = some all := hw
    have hitems : items.mapM L.segmentOf = some found := hv
    rw [List.mapM_append,hitems] at hwhole
    obtain ⟨_,hfound,hwhole⟩ := Option.bind_eq_some_iff.mp hwhole
    obtain ⟨rest,-,hall⟩ := Option.bind_eq_some_iff.mp hwhole
    obtain rfl := Option.some.inj hfound
    exact ⟨rest,Option.some.inj hall⟩
  | item items more hcut hnot =>
    -- what is left of the last segment is none
    have hitems : (items ++ [_]).mapM L.segmentOf = some found := hv
    rw [List.mapM_append,List.mapM_cons,segmentOf_of_notObject L hnot] at hitems
    obtain ⟨before,-,hitems⟩ := Option.bind_eq_some_iff.mp hitems
    cases hitems

theorem length_valuesOf (key : String) (fields : List (String × Value S)) :
    (valuesOf key fields).length = (fields.map Prod.fst).count key := by
  induction fields with
  | nil => rfl
  | cons field fields ih =>
    rw [valuesOf_cons,List.map_cons,List.count_cons,← ih]
    by_cases h : field.1 = key <;> simp [h]

/-- Of the values of a key only the last one is cut off. -/
theorem exists_last_of_cutOff {key : String} {before : List (Value S)}
    (h : CutOff (.object fields) (.object whole)) (hv : valuesOf key fields = before ++ [v]) :
    ∃ last more, valuesOf key whole = before ++ last::more ∧ CutOff v last := by
  cases h with
  | same => exact ⟨v,[],hv,.same v⟩
  | object fields more =>
    refine ⟨v,valuesOf key more,?_,.same v⟩
    rw [valuesOf_append,hv,List.append_assoc,List.singleton_append]
  | field fields name more hcut =>
    rw [valuesOf_append,valuesOf_singleton] at hv
    rw [valuesOf_append,valuesOf_cons]
    split_ifs at hv ⊢ with hname
    · obtain ⟨rfl,hsingle⟩ := List.append_inj' hv rfl
      obtain rfl := List.singleton_inj.mp hsingle
      exact ⟨_,_,rfl,hcut⟩
    · rw [List.append_nil] at hv
      exact ⟨v,valuesOf key more,by rw [hv,List.append_assoc,List.singleton_append],.same v⟩

/-- An object that is cut off, with empty lists before the last one of it, states the first of the
segments. -/
theorem predictions_isPrefix {predictions stated : AdSegmentPredictionList F}
    (h : CutOff (.object fields) (.object whole))
    (hempty : ∀ v ∈ (valuesOf "ad_segments" whole).take
      ((fields.map Prod.fst).count "ad_segments" - 1), v = .array [])
    (hpredictions : L.predictions fields = some predictions)
    (hstated : L.stated whole = some stated) :
    predictions.adSegments <+: stated.adSegments := by
  obtain ⟨found,hfound,hwith⟩ := Option.bind_eq_some_iff.mp hpredictions
  obtain ⟨lists,hlists,-,hwithAll⟩ := exists_read_of_stated L hstated
  rw [(exists_of_withSegments L hwith).1,(exists_of_withSegments L hwithAll).1]
  obtain ⟨v,hv,hsegments⟩ := Option.bind_eq_some_iff.mp hfound
  obtain ⟨before,hbefore⟩ := List.getLast?_eq_some_iff.mp hv
  obtain ⟨last,more,hvalues,hcut⟩ := exists_last_of_cutOff h hbefore
  have hcount : (fields.map Prod.fst).count "ad_segments" - 1 = before.length := by
    rw [← length_valuesOf,hbefore,List.length_append,List.length_singleton,Nat.add_sub_cancel]
  rw [hvalues,hcount,List.take_left'] at hempty
  · rw [hvalues,List.mapM_append,List.mapM_cons] at hlists
    obtain ⟨first,hfirst,hlists⟩ := Option.bind_eq_some_iff.mp hlists
    obtain ⟨rest,hrest,hlists⟩ := Option.bind_eq_some_iff.mp hlists
    obtain ⟨head,hhead,hrest⟩ := Option.bind_eq_some_iff.mp hrest
    obtain ⟨tail,-,hrest⟩ := Option.bind_eq_some_iff.mp hrest
    rw [← Option.some.inj hlists,← Option.some.inj hrest,List.flatten_append,List.flatten_cons,
      (flatten_eq_nil_iff L hfirst).mpr hempty,List.nil_append]
    exact (segmentsOf_isPrefix L hcut hsegments hhead).trans (List.prefix_append _ _)
  · rfl

end CutOff

end Podly.ModelOutput
