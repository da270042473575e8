import Podly.Classifier.Coverage

/-! The overlap that is carried to the next chunk: when it is the end of the chunk, in order. -/
namespace Podly.Classifier

/-- Fifteen seconds before the end of a chunk. -/
def tailCutoff (chunk : List TranscriptSegment) : ℚ :=
  (chunk.getLast?.map (fun last => last.endTime.getD last.startTime - 15)).getD 0

/-- The segment that is heard at the cutoff: the last one to start by then. -/
def HeardAtCutoff (chunk : List TranscriptSegment) (i : ℕ) : Prop :=
  (∃ s, chunk[i]? = some s ∧ s.startTime ≤ tailCutoff chunk) ∧
    ∀ s ∈ chunk.drop (i + 1), tailCutoff chunk < s.startTime

/-- What is carried over is the end of the chunk, as far back as it should reach and the cap
allows, and continues to the segments after the chunk. -/
structure CarriesEnd (chunk identified : List TranscriptSegment) (cap : ℤ)
    (carried : List TranscriptSegment) : Prop where
  suffix : carried <:+ chunk
  length_le : (carried.length : ℤ) ≤ cap
  last : carried.getLast? = chunk.getLast?
  reachesIdentified : ∀ i, chunk.findIdx? (fun s => s.id ∈ identified.map TranscriptSegment.id) =
    some i → ((chunk.length - i : ℕ) : ℤ) ≤ cap → chunk.drop i <:+ carried
  reachesCutoff : ∀ i, HeardAtCutoff chunk i → ((chunk.length - i : ℕ) : ℤ) ≤ cap →
    chunk.drop i <:+ carried
  next : ∀ new, ((chunk ++ new).map TranscriptSegment.id).Nodup →
    (chunk ++ new).Pairwise (fun a b => a.sequenceNum < b.sequenceNum) →
    (combineOverlapSegments carried new).Pairwise (fun a b => a.sequenceNum < b.sequenceNum)

/-- The later half of a chunk, one segment at least. -/
def baseTailCount (chunk : List TranscriptSegment) : ℕ := max 1 ((chunk.length + 1) / 2)

/-- With identified segments, the last fifteen seconds reach back as far as the half and the first
identified segment do; without, the half reaches back as far as they do. -/
structure TailsNested (chunk identified : List TranscriptSegment) (cap : ℤ) : Prop where
  half : identified ≠ [] →
    ∀ s ∈ chunk.drop (chunk.length - baseTailCount chunk + 1), tailCutoff chunk < s.startTime
  fromFirst : ∀ i, chunk.findIdx? (fun s => s.id ∈ identified.map TranscriptSegment.id) =
    some i → ∀ s ∈ chunk.drop (i + 1), tailCutoff chunk < s.startTime
  cutoff : identified = [] → ∀ i, HeardAtCutoff chunk i → ((chunk.length - i : ℕ) : ℤ) ≤ cap →
    chunk.length - i ≤ baseTailCount chunk

section
variable {chunk identified xs ys : List TranscriptSegment} {cap : ℤ}

/-- The segments of a second list that the first does not have follow it. -/
theorem foldl_addUnseen_filter {combined : List TranscriptSegment}
    (h : (ys.map TranscriptSegment.id).Nodup) : ys.foldl addUnseen combined =
      combined ++ ys.filter (fun s => s.id ∉ combined.map TranscriptSegment.id) := by
  induction ys generalizing combined with
  | nil => simp
  | cons y ys ih =>
    rw [List.map_cons,List.nodup_cons] at h
    rw [List.foldl_cons,ih h.2]
    by_cases hy : y.id ∈ combined.map TranscriptSegment.id
    · rw [addUnseen,if_pos hy,List.filter_cons_of_neg (by simpa using hy)]
    · have hrest : ys.filter (fun s => s.id ∉ (combined ++ [y]).map TranscriptSegment.id) =
          ys.filter (fun s => s.id ∉ combined.map TranscriptSegment.id) := by
        apply List.filter_congr
        intro s hs
        have hne : s.id ≠ y.id := fun he => h.1 (he ▸ List.mem_map_of_mem hs)
        simp [hne]
      rw [addUnseen,if_neg hy,hrest,List.filter_cons_of_pos (by simpa using hy),
        List.append_assoc,List.singleton_append]

theorem combine_eq_filter (hxs : (xs.map TranscriptSegment.id).Nodup)
    (hys : (ys.map TranscriptSegment.id).Nodup) : combineOverlapSegments xs ys =
      xs ++ ys.filter (fun s => s.id ∉ xs.map TranscriptSegment.id) := by
  have hnil : xs.foldl addUnseen [] = [] ++ xs := foldl_addUnseen hxs
  rw [combineOverlapSegments,hnil,List.nil_append,foldl_addUnseen_filter hys]

theorem takeThrough_eq_take (p : TranscriptSegment → Bool) (xs : List TranscriptSegment) :
    takeThrough p xs = xs.take (xs.findIdx p + 1) := by
  induction xs with
  | nil => rfl
  | cons x xs ih =>
    rw [takeThrough,List.findIdx_cons]
    cases hp : p x with
    | true => simp
    | false => simp [ih]

/-- The last fifteen seconds are an end of the chunk. -/
theorem segmentsCoveringTail_eq (chunk : List TranscriptSegment) :
    segmentsCoveringTail chunk 15 = chunk.drop (chunk.length -
      (chunk.reverse.findIdx (fun s => s.startTime ≤ tailCutoff chunk) + 1)) := by
  unfold segmentsCoveringTail tailCutoff
  cases hlast : chunk.getLast? with
  | none =>
    rw [List.getLast?_eq_none_iff.mp hlast]
    rfl
  | some last =>
    simp only [Option.map_some,Option.getD_some]
    rw [takeThrough_eq_take,List.reverse_take,List.reverse_reverse,List.length_reverse]

/-- A later end of a chunk lies in an earlier one, and only there. -/
theorem drop_subset_drop_iff (h : (chunk.map TranscriptSegment.id).Nodup) {i k : ℕ}
    (hi : i < chunk.length) : chunk.drop i ⊆ chunk.drop k ↔ k ≤ i := by
  constructor
  · intro hsub
    by_contra hlt
    have hmem : chunk[i] ∈ chunk.drop k := hsub (by
      rw [List.drop_eq_getElem_cons hi]
      exact List.mem_cons_self)
    have hsplit : ((chunk.take k ++ chunk.drop k).map TranscriptSegment.id).Nodup := by
      rwa [List.take_append_drop]
    rw [List.map_append,List.nodup_append] at hsplit
    have htake : chunk[i] ∈ chunk.take k := List.mem_take_iff_getElem.mpr
      ⟨i,by omega,rfl⟩
    exact hsplit.2.2 _ (List.mem_map_of_mem htake) _ (List.mem_map_of_mem hmem) rfl
  · intro hle
    exact (List.drop_suffix_drop_left chunk hle).subset

/-- The last fifteen seconds hold an end of the chunk exactly when they hold the starts of all its
segments but the first. -/
theorem drop_subset_tail_iff (h : (chunk.map TranscriptSegment.id).Nodup) {i : ℕ}
    (hi : i < chunk.length) : chunk.drop i ⊆ segmentsCoveringTail chunk 15 ↔
      ∀ s ∈ chunk.drop (i + 1), tailCutoff chunk < s.startTime := by
  rw [segmentsCoveringTail_eq,drop_subset_drop_iff h hi]
  have hdrop : chunk.drop (i + 1) = (chunk.reverse.take (chunk.length - (i + 1))).reverse := by
    rw [List.reverse_take,List.reverse_reverse,List.length_reverse]
    congr 1
    omega
  have hlt : (∀ s ∈ chunk.drop (i + 1), tailCutoff chunk < s.startTime) ↔
      ∀ s ∈ chunk.reverse.take (chunk.length - (i + 1)), ¬s.startTime ≤ tailCutoff chunk := by
    simp only [hdrop,List.mem_reverse,not_le]
  rw [hlt]
  constructor
  · intro hle s hs
    obtain ⟨j,hj,rfl⟩ := List.mem_take_iff_getElem.mp hs
    have hfind : j < chunk.reverse.findIdx (fun s => s.startTime ≤ tailCutoff chunk) := by
      omega
    simpa using List.not_of_lt_findIdx hfind
  · intro hall
    by_contra hgt
    have hfind : chunk.reverse.findIdx (fun s => s.startTime ≤ tailCutoff chunk) <
        chunk.length - (i + 1) := by omega
    have hlength : chunk.reverse.findIdx (fun s => s.startTime ≤ tailCutoff chunk) <
        chunk.reverse.length := by
      rw [List.length_reverse]
      omega
    have hmem : chunk.reverse[chunk.reverse.findIdx (fun s => s.startTime ≤ tailCutoff chunk)] ∈
        chunk.reverse.take (chunk.length - (i + 1)) :=
      List.mem_take_iff_getElem.mpr ⟨_,by omega,rfl⟩
    exact hall _ hmem (of_decide_eq_true (List.findIdx_getElem (w := hlength)))

/-- The segments that the candidates are taken from, besides the last fifteen seconds. -/
def markedEnd (chunk identified : List TranscriptSegment) : List TranscriptSegment :=
  let baseTail := chunk.drop (chunk.length - baseTailCount chunk)
  match chunk.findIdx? (fun s => s.id ∈ identified.map TranscriptSegment.id) with
  | some earliest => combineOverlapSegments (chunk.drop earliest) baseTail
  | none => baseTail

/-- The marked segments that the last fifteen seconds do not hold. -/
def beyondTail (chunk identified : List TranscriptSegment) : List TranscriptSegment :=
  (markedEnd chunk identified).filter
    (fun s => s.id ∉ (segmentsCoveringTail chunk 15).map TranscriptSegment.id)

theorem computeNextOverlapSegments_eq (hcap : 1 ≤ cap) (hchunk : chunk ≠ []) :
    computeNextOverlapSegments chunk identified cap = applyOverlapCap cap
      (if identified = [] then chunk.drop (chunk.length - baseTailCount chunk)
      else combineOverlapSegments (segmentsCoveringTail chunk 15) (markedEnd chunk identified)) := by
  rw [computeNextOverlapSegments,if_neg (by simp [hchunk]; omega)]
  rfl

theorem nodup_drop (h : (chunk.map TranscriptSegment.id).Nodup) (k : ℕ) :
    ((chunk.drop k).map TranscriptSegment.id).Nodup :=
  h.sublist ((List.drop_sublist k chunk).map _)

theorem nodup_markedEnd (h : (chunk.map TranscriptSegment.id).Nodup) :
    ((markedEnd chunk identified).map TranscriptSegment.id).Nodup := by
  unfold markedEnd
  split
  · exact nodup_combine
  · exact nodup_drop h _

theorem mem_of_mem_markedEnd {s : TranscriptSegment} (hs : s ∈ markedEnd chunk identified) :
    s ∈ chunk := by
  unfold markedEnd at hs
  split at hs
  · exact (mem_combine hs).elim List.mem_of_mem_drop List.mem_of_mem_drop
  · exact List.mem_of_mem_drop hs

/-- The last fifteen seconds hold the marked end exactly when the tails are nested. -/
theorem markedEnd_subset_iff (h : (chunk.map TranscriptSegment.id).Nodup) (hchunk : chunk ≠ []) :
    markedEnd chunk identified ⊆ segmentsCoveringTail chunk 15 ↔
      (∀ s ∈ chunk.drop (chunk.length - baseTailCount chunk + 1),
        tailCutoff chunk < s.startTime) ∧
      ∀ i, chunk.findIdx? (fun s => s.id ∈ identified.map TranscriptSegment.id) = some i →
        ∀ s ∈ chunk.drop (i + 1), tailCutoff chunk < s.startTime := by
  have hpos := List.length_pos_iff.mpr hchunk
  have hbase : chunk.length - baseTailCount chunk < chunk.length := by
    unfold baseTailCount
    omega
  rw [← drop_subset_tail_iff h hbase]
  unfold markedEnd
  cases hfind : chunk.findIdx? (fun s => s.id ∈ identified.map TranscriptSegment.id) with
  | none => simp
  | some earliest =>
    have hearliest : earliest < chunk.length := (List.findIdx?_eq_some_iff_findIdx_eq.mp hfind).1
    have hmem : combineOverlapSegments (chunk.drop earliest)
          (chunk.drop (chunk.length - baseTailCount chunk)) ⊆ segmentsCoveringTail chunk 15 ↔
        chunk.drop earliest ⊆ segmentsCoveringTail chunk 15 ∧
          chunk.drop (chunk.length - baseTailCount chunk) ⊆ segmentsCoveringTail chunk 15 := by
      rw [combine_eq_filter (nodup_drop h _) (nodup_drop h _),List.append_subset]
      constructor
      · rintro ⟨hfirst,hrest⟩
        refine ⟨hfirst,fun s hs => ?_⟩
        by_cases hin : s.id ∈ (chunk.drop earliest).map TranscriptSegment.id
        · obtain ⟨r,hr,he⟩ := List.mem_map.mp hin
          rw [List.inj_on_of_nodup_map h (List.mem_of_mem_drop hs) (List.mem_of_mem_drop hr)
            he.symm]
          exact hfirst hr
        · exact hrest (List.mem_filter.mpr ⟨hs,by simpa using hin⟩)
      · rintro ⟨hfirst,hrest⟩
        exact ⟨hfirst,fun s hs => hrest (List.mem_of_mem_filter hs)⟩
    simp only [Option.some.injEq,forall_eq',hmem,drop_subset_tail_iff h hearliest]
    exact and_comm

theorem applyOverlapCap_eq (hcap : 1 ≤ cap) (xs : List TranscriptSegment) :
    applyOverlapCap cap xs = xs.drop (xs.length - cap.toNat) := by
  rw [applyOverlapCap,if_neg (by omega)]
  split
  · have hzero : xs.length - cap.toNat = 0 := by omega
    rw [hzero,List.drop_zero]
  · rfl

/-- The end of a chunk within the cap, if it reaches as far back as it should. -/
theorem carriesEnd_drop {k : ℕ} (hk : k < chunk.length) (hcap : ((chunk.length - k : ℕ) : ℤ) ≤ cap)
    (hidentified : ∀ i, chunk.findIdx? (fun s => s.id ∈ identified.map TranscriptSegment.id) =
      some i → ((chunk.length - i : ℕ) : ℤ) ≤ cap → k ≤ i)
    (hcutoff : ∀ i, HeardAtCutoff chunk i → ((chunk.length - i : ℕ) : ℤ) ≤ cap → k ≤ i) :
    CarriesEnd chunk identified cap (chunk.drop k) where
  suffix := List.drop_suffix k chunk
  length_le := by rwa [List.length_drop]
  last := by rw [List.getLast?_drop,if_neg (by omega)]
  reachesIdentified i hi hle := List.drop_suffix_drop_left chunk (hidentified i hi hle)
  reachesCutoff i hi hle := List.drop_suffix_drop_left chunk (hcutoff i hi hle)
  next new hnodup horder := by
    have hsub : (chunk.drop k ++ new).Sublist (chunk ++ new) :=
      (List.drop_sublist k chunk).append (List.Sublist.refl new)
    rw [combine_eq (hnodup.sublist (hsub.map _))]
    exact horder.sublist hsub

/-- Without identified segments the half is carried over. -/
theorem carriesEnd_nil_iff (h : (chunk.map TranscriptSegment.id).Nodup) (hcap : 1 ≤ cap)
    (hchunk : chunk ≠ []) :
    CarriesEnd chunk [] cap (computeNextOverlapSegments chunk [] cap) ↔
      TailsNested chunk [] cap := by
  have hpos := List.length_pos_iff.mpr hchunk
  rw [computeNextOverlapSegments_eq hcap hchunk,if_pos rfl,applyOverlapCap_eq hcap,
    List.length_drop,List.drop_drop]
  have hbase : 1 ≤ baseTailCount chunk ∧ baseTailCount chunk ≤ chunk.length := by
    unfold baseTailCount
    omega
  have hnone : chunk.findIdx? (fun s => s.id ∈ ([] : List TranscriptSegment).map
      TranscriptSegment.id) = none := by simp
  constructor
  · intro hcarries
    refine ⟨fun hne => absurd rfl hne,fun i hi => ?_,fun _ i hheard hle => ?_⟩
    · rw [hnone] at hi
      cases hi
    · obtain ⟨s,hs,-⟩ := hheard.1
      have hi : i < chunk.length := (List.getElem?_eq_some_iff.mp hs).1
      have hsub := (hcarries.reachesCutoff i hheard hle).subset
      have hle' := (drop_subset_drop_iff h hi).mp hsub
      omega
  · intro hnested
    refine carriesEnd_drop (by omega) (by omega) ?_ ?_
    · intro i hi
      rw [hnone] at hi
      cases hi
    · intro i hheard hle
      have hhalf := hnested.cutoff rfl i hheard hle
      omega

/-- The last fifteen seconds come first, and then the marked segments that they do not hold. -/
theorem combine_tail_eq (h : (chunk.map TranscriptSegment.id).Nodup) :
    combineOverlapSegments (segmentsCoveringTail chunk 15) (markedEnd chunk identified) =
      segmentsCoveringTail chunk 15 ++ beyondTail chunk identified := by
  refine combine_eq_filter ?_ (nodup_markedEnd h)
  rw [segmentsCoveringTail_eq]
  exact nodup_drop h _

theorem beyondTail_eq_nil_iff (h : (chunk.map TranscriptSegment.id).Nodup) :
    beyondTail chunk identified = [] ↔
      markedEnd chunk identified ⊆ segmentsCoveringTail chunk 15 := by
  rw [beyondTail,List.filter_eq_nil_iff]
  constructor
  · intro hnone s hs
    have hin := hnone s hs
    rw [decide_eq_true_eq,not_not] at hin
    obtain ⟨r,hr,he⟩ := List.mem_map.mp hin
    have hrchunk : r ∈ chunk := by
      rw [segmentsCoveringTail_eq] at hr
      exact List.mem_of_mem_drop hr
    exact List.inj_on_of_nodup_map h hrchunk (mem_of_mem_markedEnd hs) he ▸ hr
  · intro hsub s hs hout
    exact of_decide_eq_true hout (List.mem_map_of_mem (hsub hs))

/-- Marked segments beyond the tail follow the last segment of the chunk, which is not carried
last then. -/
theorem getLast?_combine_ne (hchunk : chunk ≠ []) (hout : beyondTail chunk identified ≠ []) :
    (segmentsCoveringTail chunk 15 ++ beyondTail chunk identified).getLast? ≠ chunk.getLast? := by
  intro hlast
  obtain ⟨r,hr⟩ := Option.isSome_iff_exists.mp (List.getLast?_isSome.mpr hout)
  obtain ⟨k,hk,htail⟩ : ∃ k < chunk.length, segmentsCoveringTail chunk 15 = chunk.drop k := by
    have hpos := List.length_pos_iff.mpr hchunk
    exact ⟨_,by omega,segmentsCoveringTail_eq chunk⟩
  have hchunkLast : (segmentsCoveringTail chunk 15).getLast? = chunk.getLast? := by
    rw [htail,List.getLast?_drop,if_neg (by omega)]
  rw [List.getLast?_append,hr,Option.some_or,← hchunkLast] at hlast
  have hbeyond := (List.mem_filter.mp (List.mem_of_getLast? hr)).2
  exact of_decide_eq_true hbeyond (List.mem_map_of_mem (List.mem_of_getLast? hlast.symm))

/-- The last fifteen seconds, as many as the cap allows, carry the end. -/
theorem carriesEnd_tail (h : (chunk.map TranscriptSegment.id).Nodup) (hcap : 1 ≤ cap)
    (hchunk : chunk ≠ [])
    (hsub : markedEnd chunk identified ⊆ segmentsCoveringTail chunk 15) :
    CarriesEnd chunk identified cap ((segmentsCoveringTail chunk 15).drop
      ((segmentsCoveringTail chunk 15).length - cap.toNat)) := by
  have hpos := List.length_pos_iff.mpr hchunk
  obtain ⟨k,hk,htail⟩ : ∃ k < chunk.length, segmentsCoveringTail chunk 15 = chunk.drop k :=
    ⟨_,by omega,segmentsCoveringTail_eq chunk⟩
  have hreaches : ∀ i < chunk.length,
      (∀ s ∈ chunk.drop (i + 1), tailCutoff chunk < s.startTime) → k ≤ i := by
    intro i hi hall
    rw [← drop_subset_drop_iff h hi,← htail]
    exact (drop_subset_tail_iff h hi).mpr hall
  have hmarked := (markedEnd_subset_iff h hchunk).mp hsub
  rw [htail,List.length_drop,List.drop_drop]
  refine carriesEnd_drop (by omega) (by omega) ?_ ?_
  · intro i hi hle
    have hlt : i < chunk.length := (List.findIdx?_eq_some_iff_findIdx_eq.mp hi).1
    have hki := hreaches i hlt (hmarked.2 i hi)
    omega
  · intro i hheard hle
    obtain ⟨s,hs,-⟩ := hheard.1
    have hki := hreaches i (List.getElem?_eq_some_iff.mp hs).1 hheard.2
    omega

/-- With identified segments, the end is carried exactly when the last fifteen seconds hold every
marked segment. -/
theorem carriesEnd_iff_of_ne_nil (h : (chunk.map TranscriptSegment.id).Nodup) (hcap : 1 ≤ cap)
    (hchunk : chunk ≠ []) (hidentified : identified ≠ []) :
    CarriesEnd chunk identified cap (computeNextOverlapSegments chunk identified cap) ↔
      markedEnd chunk identified ⊆ segmentsCoveringTail chunk 15 := by
  rw [computeNextOverlapSegments_eq hcap hchunk,if_neg hidentified,applyOverlapCap_eq hcap,
    combine_tail_eq h,← beyondTail_eq_nil_iff h]
  constructor
  · intro hcarries
    by_contra hout
    have hlength := List.length_pos_iff.mpr hout
    have hlast := hcarries.last
    rw [List.getLast?_drop,if_neg (by
      rw [List.length_append]
      omega)] at hlast
    exact getLast?_combine_ne hchunk hout hlast
  · intro hnone
    rw [hnone,List.append_nil]
    exact carriesEnd_tail h hcap hchunk ((beyondTail_eq_nil_iff h).mp hnone)

/-- The carried overlap is the end of the chunk, in order and as far back as it should reach,
exactly when the tails it is combined from are nested. -/
theorem carriesEnd_iff (h : (chunk.map TranscriptSegment.id).Nodup) (hcap : 1 ≤ cap) :
    CarriesEnd chunk identified cap (computeNextOverlapSegments chunk identified cap) ↔
      TailsNested chunk identified cap := by
  by_cases hchunk : chunk = []
  · subst hchunk
    rw [computeNextOverlapSegments,if_pos (Or.inr rfl)]
    refine iff_of_true ⟨List.suffix_rfl,by simp; omega,rfl,by simp,?_,?_⟩
      ⟨by simp,by simp,?_⟩
    · rintro i ⟨⟨s,hs,-⟩,-⟩
      cases hs
    · intro new hnodup horder
      rwa [combine_eq hnodup]
    · rintro - i ⟨⟨s,hs,-⟩,-⟩
      cases hs
  · by_cases hidentified : identified = []
    · subst hidentified
      exact carriesEnd_nil_iff h hcap hchunk
    · rw [carriesEnd_iff_of_ne_nil h hcap hchunk hidentified,markedEnd_subset_iff h hchunk]
      constructor
      · rintro ⟨hhalf,hfirst⟩
        exact ⟨fun _ => hhalf,hfirst,fun hnil => absurd hnil hidentified⟩
      · intro hnested
        exact ⟨hnested.half hidentified,hnested.fromFirst⟩

end

/-- Four segments in a row. -/
def evenChunk (seconds : ℚ) : List TranscriptSegment :=
  [⟨0,0,0,some seconds,"",none⟩,⟨1,1,seconds,some (2 * seconds),"",none⟩,
    ⟨2,2,2 * seconds,some (3 * seconds),"",none⟩,⟨3,3,3 * seconds,some (4 * seconds),"",none⟩]

/-- Of segments of ten seconds the last two are half of the chunk and the last fifteen seconds. -/
theorem carriesEnd_evenChunk : CarriesEnd (evenChunk 10) [⟨2,2,20,some 30,"",none⟩] 3
    (computeNextOverlapSegments (evenChunk 10) [⟨2,2,20,some 30,"",none⟩] 3) := by
  refine (carriesEnd_iff (by decide) (by decide)).mpr ⟨fun _ => by decide +kernel,?_,by simp⟩
  intro i hi
  have hfind : (evenChunk 10).findIdx? (fun s => s.id ∈ ([⟨2,2,20,some 30,"",none⟩] :
      List TranscriptSegment).map TranscriptSegment.id) = some 2 := by decide
  rw [hfind] at hi
  obtain rfl := Option.some.inj hi
  decide +kernel

/-- Of segments of thirty seconds the last one comes first, and then the one before it. -/
theorem not_carriesEnd_evenChunk : ¬CarriesEnd (evenChunk 30) [⟨3,3,90,some 120,"",none⟩] 3
    (computeNextOverlapSegments (evenChunk 30) [⟨3,3,90,some 120,"",none⟩] 3) :=
  fun h => absurd h.last (by decide +kernel)

end Podly.Classifier
