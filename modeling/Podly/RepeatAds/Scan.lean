import Podly.RepeatAds.Finder

/-! What the scan for repeats finds: windows of the transcript that hold nothing known, in order,
each of them similar to the ad. -/
namespace Podly.RepeatAds
open Intervals Lists

/-- A sequence number of the ad or of a range to skip. -/
def IsKnown (targetFirstSeq targetLastSeq : ℤ) (excludeRanges : List (ℤ × ℤ)) (seq : ℤ) : Prop :=
  (targetFirstSeq ≤ seq ∧ seq ≤ targetLastSeq) ∨ ∃ r ∈ excludeRanges, r.1 ≤ seq ∧ seq ≤ r.2

/-- The segments of a candidate. -/
def Search.windowOf (search : Search) (c : Candidate) : List Segment :=
  search.segs.filter (fun s => c.firstSeq ≤ s.sequenceNum ∧ s.sequenceNum ≤ c.lastSeq)

section
variable (tokenize : String → List String)

/-- The words of segments. -/
def wordsOf (window : List Segment) : List String := window.flatMap (fun s => tokenize s.text)

/-- A candidate is a window of the transcript that holds nothing known and little more than the ad
has segments, that was grown until it had the words of the ad, and is similar to it. -/
structure Sound (search : Search) (known : ℤ → Prop) (c : Candidate) : Prop where
  first : (search.windowOf c).head?.map (fun s => (s.sequenceNum,s.startTime)) =
    some (c.firstSeq,c.startTime)
  last : (search.windowOf c).getLast?.map (fun s => (s.sequenceNum,s.endTime)) =
    some (c.lastSeq,c.endTime)
  unknown : ∀ s ∈ search.windowOf c, ¬known s.sequenceNum
  room : (search.windowOf c).length ≤ search.targetSegs.length + maxWindowSegmentSlack
  grows : ∀ n < (search.windowOf c).length,
    (wordsOf tokenize ((search.windowOf c).take n)).length < search.targetTokens.length
  stops : search.targetTokens.length ≤ (wordsOf tokenize (search.windowOf c)).length ∨
    (search.windowOf c).length = search.targetSegs.length + maxWindowSegmentSlack ∨
    ∀ next ∈ (search.segs.filter (fun s => c.lastSeq < s.sequenceNum)).head?,
      known next.sequenceNum
  similar : ∃ lcs, IsLongestCommon (wordsOf tokenize (search.windowOf c)) search.targetTokens lcs ∧
    c.similarity = ratio (2 * lcs)
      ((wordsOf tokenize (search.windowOf c)).length + search.targetTokens.length) ∧
    search.similarityThreshold ≤ c.similarity

/-- What a window is that is grown over the rest of the transcript, given the tokens so far. -/
structure Grown (excluded : Finset ℤ) (targetTokenCount room : ℕ) (accTokens : List String)
    (rest : List Segment) (window : List Segment × List String) : Prop where
  starts : window.1 <+: rest
  tokens : window.2 = accTokens ++ wordsOf tokenize window.1
  fits : window.1.length ≤ room
  free : ∀ s ∈ window.1, s.sequenceNum ∉ excluded
  grows : ∀ n < window.1.length,
    (accTokens ++ wordsOf tokenize (window.1.take n)).length < targetTokenCount
  stops : targetTokenCount ≤ window.2.length ∨ window.1.length = room ∨
    ∀ next ∈ (rest.drop window.1.length).head?, next.sequenceNum ∈ excluded

end

section
variable {tokenize : String → List String}

theorem mem_excludedSeqs {targetFirstSeq targetLastSeq seq : ℤ} {excludeRanges : List (ℤ × ℤ)} :
    seq ∈ excludedSeqs targetFirstSeq targetLastSeq excludeRanges ↔
      IsKnown targetFirstSeq targetLastSeq excludeRanges seq := by
  have hfold : ∀ (ranges : List (ℤ × ℤ)) (excluded : Finset ℤ),
      seq ∈ ranges.foldl (fun excluded range => excluded ∪ seqRange range.1 range.2) excluded ↔
        seq ∈ excluded ∨ ∃ r ∈ ranges, r.1 ≤ seq ∧ seq ≤ r.2 := by
    intro ranges
    induction ranges with
    | nil => simp
    | cons r ranges ih =>
      intro excluded
      rw [List.foldl_cons,ih,Finset.mem_union,mem_seqRange,List.exists_mem_cons_iff,or_assoc]
  rw [excludedSeqs,hfold,mem_seqRange,IsKnown]

theorem accumulateWindow_grown (excluded : Finset ℤ) (targetTokenCount room : ℕ)
    (accTokens : List String) (rest : List Segment) (h : accTokens.length < targetTokenCount) :
    Grown tokenize excluded targetTokenCount room accTokens rest
      (accumulateWindow tokenize excluded targetTokenCount room accTokens rest) := by
  fun_induction accumulateWindow tokenize excluded targetTokenCount room accTokens rest with
  | case1 accTokens rest =>
    exact ⟨List.nil_prefix,by simp [wordsOf],le_rfl,by simp,by simp,Or.inr (Or.inl rfl)⟩
  | case2 room accTokens hroom =>
    exact ⟨List.nil_prefix,by simp [wordsOf],Nat.zero_le _,by simp,by simp,Or.inr (Or.inr (by simp))⟩
  | case3 room accTokens segment rest hexcluded =>
    refine ⟨List.nil_prefix,by simp [wordsOf],Nat.zero_le _,by simp,by simp,Or.inr (Or.inr ?_)⟩
    intro next hnext
    rwa [← Option.mem_some_iff.mp hnext]
  | case4 room accTokens segment rest hfree accTokens' hfull =>
    refine ⟨⟨rest,rfl⟩,by simp [wordsOf,accTokens'],Nat.le_add_left 1 room,?_,?_,Or.inl hfull⟩
    · intro s hs
      rwa [List.mem_singleton.mp hs]
    · intro n hn
      obtain rfl := Nat.lt_one_iff.mp hn
      simpa [wordsOf] using h
  | case5 room accTokens segment rest hfree accTokens' hshort window ih =>
    obtain ⟨hstarts,htokens,hfits,hunknown,hgrows,hstops⟩ := ih (not_le.mp hshort)
    refine ⟨List.cons_prefix_cons.mpr ⟨rfl,hstarts⟩,?_,Nat.succ_le_succ hfits,
      List.forall_mem_cons.mpr ⟨hfree,hunknown⟩,?_,?_⟩
    · rw [wordsOf] at htokens
      simp only [wordsOf,List.flatMap_cons]
      rw [htokens,List.append_assoc]
    · intro n hn
      cases n with
      | zero => simpa [wordsOf] using h
      | succ n =>
        have hlt := hgrows n (Nat.lt_of_succ_lt_succ hn)
        simpa [wordsOf,accTokens'] using hlt
    · rcases hstops with hfull | hroom | hnext
      · exact Or.inl hfull
      · exact Or.inr (Or.inl (congrArg Nat.succ hroom))
      · exact Or.inr (Or.inr hnext)

end

section Windows
variable {before window after : List Segment} {first last : Segment}

/-- Segments come before those that follow them. -/
theorem lt_of_mem_append
    (h : (before ++ window ++ after).Pairwise (fun a b => a.sequenceNum < b.sequenceNum)) :
    (∀ a ∈ before, ∀ b ∈ window, a.sequenceNum < b.sequenceNum) ∧
      ∀ a ∈ window, ∀ b ∈ after, a.sequenceNum < b.sequenceNum := by
  obtain ⟨hleft,-,hcross⟩ := List.pairwise_append.mp h
  refine ⟨(List.pairwise_append.mp hleft).2.2,?_⟩
  intro a ha b hb
  exact hcross a (List.mem_append_right _ ha) b hb

/-- The ends of a window in order. -/
theorem le_of_mem_window (h : window.Pairwise (fun a b => a.sequenceNum < b.sequenceNum))
    (hfirst : first ∈ window.head?) (hlast : last ∈ window.getLast?) :
    ∀ s ∈ window, first.sequenceNum ≤ s.sequenceNum ∧ s.sequenceNum ≤ last.sequenceNum := by
  intro s hs
  constructor
  · obtain ⟨rest,rfl⟩ := List.head?_eq_some_iff.mp hfirst
    rcases List.mem_cons.mp hs with rfl | hs
    · exact le_rfl
    · exact ((List.pairwise_cons.mp h).1 s hs).le
  · obtain ⟨init,rfl⟩ := List.getLast?_eq_some_iff.mp hlast
    rcases List.mem_append.mp hs with hs | hs
    · exact ((List.pairwise_append.mp h).2.2 s hs last List.mem_cons_self).le
    · rw [List.mem_singleton.mp hs]

/-- In strict order a window is what lies between its ends. -/
theorem filter_between
    (h : (before ++ window ++ after).Pairwise (fun a b => a.sequenceNum < b.sequenceNum))
    (hfirst : first ∈ window.head?) (hlast : last ∈ window.getLast?) :
    (before ++ window ++ after).filter
      (fun s => first.sequenceNum ≤ s.sequenceNum ∧ s.sequenceNum ≤ last.sequenceNum) = window := by
  obtain ⟨hbefore,hafter⟩ := lt_of_mem_append h
  have hwindow := le_of_mem_window
    ((List.pairwise_append.mp (List.pairwise_append.mp h).1).2.1) hfirst hlast
  have hnone : before.filter (fun s => first.sequenceNum ≤ s.sequenceNum ∧
      s.sequenceNum ≤ last.sequenceNum) = [] := by
    refine List.filter_eq_nil_iff.mpr ?_
    intro s hs hin
    have hlt := hbefore s hs first (List.mem_of_mem_head? hfirst)
    exact absurd (of_decide_eq_true hin).1 (not_le.mpr hlt)
  have hnone' : after.filter (fun s => first.sequenceNum ≤ s.sequenceNum ∧
      s.sequenceNum ≤ last.sequenceNum) = [] := by
    refine List.filter_eq_nil_iff.mpr ?_
    intro s hs hin
    have hlt := hafter last (List.mem_of_mem_getLast? hlast) s hs
    exact absurd (of_decide_eq_true hin).2 (not_le.mpr hlt)
  rw [List.filter_append,List.filter_append,hnone,hnone',List.nil_append,List.append_nil]
  refine List.filter_eq_self.mpr ?_
  intro s hs
  exact decide_eq_true (hwindow s hs)

theorem filter_after
    (h : (before ++ window ++ after).Pairwise (fun a b => a.sequenceNum < b.sequenceNum))
    (hlast : last ∈ window.getLast?) :
    (before ++ window ++ after).filter (fun s => last.sequenceNum < s.sequenceNum) = after := by
  obtain ⟨hbefore,hafter⟩ := lt_of_mem_append h
  have hmem := List.mem_of_mem_getLast? hlast
  have hnone : (before ++ window).filter (fun s => last.sequenceNum < s.sequenceNum) = [] := by
    refine List.filter_eq_nil_iff.mpr ?_
    intro s hs hin
    rcases List.mem_append.mp hs with hs | hs
    · exact absurd (of_decide_eq_true hin) (hbefore s hs last hmem).not_gt
    · obtain ⟨first,hfirst⟩ : ∃ first, first ∈ window.head? :=
        Option.isSome_iff_exists.mp (List.isSome_head?.mpr (List.ne_nil_of_mem hs))
      have hle := (le_of_mem_window
        ((List.pairwise_append.mp (List.pairwise_append.mp h).1).2.1) hfirst hlast s hs).2
      exact absurd (of_decide_eq_true hin) (not_lt.mpr hle)
  rw [List.filter_append,hnone,List.nil_append]
  refine List.filter_eq_self.mpr ?_
  intro s hs
  exact decide_eq_true (hafter last hmem s hs)

end Windows

section Similarity
variable {a b : List String}

theorem isLongestCommon_lcsLength : IsLongestCommon a b (lcsLength a b) := by
  unfold lcsLength
  split
  · rename_i hempty
    rcases hempty with rfl | rfl
    · exact .nil_left
    · exact .nil_right
  · exact isLongestCommon_lastRow a b

theorem ratio_zero (d : ℕ) : ratio 0 d = 0 := by
  have hround : Floats.roundHalfEven 0 = 0 := by
    norm_num [Floats.roundHalfEven,Rat.floor]
  have hzero : ((0 : ℕ) : ℚ) / d = 0 := by simp
  rw [ratio,hzero,Floats.ofRat]
  split
  · rw [zero_div,hround,Int.cast_zero,zero_mul]
    rfl
  · rfl

/-- The similarity is the ratio of the longest common subsequence also where nothing is left. -/
theorem similarity_eq (hb : b ≠ []) :
    similarity a b = ratio (2 * lcsLength a b) (a.length + b.length) := by
  unfold similarity
  rw [if_neg (fun h => hb h.2)]
  split
  · rename_i hempty
    rw [lcsLength,if_pos hempty,Nat.mul_zero,ratio_zero]
  · rfl

end Similarity

section Scan
variable {tokenize : String → List String} {search : Search} {known : ℤ → Prop}
  {state state' : ScanState}

/-- What the scan keeps: what it has found is sound and in order, and it has passed it. Of what is
still to come it skips what is known and nothing else. -/
structure ScanInv (tokenize : String → List String) (search : Search) (known : ℤ → Prop)
    (state : ScanState) : Prop where
  position : state.position ≤ search.segs.length
  skips : ∀ seq, known seq → seq ∈ state.excluded
  ahead : ∀ s ∈ search.segs.drop state.position, s.sequenceNum ∈ state.excluded →
    known s.sequenceNum
  sound : ∀ c ∈ state.candidates, Sound tokenize search known c
  ordered : state.candidates.Pairwise (fun c d => c.lastSeq < d.firstSeq)
  passed : ∀ c ∈ state.candidates, ∀ s ∈ search.segs.drop state.position,
    c.lastSeq < s.sequenceNum

theorem ScanInv.skip (h : ScanInv tokenize search known state)
    (hlt : state.position < search.segs.length) :
    ScanInv tokenize search known { state with position := state.position + 1 } := by
  have hdrop : ∀ s ∈ search.segs.drop (state.position + 1), s ∈ search.segs.drop state.position :=
    fun s hs => List.mem_of_mem_drop (List.drop_drop (i := 1) ▸ hs)
  exact ⟨hlt,h.skips,fun s hs => h.ahead s (hdrop s hs),h.sound,h.ordered,
    fun c hc s hs => h.passed c hc s (hdrop s hs)⟩

/-- A window that is similar to the ad is a sound candidate. -/
theorem Grown.sound {excluded : Finset ℤ} {before after : List Segment}
    {window : List Segment × List String} {first last : Segment}
    (hgrown : Grown tokenize excluded search.targetTokens.length search.maxWindowSegments []
      (window.1 ++ after) window)
    (hsegs : search.segs = before ++ window.1 ++ after)
    (hsorted : search.segs.Pairwise (fun a b => a.sequenceNum < b.sequenceNum))
    (htarget : search.targetTokens ≠ []) (hskips : ∀ seq, known seq → seq ∈ excluded)
    (hahead : ∀ s ∈ window.1 ++ after, s.sequenceNum ∈ excluded → known s.sequenceNum)
    (hfirst : first ∈ window.1.head?) (hlast : last ∈ window.1.getLast?)
    (hsimilar : search.similarityThreshold ≤ similarity window.2 search.targetTokens) :
    Sound tokenize search known ⟨first.sequenceNum,last.sequenceNum,first.startTime,last.endTime,
      similarity window.2 search.targetTokens⟩ := by
  have hwindow : search.windowOf ⟨first.sequenceNum,last.sequenceNum,first.startTime,
      last.endTime,similarity window.2 search.targetTokens⟩ = window.1 := by
    rw [hsegs] at hsorted
    rw [Search.windowOf,hsegs]
    exact filter_between hsorted hfirst hlast
  have hwords : window.2 = wordsOf tokenize window.1 := hgrown.tokens
  constructor
  · rw [hwindow,Option.mem_def.mp hfirst]
    rfl
  · rw [hwindow,Option.mem_def.mp hlast]
    rfl
  · rw [hwindow]
    exact fun s hs hknown => hgrown.free s hs (hskips _ hknown)
  · rw [hwindow]
    exact hgrown.fits
  · rw [hwindow]
    exact hgrown.grows
  · rw [hwindow]
    rcases hgrown.stops with hfull | hroom | hnext
    · rw [hwords] at hfull
      exact Or.inl hfull
    · exact Or.inr (Or.inl hroom)
    · refine Or.inr (Or.inr ?_)
      rw [hsegs] at hsorted
      have hrest : search.segs.filter (fun s => last.sequenceNum < s.sequenceNum) = after := by
        rw [hsegs]
        exact filter_after hsorted hlast
      rw [List.drop_left] at hnext
      rw [hrest]
      intro next hmem
      exact hahead next (List.mem_append_right _ (List.mem_of_mem_head? hmem)) (hnext next hmem)
  · rw [hwindow,← hwords]
    exact ⟨_,isLongestCommon_lcsLength,similarity_eq htarget,hsimilar⟩

/-- After a candidate the scan goes on behind it. -/
theorem ScanInv.advance {window after : List Segment} {first last : Segment} {c : Candidate}
    (h : ScanInv tokenize search known state)
    (hsorted : search.segs.Pairwise (fun a b => a.sequenceNum < b.sequenceNum))
    (hrest : search.segs.drop state.position = window ++ after)
    (hfirst : first ∈ window) (hlast : last ∈ window)
    (hc : c.firstSeq = first.sequenceNum ∧ c.lastSeq = last.sequenceNum)
    (hsound : Sound tokenize search known c) :
    ScanInv tokenize search known ⟨state.position + window.length,
      state.excluded ∪ (window.map Segment.sequenceNum).toFinset,state.candidates ++ [c]⟩ := by
  have hdrop : search.segs.drop (state.position + window.length) = after := by
    rw [← List.drop_drop,hrest,List.drop_left]
  have hlength := congrArg List.length hrest
  rw [List.length_drop,List.length_append] at hlength
  have hcross : ∀ a ∈ window, ∀ s ∈ after, a.sequenceNum < s.sequenceNum := by
    have hsub : (window ++ after).Pairwise (fun a b => a.sequenceNum < b.sequenceNum) := by
      rw [← hrest]
      exact hsorted.sublist (List.drop_sublist _ _)
    exact (List.pairwise_append.mp hsub).2.2
  have hafter : ∀ s ∈ after, s ∈ search.segs.drop state.position := by
    intro s hs
    rw [hrest]
    exact List.mem_append_right _ hs
  refine ⟨?_,fun seq hseq => Finset.mem_union_left _ (h.skips seq hseq),?_,?_,?_,?_⟩
  · have hposition := h.position
    change state.position + window.length ≤ search.segs.length
    omega
  · intro s hs hexcluded
    rw [hdrop] at hs
    rcases Finset.mem_union.mp hexcluded with hexcluded | hmatched
    · exact h.ahead s (hafter s hs) hexcluded
    · obtain ⟨a,ha,heq⟩ := List.mem_map.mp (List.mem_toFinset.mp hmatched)
      exact absurd heq (hcross a ha s hs).ne
  · exact List.forall_mem_append.mpr ⟨h.sound,List.forall_mem_singleton.mpr hsound⟩
  · refine List.pairwise_append.mpr ⟨h.ordered,List.pairwise_singleton _ c,?_⟩
    intro d hd e he
    rw [List.mem_singleton.mp he,hc.1]
    refine h.passed d hd first ?_
    rw [hrest]
    exact List.mem_append_left _ hfirst
  · rw [hdrop]
    refine List.forall_mem_append.mpr ⟨fun d hd s hs => h.passed d hd s (hafter s hs),?_⟩
    refine List.forall_mem_singleton.mpr fun s hs => ?_
    rw [hc.2]
    exact hcross last hlast s hs

/-- One round keeps what the scan keeps, and goes on further right. -/
theorem scanStep_inl (hsorted : search.segs.Pairwise (fun a b => a.sequenceNum < b.sequenceNum))
    (htarget : search.targetTokens ≠ []) (h : ScanInv tokenize search known state)
    (hstep : scanStep tokenize search state = .inl state') :
    ScanInv tokenize search known state' ∧
      search.segs.length - state'.position < search.segs.length - state.position := by
  unfold scanStep at hstep
  split at hstep
  · exact absurd hstep (by simp)
  · rename_i segment hsegment
    have hlt : state.position < search.segs.length :=
      (List.getElem?_eq_some_iff.mp hsegment).1
    have hskip := h.skip hlt
    have hmeasure : search.segs.length - (state.position + 1) <
        search.segs.length - state.position := by omega
    dsimp only at hstep
    split at hstep
    · cases hstep
      exact ⟨hskip,hmeasure⟩
    · have hgrown : Grown tokenize state.excluded search.targetTokens.length
          search.maxWindowSegments [] (search.segs.drop state.position)
          (accumulateWindow tokenize state.excluded search.targetTokens.length
            search.maxWindowSegments [] (search.segs.drop state.position)) :=
        accumulateWindow_grown _ _ _ _ _ (List.length_pos_iff.mpr htarget)
      generalize accumulateWindow tokenize state.excluded search.targetTokens.length
        search.maxWindowSegments [] (search.segs.drop state.position) = window at hstep hgrown
      split at hstep
      · rename_i first last hfirst hlast
        split at hstep
        · rename_i hsimilar
          cases hstep
          obtain ⟨after,hafter⟩ := hgrown.starts
          have hsegs : search.segs =
              search.segs.take state.position ++ window.1 ++ after := by
            rw [List.append_assoc,hafter,List.take_append_drop]
          have hahead : ∀ s ∈ window.1 ++ after, s.sequenceNum ∈ state.excluded →
              known s.sequenceNum := by
            rw [hafter]
            exact h.ahead
          rw [← hafter] at hgrown
          have hfirst' := List.mem_of_mem_head? hfirst
          have hsound := hgrown.sound hsegs hsorted htarget h.skips hahead hfirst hlast hsimilar
          refine ⟨h.advance hsorted hafter.symm hfirst' (List.mem_of_mem_getLast? hlast)
            ⟨rfl,rfl⟩ hsound,?_⟩
          have hpos := List.length_pos_of_mem hfirst'
          change search.segs.length - (state.position + window.1.length) < _
          omega
        · cases hstep
          exact ⟨hskip,hmeasure⟩
      · cases hstep
        exact ⟨hskip,hmeasure⟩

/-- The scan leaves at the end of the transcript, with what it has found. -/
theorem scanStep_inr {candidates : List Candidate}
    (hstep : scanStep tokenize search state = .inr candidates) :
    candidates = state.candidates := by
  unfold scanStep at hstep
  split at hstep
  · exact (Sum.inr_injective hstep).symm
  · dsimp only at hstep
    split at hstep
    · exact absurd hstep Sum.inl_ne_inr
    · split at hstep
      · split at hstep
        · exact absurd hstep Sum.inl_ne_inr
        · exact absurd hstep Sum.inl_ne_inr
      · exact absurd hstep Sum.inl_ne_inr

end Scan

theorem searchOf_sorted (tokenize : String → List String) {segments : List Segment}
    (targetFirstSeq targetLastSeq : ℤ) (similarityThreshold : ℚ)
    (hdistinct : (segments.map Segment.sequenceNum).Nodup) :
    (searchOf tokenize segments targetFirstSeq targetLastSeq similarityThreshold).segs.Pairwise
      (fun a b => a.sequenceNum < b.sequenceNum) := by
  have hnodup : (sortByKey Segment.sequenceNum segments).Pairwise
      (fun a b => a.sequenceNum ≠ b.sequenceNum) := by
    rw [← List.pairwise_map]
    exact (((sortByKey_perm _ _).map _).nodup_iff.mpr hdistinct)
  exact ((sortByKey_sorted Segment.sequenceNum segments).and hnodup).imp
    (fun h => lt_of_le_of_ne h.1 h.2)

/-- On a search in order the scan ends, and what it finds is sound, in order and disjoint. -/
theorem findRepeatCandidates_finds (tokenize : String → List String) (segments : List Segment)
    (targetFirstSeq targetLastSeq : ℤ) (excludeRanges : List (ℤ × ℤ)) (similarityThreshold : ℚ)
    {search : Search}
    (hsearch : searchOf tokenize segments targetFirstSeq targetLastSeq similarityThreshold = search)
    (hsorted : search.segs.Pairwise (fun a b => a.sequenceNum < b.sequenceNum)) :
    ∃ candidates, (∀ fuel, search.segs.length < fuel → findRepeatCandidates tokenize fuel segments
        targetFirstSeq targetLastSeq excludeRanges similarityThreshold = some candidates) ∧
      candidates.Pairwise (fun c d => c.lastSeq < d.firstSeq) ∧
      ∀ c ∈ candidates, Sound tokenize search
        (IsKnown targetFirstSeq targetLastSeq excludeRanges) c := by
  unfold findRepeatCandidates
  rw [hsearch]
  dsimp only
  split
  · exact ⟨[],fun _ _ => rfl,List.Pairwise.nil,by simp⟩
  · rename_i hfound
    rw [not_or,not_lt] at hfound
    have htarget : search.targetTokens ≠ [] := by
      intro hnil
      rw [hnil] at hfound
      exact absurd hfound.2 (by decide)
    have hinit : ScanInv tokenize search (IsKnown targetFirstSeq targetLastSeq excludeRanges)
        ⟨0,excludedSeqs targetFirstSeq targetLastSeq excludeRanges,[]⟩ :=
      ⟨Nat.zero_le _,fun _ => mem_excludedSeqs.mpr,fun _ _ => mem_excludedSeqs.mp,by simp,
        List.Pairwise.nil,by simp⟩
    exact Loops.run_of_measure
      (I := ScanInv tokenize search (IsKnown targetFirstSeq targetLastSeq excludeRanges))
      (Q := fun candidates => candidates.Pairwise (fun c d => c.lastSeq < d.firstSeq) ∧
        ∀ c ∈ candidates, Sound tokenize search
          (IsKnown targetFirstSeq targetLastSeq excludeRanges) c)
      (fun state => search.segs.length - state.position)
      (fun _ _ h hstep => scanStep_inl hsorted htarget h hstep)
      (fun _ _ h hstep => scanStep_inr hstep ▸ ⟨h.ordered,h.sound⟩) hinit

theorem searchOf_length (tokenize : String → List String) (segments : List Segment)
    (targetFirstSeq targetLastSeq : ℤ) (similarityThreshold : ℚ) :
    (searchOf tokenize segments targetFirstSeq targetLastSeq similarityThreshold).segs.length =
      segments.length :=
  (sortByKey_perm _ _).length_eq

/-- The scan ends, and what it finds is sound, in order and disjoint. -/
theorem findRepeatCandidates_sound (tokenize : String → List String) (segments : List Segment)
    (hdistinct : (segments.map Segment.sequenceNum).Nodup) (targetFirstSeq targetLastSeq : ℤ)
    (excludeRanges : List (ℤ × ℤ)) (similarityThreshold : ℚ) :
    ∃ candidates, (∀ fuel, segments.length < fuel → findRepeatCandidates tokenize fuel segments
        targetFirstSeq targetLastSeq excludeRanges similarityThreshold = some candidates) ∧
      candidates.Pairwise (fun c d => c.lastSeq < d.firstSeq) ∧
      ∀ c ∈ candidates, Sound tokenize
        (searchOf tokenize segments targetFirstSeq targetLastSeq similarityThreshold)
        (IsKnown targetFirstSeq targetLastSeq excludeRanges) c := by
  have hfinds := findRepeatCandidates_finds tokenize segments targetFirstSeq targetLastSeq
    excludeRanges similarityThreshold rfl
    (searchOf_sorted tokenize targetFirstSeq targetLastSeq similarityThreshold hdistinct)
  rw [searchOf_length] at hfinds
  exact hfinds

/-- An ad of seven words and its repeat two segments later. -/
def airedTwice : List Segment :=
  [⟨1,0,9,"get ten percent off with code ten"⟩,⟨2,9,12,"back to the show"⟩,
    ⟨3,12,21,"get ten percent off with code ten"⟩]

theorem findRepeatCandidates_sound_repeat : (airedTwice.map Segment.sequenceNum).Nodup ∧
    ∃ candidates, (∀ fuel, 3 < fuel → findRepeatCandidates
        (tokenize ⟨WordBoundary.isWhitespace,String.toLower⟩) fuel airedTwice 1 1 [] (17 / 20) =
          some candidates) ∧
      candidates = [⟨3,3,12,21,1⟩] ∧
      ∀ c ∈ candidates, Sound (tokenize ⟨WordBoundary.isWhitespace,String.toLower⟩)
        (searchOf (tokenize ⟨WordBoundary.isWhitespace,String.toLower⟩) airedTwice 1 1 (17 / 20))
        (IsKnown 1 1 []) c := by
  have hdistinct : (airedTwice.map Segment.sequenceNum).Nodup := by decide
  obtain ⟨candidates,hrun,-,hsound⟩ := findRepeatCandidates_sound
    (tokenize ⟨WordBoundary.isWhitespace,String.toLower⟩) airedTwice hdistinct 1 1 [] (17 / 20)
  have hfound : findRepeatCandidates (tokenize ⟨WordBoundary.isWhitespace,String.toLower⟩) 4
      airedTwice 1 1 [] (17 / 20) = some [⟨3,3,12,21,1⟩] := by
    decide +kernel
  refine ⟨hdistinct,candidates,hrun,?_,hsound⟩
  exact Option.some.inj ((hrun 4 (by decide)).symm.trans hfound)

end Podly.RepeatAds
