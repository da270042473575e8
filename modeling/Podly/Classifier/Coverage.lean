import Mathlib.Data.List.TakeDrop
import Podly.Classifier.Chunks

/-! The chunks of a classification cover the transcript. The loop that shrinks a rejected chunk ends
because every round takes fewer new segments, and the outer loop because every chunk takes some. -/
namespace Podly.Classifier
open Store Floats

/-- The provider answered with anything but a rejection. -/
def Request.Answered (request : Request) : Prop :=
  ∀ limit requested, request.answer ≠ .tooLarge limit requested

instance (request : Request) : Decidable request.Answered :=
  match h : request.answer with
  | .tooLarge limit requested => isFalse (fun hanswered => hanswered limit requested h)
  | .accepted _ => isTrue (fun _ _ he => by rw [h] at he; cases he)
  | .failed => isTrue (fun _ _ he => by rw [h] at he; cases he)

/-- The numbers of a rejection stay within the doubles: its limit, and the segments times the limit
learned from it over the tokens requested. -/
def RatioInRange (consumed limit requested : ℕ) : Prop :=
  0 < requested ∧ ∃ learned, learnedLimit limit = .ok learned ∧
    InRange (((consumed * learned : ℕ) : ℚ) / requested)

/-- A rejection that the classification survives: of more than one new segment, with numbers in
range. -/
def Request.Survives (request : Request) : Prop :=
  ∀ limit requested, request.answer = .tooLarge limit requested →
    1 < request.newSegments.length ∧ RatioInRange request.newSegments.length limit requested

/-- The prompt is within the limits the request was built under. -/
def Request.WithinLimit (params : ClassifyParams) (request : Request) : Prop :=
  ∀ limit, effectiveLimit params.llmMaxInputTokensPerCall request.adaptive = some limit →
    (countTokens params.systemPrompt request.userPrompt : ℤ) ≤ limit

section
variable {limit requested consumed : ℕ}

/-- A rejected chunk is tried again with at least one segment, and with fewer. -/
theorem shrink_bounds {maxNew learned : ℕ}
    (h : shrink consumed limit requested = .ok (maxNew,learned)) :
    0 < maxNew ∧ (1 < consumed → maxNew < consumed) := by
  unfold shrink at h
  split at h
  · cases h
  · split at h
    · cases h
    · rename_i ratio _
      have hmax : max 1 (min (consumed - 1) ratio.floor.toNat) = maxNew :=
        congrArg Prod.fst (Except.ok.inj h)
      omega

theorem shrink_of_ratioInRange (h : RatioInRange consumed limit requested) :
    ∃ next, shrink consumed limit requested = .ok next := by
  obtain ⟨hrequested,learned,hlearned,hrange⟩ := h
  obtain ⟨ratio,hratio⟩ := Option.isSome_iff_exists.mp (ofRat_isSome_iff.mpr hrange)
  have hne : requested ≠ 0 := by omega
  simp only [shrink,hlearned,trueDivide,if_neg hne,hratio]
  exact ⟨_,rfl⟩

end

section
variable {xs ys combined : List TranscriptSegment}

theorem mem_foldl_addUnseen {s : TranscriptSegment} (h : s ∈ xs.foldl addUnseen combined) :
    s ∈ combined ∨ s ∈ xs := by
  induction xs generalizing combined with
  | nil => exact .inl h
  | cons x xs ih =>
    rcases ih h with hs | hs
    · unfold addUnseen at hs
      split at hs
      · exact .inl hs
      · rw [List.mem_append,List.mem_singleton] at hs
        apply hs.imp_right
        rintro rfl
        exact List.mem_cons_self
    · exact .inr (List.mem_cons_of_mem x hs)

/-- Segments under ids of their own are all appended. -/
theorem foldl_addUnseen (h : ((combined ++ xs).map TranscriptSegment.id).Nodup) :
    xs.foldl addUnseen combined = combined ++ xs := by
  induction xs generalizing combined with
  | nil => exact (List.append_nil combined).symm
  | cons x xs ih =>
    have hnew : x.id ∉ combined.map TranscriptSegment.id := by
      rw [List.map_append,List.map_cons,List.nodup_append] at h
      exact fun hmem => h.2.2 _ hmem _ List.mem_cons_self rfl
    have hsplit : combined ++ x::xs = (combined ++ [x]) ++ xs := by simp
    rw [List.foldl_cons,addUnseen,if_neg hnew,ih (hsplit ▸ h),hsplit]

theorem nodup_foldl_addUnseen (h : (combined.map TranscriptSegment.id).Nodup) :
    ((xs.foldl addUnseen combined).map TranscriptSegment.id).Nodup := by
  induction xs generalizing combined with
  | nil => exact h
  | cons x xs ih =>
    apply ih
    unfold addUnseen
    split
    · exact h
    · rename_i hnew
      rw [List.map_append,List.map_singleton]
      exact List.nodup_append.mpr ⟨h,by simp,fun a ha b hb he =>
        hnew (List.mem_singleton.mp hb ▸ he ▸ ha)⟩

theorem mem_combine {s : TranscriptSegment} (h : s ∈ combineOverlapSegments xs ys) :
    s ∈ xs ∨ s ∈ ys := by
  rcases mem_foldl_addUnseen h with hs | hs
  · rcases mem_foldl_addUnseen hs with hnil | hs
    · cases hnil
    · exact .inl hs
  · exact .inr hs

theorem nodup_combine : ((combineOverlapSegments xs ys).map TranscriptSegment.id).Nodup :=
  nodup_foldl_addUnseen (nodup_foldl_addUnseen List.nodup_nil)

theorem combine_eq (h : ((xs ++ ys).map TranscriptSegment.id).Nodup) :
    combineOverlapSegments xs ys = xs ++ ys := by
  have hxs : (([] ++ xs).map TranscriptSegment.id).Nodup := by
    rw [List.map_append,List.nodup_append] at h
    exact h.1
  rw [combineOverlapSegments,foldl_addUnseen hxs]
  exact foldl_addUnseen h

theorem applyOverlapCap_sublist (maxOverlap : ℤ) : (applyOverlapCap maxOverlap xs).Sublist xs := by
  unfold applyOverlapCap
  split
  · exact List.nil_sublist xs
  · split
    · exact List.Sublist.refl xs
    · exact List.drop_sublist _ xs

theorem takeThrough_sublist (p : TranscriptSegment → Bool) : (takeThrough p xs).Sublist xs := by
  induction xs with
  | nil => exact List.Sublist.refl []
  | cons x xs ih =>
    unfold takeThrough
    split
    · exact (List.nil_sublist xs).cons_cons x
    · exact ih.cons_cons x

theorem segmentsCoveringTail_sublist (seconds : ℚ) :
    (segmentsCoveringTail xs seconds).Sublist xs := by
  unfold segmentsCoveringTail
  split
  · exact List.nil_sublist xs
  · rename_i last _
    have h := (@takeThrough_sublist xs.reverse (fun s => decide
      (s.startTime ≤ last.endTime.getD last.startTime - seconds))).reverse
    rwa [List.reverse_reverse] at h

/-- The overlap for the next chunk is made of segments of this one. -/
theorem mem_computeNextOverlapSegments {s : TranscriptSegment} {identified : List TranscriptSegment}
    {maxOverlap : ℤ} (h : s ∈ computeNextOverlapSegments xs identified maxOverlap) : s ∈ xs := by
  unfold computeNextOverlapSegments at h
  split at h
  · cases h
  · replace h := (applyOverlapCap_sublist maxOverlap).subset h
    have htail : ∀ n, s ∈ xs.drop n → s ∈ xs := fun n hs => List.mem_of_mem_drop hs
    split at h
    · exact htail _ h
    · rcases mem_combine h with hs | hs
      · exact (segmentsCoveringTail_sublist 15).subset hs
      · split at hs
        · exact (mem_combine hs).elim (htail _) (htail _)
        · exact htail _ hs

theorem nodup_computeNextOverlapSegments {identified : List TranscriptSegment} {maxOverlap : ℤ}
    (h : (xs.map TranscriptSegment.id).Nodup) :
    ((computeNextOverlapSegments xs identified maxOverlap).map TranscriptSegment.id).Nodup := by
  unfold computeNextOverlapSegments
  split
  · exact List.nodup_nil
  · apply List.Nodup.sublist ((applyOverlapCap_sublist maxOverlap).map _)
    split
    · exact h.sublist ((List.drop_sublist _ xs).map _)
    · exact nodup_combine

end

section
variable {params : ClassifyParams} {adaptive : Option ℤ}
  {total capped overlap remaining : List TranscriptSegment}

theorem validateTokenLimit_iff {prompt : String} : validateTokenLimit params adaptive prompt = true ↔
    ∀ limit, effectiveLimit params.llmMaxInputTokensPerCall adaptive = some limit →
      (countTokens params.systemPrompt prompt : ℤ) ≤ limit := by
  unfold validateTokenLimit
  cases effectiveLimit params.llmMaxInputTokensPerCall adaptive <;> simp

/-- Without a limit every prompt is valid. -/
theorem limited_and_not_valid {prompt : String} :
    ((params.llmMaxInputTokensPerCall.isSome || adaptive.isSome) &&
      !validateTokenLimit params adaptive prompt) = !validateTokenLimit params adaptive prompt := by
  cases hconfigured : params.llmMaxInputTokensPerCall <;> cases adaptive <;>
    simp [validateTokenLimit,effectiveLimit,hconfigured]

/-- A trimmed chunk takes some of the new segments, and only one of them if the prompt is over the
limit. -/
theorem trimChunk_spec (hnodup : ((capped ++ remaining).map TranscriptSegment.id).Nodup)
    (hremaining : remaining ≠ []) (trimmed : Bool) (n : ℕ) :
    ∃ k prompt trimmed', trimChunk params adaptive total capped remaining trimmed (n + 1) =
        ⟨capped ++ remaining.take k,prompt,k,trimmed'⟩ ∧ 0 < k ∧ k ≤ n + 1 ∧
      (k = 1 ∨ validateTokenLimit params adaptive prompt = true) := by
  have hchunk : ∀ k, combineOverlapSegments capped (remaining.take k) =
      capped ++ remaining.take k := by
    intro k
    apply combine_eq
    refine hnodup.sublist (List.Sublist.map _ ?_)
    exact (List.Sublist.refl capped).append (List.take_sublist k remaining)
  have hne : ∀ k, capped ++ remaining.take (k + 1) ≠ [] := by
    intro k h
    have htake := (List.append_eq_nil_iff.mp h).2
    rw [List.take_eq_nil_iff] at htake
    exact htake.elim (by omega) hremaining
  induction n generalizing trimmed with
  | zero =>
    simp only [trimChunk,hchunk,if_neg (hne 0),limited_and_not_valid]
    split
    · exact ⟨1,_,_,rfl,by omega,by omega,.inl rfl⟩
    · exact ⟨1,_,_,rfl,by omega,by omega,.inl rfl⟩
  | succ n ih =>
    rw [trimChunk]
    simp only [hchunk,if_neg (hne (n + 1)),limited_and_not_valid]
    split
    · rw [if_neg (by omega)]
      obtain ⟨k,prompt,trimmed',htrim,hpos,hle,hvalid⟩ := ih true
      exact ⟨k,prompt,trimmed',htrim,hpos,by omega,hvalid⟩
    · rename_i hvalid
      exact ⟨n + 2,_,_,rfl,by omega,by omega,.inr (by simpa using hvalid)⟩

/-- The chunk of a request: the capped overlap, then new segments. -/
theorem buildChunkPayload_spec
    (hnodup : ((overlap ++ remaining).map TranscriptSegment.id).Nodup)
    (hremaining : remaining ≠ []) {maxNew : ℕ} (hmax : 0 < maxNew) :
    ∃ k prompt trimmed, buildChunkPayload params adaptive overlap remaining total maxNew =
        ⟨applyOverlapCap params.maxOverlapSegments overlap ++ remaining.take k,prompt,k,trimmed⟩ ∧
      0 < k ∧ k ≤ maxNew ∧ k ≤ remaining.length ∧
      (k = 1 ∨ validateTokenLimit params adaptive prompt = true) := by
  have hlength : 0 < remaining.length := List.length_pos_iff.mpr hremaining
  obtain ⟨n,hn⟩ := Nat.exists_eq_add_one_of_ne_zero
    (by omega : min maxNew remaining.length ≠ 0)
  have hcapped : ((applyOverlapCap params.maxOverlapSegments overlap ++ remaining).map
      TranscriptSegment.id).Nodup := by
    refine hnodup.sublist (List.Sublist.map _ ?_)
    exact (applyOverlapCap_sublist _).append (List.Sublist.refl remaining)
  obtain ⟨k,prompt,trimmed,htrim,hpos,hle,hvalid⟩ := @trimChunk_spec params adaptive total
    _ remaining hcapped hremaining false n
  refine ⟨k,prompt,trimmed,?_,hpos,by omega,by omega,hvalid⟩
  rw [buildChunkPayload,if_neg hremaining,hn,htrim]

end

section
variable {params : ClassifyParams} {adaptive : Option ℤ} {answers : ℕ → Answer}
  {total capped overlap remaining : List TranscriptSegment} {s : TranscriptSegment}

theorem mem_trimChunk {trimmed : Bool} {n : ℕ}
    (h : s ∈ (trimChunk params adaptive total capped remaining trimmed n).chunkSegments) :
    s ∈ capped ∨ s ∈ remaining := by
  have hchunk : ∀ k, s ∈ combineOverlapSegments capped (remaining.take k) →
      s ∈ capped ∨ s ∈ remaining := fun k hs => (mem_combine hs).imp_right List.mem_of_mem_take
  induction n generalizing trimmed with
  | zero => cases h
  | succ n ih =>
    unfold trimChunk at h
    dsimp only at h
    split at h
    · cases h
    · split at h
      · split at h
        · exact hchunk _ h
        · exact ih h
      · exact hchunk _ h

/-- A chunk is made of the overlap and of segments that remain. -/
theorem mem_buildChunkPayload {n : ℕ}
    (h : s ∈ (buildChunkPayload params adaptive overlap remaining total n).chunkSegments) :
    s ∈ overlap ∨ s ∈ remaining := by
  unfold buildChunkPayload at h
  split at h
  · cases h
  · exact (mem_trimChunk h).imp_left (applyOverlapCap_sublist _).mem

/-- A round ends with an overlap from its chunk. -/
theorem mem_of_attempt {index maxNew consumed : ℕ} {state state' : ClassifierState}
    {next : List TranscriptSegment} (h : attempt params answers total overlap index (maxNew,state) =
      .inr (.ok (consumed,next),state')) (hs : s ∈ next) : s ∈ overlap ∨ s ∈ total := by
  unfold attempt at h
  dsimp only at h
  split at h
  · cases h
  · split at h
    · split at h
      · cases h
      · split at h <;> cases h
    · cases h
      exact (mem_buildChunkPayload (mem_computeNextOverlapSegments hs)).imp_right
        List.mem_of_mem_drop

end

/-- A chunk that was answered: its new segments are the next ones of the transcript, its other
segments are earlier ones, and it is over the limit only with a single new segment. -/
structure Chunk (params : ClassifyParams) (total : List TranscriptSegment) (index consumed : ℕ)
    (request : Request) : Prop where
  answered : request.Answered
  newSegments : request.newSegments = (total.drop index).take consumed
  consumed_pos : 0 < consumed
  consumed_le : consumed ≤ (total.drop index).length
  withinLimit : request.newSegments.length = 1 ∨ request.WithinLimit params
  chunkSegments : ∃ earlier, (∀ s ∈ earlier, s ∈ total.take index) ∧
    request.chunkSegments = earlier ++ request.newSegments

/-- Segments that may be carried over to the chunk at an index. -/
structure Carried (total : List TranscriptSegment) (index : ℕ)
    (overlap : List TranscriptSegment) : Prop where
  earlier : ∀ s ∈ overlap, s ∈ total.take index
  nodup : (overlap.map TranscriptSegment.id).Nodup

section
variable {params : ClassifyParams} {answers : ℕ → Answer} {total overlap : List TranscriptSegment}
  {index : ℕ}

theorem Carried.sublist {overlap' : List TranscriptSegment} (h : Carried total index overlap)
    (hsub : overlap'.Sublist overlap) : Carried total index overlap' :=
  ⟨fun s hs => h.earlier s (hsub.subset hs),h.nodup.sublist (hsub.map _)⟩

theorem Carried.nodup_append (h : Carried total index overlap)
    (htotal : (total.map TranscriptSegment.id).Nodup) :
    ((overlap ++ total.drop index).map TranscriptSegment.id).Nodup := by
  rw [← List.take_append_drop index total,List.map_append,List.nodup_append] at htotal
  rw [List.map_append]
  refine List.nodup_append.mpr ⟨h.nodup,htotal.2.1,?_⟩
  intro a ha b hb
  obtain ⟨s,hs,rfl⟩ := List.mem_map.mp ha
  exact htotal.2.2 _ (List.mem_map_of_mem (h.earlier s hs)) b hb

/-- What the loop of `_step` leaves: the rejected requests, then one that was answered or one that
the classification does not survive. -/
def StepResult (params : ClassifyParams) (total : List TranscriptSegment) (index : ℕ)
    (requests : List Request)
    (out : Except ClassifyError (ℕ × List TranscriptSegment) × ClassifierState) : Prop :=
  ∃ rejected last, out.2.requests = requests ++ rejected ++ [last] ∧
    (∀ r ∈ rejected, ¬r.Answered) ∧
    match out.1 with
    | .error _ => ¬last.Survives
    | .ok (consumed,next) => Chunk params total index consumed last ∧
        Carried total (index + consumed) next

theorem attempt_spec (htotal : (total.map TranscriptSegment.id).Nodup)
    (hindex : index < total.length) (hoverlap : Carried total index overlap) {maxNew : ℕ}
    (hmax : 0 < maxNew) (state : ClassifierState) :
    match attempt params answers total overlap index (maxNew,state) with
    | .inl (maxNew',state') => 0 < maxNew' ∧ maxNew' < maxNew ∧
        ∃ request, state'.requests = state.requests ++ [request] ∧ ¬request.Answered
    | .inr out => ∃ last, out.2.requests = state.requests ++ [last] ∧
        match out.1 with
        | .error _ => ¬last.Survives
        | .ok (consumed,next) => Chunk params total index consumed last ∧
            Carried total (index + consumed) next := by
  have hremaining : total.drop index ≠ [] := by
    rw [← List.length_pos_iff,List.length_drop]
    omega
  obtain ⟨k,prompt,trimmed,hpayload,hpos,hle,hlength,hvalid⟩ :=
    @buildChunkPayload_spec params state.adaptive total overlap (total.drop index)
      (hoverlap.nodup_append htotal) hremaining maxNew hmax
  have hcapped : Carried total index (applyOverlapCap params.maxOverlapSegments overlap) :=
    hoverlap.sublist (applyOverlapCap_sublist _)
  generalize hcap : applyOverlapCap params.maxOverlapSegments overlap = capped at hpayload hcapped
  have htake : total.take (index + k) = total.take index ++ (total.drop index).take k :=
    List.take_add
  have hnew : ((total.drop index).take k).length = k := by
    rw [List.length_take]
    omega
  have hchunk : capped ++ (total.drop index).take k ≠ [] := by
    intro h
    rw [(List.append_eq_nil_iff.mp h).2] at hnew
    simp at hnew
    omega
  have hdone : ∀ (answer : Answer) (identified : List TranscriptSegment),
      (∀ limit requested, answer ≠ .tooLarge limit requested) →
      Chunk params total index k ⟨capped ++ (total.drop index).take k,(total.drop index).take k,
        prompt,state.adaptive,answer⟩ ∧
      Carried total (index + k) (computeNextOverlapSegments
        (capped ++ (total.drop index).take k) identified params.maxOverlapSegments) := by
    intro answer identified hanswer
    refine ⟨⟨hanswer,rfl,hpos,hlength,?_,capped,hcapped.earlier,rfl⟩,?_,?_⟩
    · rw [hnew]
      exact hvalid.imp_right validateTokenLimit_iff.mp
    · intro s hs
      rw [htake,List.mem_append]
      exact (List.mem_append.mp (mem_computeNextOverlapSegments hs)).imp_left (hcapped.earlier s)
    · apply nodup_computeNextOverlapSegments
      refine (hcapped.nodup_append htotal).sublist (List.Sublist.map _ ?_)
      exact (List.Sublist.refl capped).append (List.take_sublist k _)
  unfold attempt
  simp only [hpayload,hchunk,false_or,if_neg (by omega : ¬k = 0)]
  cases hanswer : answers state.requests.length with
  | accepted identified => exact ⟨_,rfl,hdone _ identified nofun⟩
  | failed => exact ⟨_,rfl,hdone _ [] nofun⟩
  | tooLarge limit requested =>
    by_cases hk : k ≤ 1
    · simp only [if_pos hk]
      refine ⟨_,rfl,fun h => ?_⟩
      have hmany := (h limit requested rfl).1
      simp only [hnew] at hmany
      omega
    · simp only [if_neg hk]
      cases hshrink : shrink k limit requested with
      | error e =>
        refine ⟨_,rfl,fun h => ?_⟩
        have hrange := (h limit requested rfl).2
        simp only [hnew] at hrange
        obtain ⟨next,hnext⟩ := shrink_of_ratioInRange hrange
        rw [hshrink] at hnext
        cases hnext
      | ok next =>
        obtain ⟨hpos',hlt⟩ := shrink_bounds hshrink
        exact ⟨hpos',by omega,_,rfl,fun h => h limit requested rfl⟩

/-- The loop of `_step` ends. -/
theorem step_spec (htotal : (total.map TranscriptSegment.id).Nodup)
    (hindex : index < total.length) (hoverlap : Carried total index overlap)
    (state : ClassifierState) :
    ∃ out, (∀ fuel, params.numSegmentsPerPrompt < fuel →
        step params answers total overlap index state fuel = some out) ∧
      StepResult params total index state.requests out := by
  have hcapped : Carried total index (applyOverlapCap params.maxOverlapSegments overlap) :=
    hoverlap.sublist (applyOverlapCap_sublist _)
  refine @Loops.run_of_measure _ _ (attempt params answers total _ index)
    (fun s => 0 < s.1 ∧ ∃ rejected, s.2.requests = state.requests ++ rejected ∧
      ∀ r ∈ rejected, ¬r.Answered) _ Prod.fst ?_ ?_ (params.numSegmentsPerPrompt,state)
    ⟨params.numSegmentsPerPrompt_pos,[],by simp,by simp⟩
  · rintro ⟨maxNew,s⟩ s' ⟨hmax,rejected,hrequests,hrejected⟩ hbody
    have hspec := @attempt_spec params answers total _ index htotal hindex hcapped maxNew hmax s
    rw [hbody] at hspec
    obtain ⟨hpos,hlt,request,happend,hrequest⟩ := hspec
    refine ⟨⟨hpos,rejected ++ [request],?_,?_⟩,hlt⟩
    · rw [happend,hrequests,List.append_assoc]
    · intro r hr
      rw [List.mem_append,List.mem_singleton] at hr
      exact hr.elim (hrejected r) (fun he => he ▸ hrequest)
  · rintro ⟨maxNew,s⟩ out ⟨hmax,rejected,hrequests,hrejected⟩ hbody
    have hspec := @attempt_spec params answers total _ index htotal hindex hcapped maxNew hmax s
    rw [hbody] at hspec
    obtain ⟨last,happend,hlast⟩ := hspec
    exact ⟨rejected,last,by rw [happend,hrequests],hrejected,hlast⟩

end

/-- The answered requests split the segments into runs, in order: each has some new segments after
its overlap, and a prompt over the limit only where it has a single new one. -/
structure Covers (params : ClassifyParams) (requests : List Request)
    (segments : List TranscriptSegment) : Prop where
  partition : ((requests.filter (fun r => decide r.Answered)).map Request.newSegments).flatten =
    segments
  nonempty : ∀ r ∈ requests, r.Answered → r.newSegments ≠ []
  withinLimit : ∀ r ∈ requests, r.Answered →
    r.newSegments.length = 1 ∨ r.WithinLimit params
  overlap : ∀ r ∈ requests, r.Answered → ∃ earlier, r.chunkSegments = earlier ++ r.newSegments

section
variable {params : ClassifyParams} {answers : ℕ → Answer} {total overlap : List TranscriptSegment}
  {index : ℕ}

/-- A step that is survived covers the segments it consumes. -/
theorem Covers.step {requests rejected : List Request} {last : Request} {consumed : ℕ}
    (h : Covers params requests (total.take index)) (hrejected : ∀ r ∈ rejected, ¬r.Answered)
    (hlast : Chunk params total index consumed last) :
    Covers params (requests ++ rejected ++ [last]) (total.take (index + consumed)) := by
  have hnone : rejected.filter (fun r => decide r.Answered) = [] := by
    rw [List.filter_eq_nil_iff]
    intro r hr
    simpa using hrejected r hr
  have hcases : ∀ {P : Request → Prop}, (∀ r ∈ requests, r.Answered → P r) → P last →
      ∀ r ∈ requests ++ rejected ++ [last], r.Answered → P r := by
    intro P hbefore hP r hr hanswered
    rw [List.mem_append,List.mem_append,List.mem_singleton] at hr
    rcases hr with (hr | hr) | rfl
    · exact hbefore r hr hanswered
    · exact absurd hanswered (hrejected r hr)
    · exact hP
  refine ⟨?_,hcases h.nonempty ?_,hcases h.withinLimit hlast.withinLimit,hcases h.overlap ?_⟩
  · rw [List.filter_append,List.filter_append,hnone,List.append_nil,List.map_append,
      List.flatten_append,h.partition,List.take_add]
    simp [hlast.answered,hlast.newSegments]
  · intro hnil
    have hlength := congrArg List.length (hlast.newSegments.symm.trans hnil)
    have hpos := hlast.consumed_pos
    have hle := hlast.consumed_le
    rw [List.length_take,List.length_nil] at hlength
    omega
  · obtain ⟨earlier,-,hearlier⟩ := hlast.chunkSegments
    exact ⟨earlier,hearlier⟩

/-- With as many iterations left as there are segments, the loop ends, and it covers the rest of the
transcript if it survives every rejection. -/
theorem classifyLoop_spec (htotal : (total.map TranscriptSegment.id).Nodup) (n : ℕ)
    (hleft : total.length ≤ index + n) (hoverlap : Carried total index overlap)
    {state : ClassifierState} (hcovers : Covers params state.requests (total.take index)) :
    ∃ out, (∀ fuel, params.numSegmentsPerPrompt < fuel →
        classifyLoop params answers total fuel n index overlap state = some out) ∧
      ((∀ r ∈ out.2, r.Survives) → out.1 = .ok () ∧ Covers params out.2 total) := by
  induction n generalizing index overlap state with
  | zero =>
    refine ⟨(.ok (),state.requests),fun _ _ => rfl,fun _ => ⟨rfl,?_⟩⟩
    rwa [List.take_of_length_le (by omega)] at hcovers
  | succ n ih =>
    by_cases hindex : index < total.length
    · obtain ⟨⟨result,state'⟩,hstep,rejected,last,hrequests,hrejected,hresult⟩ :=
        @step_spec params answers total overlap index htotal hindex hoverlap state
      cases result with
      | error e =>
        refine ⟨(.error e,state'.requests),?_,fun hsurvives => ?_⟩
        · intro fuel hfuel
          simp only [classifyLoop,if_pos hindex,hstep fuel hfuel]
        · refine absurd (hsurvives last ?_) hresult
          simp only at hrequests
          simp [hrequests]
      | ok next =>
        obtain ⟨consumed,next⟩ := next
        obtain ⟨hchunk,hcarried⟩ := hresult
        have hcovers' : Covers params state'.requests (total.take (index + consumed)) := by
          simp only at hrequests
          rw [hrequests]
          exact hcovers.step hrejected hchunk
        have hpos := hchunk.consumed_pos
        obtain ⟨out,hloop,hout⟩ := ih (by omega) hcarried hcovers'
        refine ⟨out,?_,hout⟩
        intro fuel hfuel
        simp only [classifyLoop,if_pos hindex,hstep fuel hfuel,if_neg (by omega : ¬consumed = 0)]
        exact hloop fuel hfuel
    · refine ⟨(.ok (),state.requests),?_,fun _ => ⟨rfl,?_⟩⟩
      · intro fuel _
        simp only [classifyLoop,if_neg hindex]
      · rwa [List.take_of_length_le (by omega)] at hcovers

end

/-- Both loops end, whatever the provider answers. If the classification survives the rejections it
gets, its chunks split the whole transcript. -/
theorem classify_covers (params : ClassifyParams) (transcript : Transcript) (answers : ℕ → Answer)
    (adaptive : Option ℤ) :
    ∃ out, (∀ fuel, params.numSegmentsPerPrompt < fuel →
        classify params transcript answers adaptive fuel = some out) ∧
      ((∀ r ∈ out.2, r.Survives) → out.1 = .ok () ∧ Covers params out.2 transcript.rows) := by
  have hnothing : ∀ segments : List TranscriptSegment, segments = [] →
      Covers params [] segments := by
    rintro _ rfl
    exact ⟨rfl,by simp,by simp,by simp⟩
  by_cases hempty : transcript.rows = []
  · refine ⟨(.ok (),[]),?_,fun _ => ⟨rfl,hnothing _ hempty⟩⟩
    intro fuel _
    rw [classify,if_pos hempty]
  · obtain ⟨out,hloop,hout⟩ := @classifyLoop_spec params answers transcript.rows [] 0
      transcript.nodup (transcript.rows.length + 10) (by omega) ⟨by simp,List.nodup_nil⟩
      ⟨adaptive,[]⟩ (hnothing _ rfl)
    refine ⟨out,?_,hout⟩
    intro fuel hfuel
    rw [classify,if_neg hempty]
    exact hloop fuel hfuel

/-- Two segments that go into one prompt. -/
def pairTranscript : Transcript :=
  ⟨[⟨1,0,0,some 1,"first",none⟩,⟨2,1,1,some 2,"second",none⟩],by decide⟩

def pairParams : ClassifyParams := ⟨"",fun _ _ _ => "",2,by decide,0,none⟩

/-- A pair that is rejected goes out as two, and the transcript is covered. -/
example : ∃ out, classify pairParams pairTranscript
      (fun sent => if sent = 0 then .tooLarge 10 20 else .accepted []) none 3 = some out ∧
    (∀ r ∈ out.2, r.Survives) ∧ out.1 = .ok () ∧
    out.2.map (fun r => r.newSegments.map TranscriptSegment.id) = [[1,2],[1],[2]] := by
  have hshrink : shrink 2 10 20 = .ok (1,9) := by decide +kernel
  have hrange : RatioInRange 2 10 20 :=
    ⟨by decide,9,by decide +kernel,ofRat_isSome_iff.mp (by decide +kernel)⟩
  have hrun : classify pairParams pairTranscript
      (fun sent => if sent = 0 then .tooLarge 10 20 else .accepted []) none 3 =
      some (.ok (),[⟨pairTranscript.rows,pairTranscript.rows,"",none,.tooLarge 10 20⟩,
        ⟨pairTranscript.rows.take 1,pairTranscript.rows.take 1,"",some 9,.accepted []⟩,
        ⟨pairTranscript.rows.drop 1,pairTranscript.rows.drop 1,"",some 9,.accepted []⟩]) := by
    simp [classify,classifyLoop,step,Loops.run,attempt,buildChunkPayload,trimChunk,
      combineOverlapSegments,addUnseen,applyOverlapCap,pairParams,pairTranscript,hshrink,
      computeNextOverlapSegments,effectiveLimit,validateTokenLimit,countTokens]
  refine ⟨_,hrun,?_,rfl,rfl⟩
  intro r hr limit requested hanswer
  simp only [List.mem_cons,List.not_mem_nil,or_false] at hr
  rcases hr with rfl | rfl | rfl
  · cases hanswer
    exact ⟨by decide,hrange⟩
  · cases hanswer
  · cases hanswer

/-- A rejection whose limit is too large for a double ends the classification, although it is not
one of a single segment. -/
theorem classify_overflows :
    ∃ out, classify pairParams pairTranscript (fun _ => .tooLarge (2 ^ 1024) 1) none 3 = some out ∧
      (∀ r ∈ out.2, r.newSegments.length = 2) ∧ out.1 = .error .overflow ∧
      ¬Covers pairParams out.2 pairTranscript.rows := by
  have hshrink : shrink 2 (2 ^ 1024) 1 = .error .overflow := by
    have hlimit : ofRat ((2 ^ 1024 : ℕ) : ℚ) = none := by
      rw [ofRat,if_neg]
      unfold InRange
      rw [Nat.cast_pow,Nat.cast_ofNat,not_lt]
      exact sub_le_self _ (pow_nonneg zero_le_two 970)
    rw [shrink,learnedLimit,hlimit]
    rfl
  generalize 2 ^ 1024 = limit at hshrink
  have hrun : classify pairParams pairTranscript (fun _ => .tooLarge limit 1) none 3 =
      some (.error .overflow,[⟨pairTranscript.rows,pairTranscript.rows,"",none,
        .tooLarge limit 1⟩]) := by
    simp [classify,classifyLoop,step,Loops.run,attempt,buildChunkPayload,trimChunk,
      combineOverlapSegments,addUnseen,applyOverlapCap,pairParams,pairTranscript,hshrink]
  refine ⟨_,hrun,by simp [pairTranscript],rfl,?_⟩
  intro h
  have hpartition := h.partition
  simp [Request.Answered,pairTranscript] at hpartition

end Podly.Classifier
