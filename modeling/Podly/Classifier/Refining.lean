import Podly.Classifier.Blocks
import Podly.Classifier.Marks
import Podly.Lists.Replaced

/-! The marks that the refinement of the boundaries leaves, when every call of the writer succeeds
and when one of them fails. -/
namespace Podly.Classifier
open Store Processes Process Lists

/-- A block that is refined, its window, and the model call of its new marks. -/
structure Refined where
  block : Block
  window : ℚ × ℚ
  modelCallId : ℕ

/-- The marks of a block: the segments, each with the call that it is marked under. -/
def Block.marks (block : Block) : Set (ℤ × ℕ) :=
  {mark | ∃ row ∈ block.rows, (row.segment.id,row.identification.modelCallId) = mark}

/-- The marks that are stored. -/
def marksOf (t : IdentificationTable) : Set (ℤ × ℕ) := {mark | MarkedBy t mark.1 mark.2}

/-- The index `ix_identification_segment_call_label`. -/
def UniqueMarks (t : IdentificationTable) : Prop :=
  (t.rows.map (fun ad => (ad.transcriptSegmentId,ad.modelCallId))).Nodup

instance (t : IdentificationTable) : Decidable (UniqueMarks t) :=
  inferInstanceAs (Decidable (List.Nodup _))

namespace Refined

/-- A segment overlaps the refined window. -/
def Covers (r : Refined) (segment : TranscriptSegment) : Prop :=
  segment.startTime ≤ r.window.2 ∧ r.window.1 ≤ refinementEnd segment

/-- `delete_ids`. -/
def deleteIds (r : Refined) : List ℕ := r.block.rows.map (fun row => row.identification.id)

end Refined

namespace Setup
variable (setup : Setup)

/-- `new_identifications`. -/
def newIdentifications (r : Refined) : List NewIdentification :=
  refinedIdentifications setup.transcript r.block r.window r.modelCallId

/-- The marks that a refined block is given. -/
def newMarks (r : Refined) : Set (ℤ × ℕ) :=
  {mark | mark.2 = r.modelCallId ∧ ∃ segment ∈ setup.segments, segment.id = mark.1 ∧
    r.Covers segment}

/-- The calls of `_replace_identifications_batched`. -/
def replaceCalls (r : Refined) : List Action :=
  .replaceIdentifications r.deleteIds []::
    (batched setup.batchSize (setup.newIdentifications r)).map .insertIdentifications

/-- What a refined block makes of the identifications. -/
def replaceIn (t : IdentificationTable) (r : Refined) : IdentificationTable :=
  (setup.newIdentifications r).foldl insertIdentification
    (t.deleteWhere (fun old => old.id ∈ r.deleteIds))

/-- The blocks that are refined, with what the refiner returns for each. -/
def refinedFrom (refiner : Refiner) : List Block → Records → List Refined
  | [], _ => []
  | block::blocks, records =>
    if block.confidence < 6/10 ∨ block.stop - block.start < 15 then
      refinedFrom refiner blocks records
    else
      let request := refine setup.provider setup.llmModel refiner setup.segments block
      let reached := request.final Records.act records
      match reached.modelCalls.table.get block.first.identification.modelCallId with
      | none => refinedFrom refiner blocks reached
      | some call =>
        let r : Refined := ⟨block,request.result Records.act records,call.id⟩
        r::refinedFrom refiner blocks (run Records.act reached (setup.replaceCalls r))

def blocks (records : Records) : List Block :=
  groupIntoBlocks (adIdentifications setup.rowOrder setup.transcript records.identifications)

def refined (records : Records) : List Refined :=
  match setup.refiner with
  | none => []
  | some refiner => setup.refinedFrom refiner (setup.blocks records) records

end Setup

/-- The actions before the call that changes the identifications for the `n`-th time, counted from
zero. -/
def beforeCall : ℕ → List Action → List Action
  | _, [] => []
  | n, action::actions =>
    if Quiet action then action::beforeCall n actions
    else
      match n with
      | 0 => []
      | n + 1 => action::beforeCall n actions

namespace Setup
variable (setup : Setup)

/-- The identifications after `_refine_boundaries` where the call of the writer that changes them for
the `n`-th time fails, and changes nothing. -/
def marksAfter (records : Records) (n : ℕ) : IdentificationTable :=
  (run Records.act records
    (beforeCall n (setup.refineBoundaries.trace Records.act records))).identifications

/-- The refined block that the `n`-th call belongs to, the ones before it, and how many of its calls
come before. -/
def locate : List Refined → ℕ → Option (List Refined × Refined × ℕ)
  | [], _ => none
  | r::rs, n =>
    if n < (setup.replaceCalls r).length then some ([],r,n)
    else (locate rs (n - (setup.replaceCalls r).length)).map (fun found => (r::found.1,found.2))

/-- The segments that are to be marked: those that overlap a refined window, and those of a block
that is not refined. -/
def ToMark (records : Records) (segment : TranscriptSegment) : Prop :=
  (∃ r ∈ setup.refined records, r.Covers segment) ∨
    ∃ block ∈ setup.blocks records, block ∉ (setup.refined records).map Refined.block ∧
      segment ∈ block.segments

/-- Refinement keeps one mark for each segment to mark and none for another. Where a call fails, the
segments of its block have their old identifications or the new ones. -/
def KeepsMarks (records : Records) (n : ℕ) : Prop :=
  let after := setup.marksAfter records n
  match setup.locate (setup.refined records) n with
  | none => ∀ segment ∈ setup.segments,
    (setup.ToMark records segment →
      ∃! ad, ad ∈ after.rows ∧ ad.transcriptSegmentId = segment.id) ∧
    (¬setup.ToMark records segment → ¬Marked after segment.id)
  | some (_,r,_) => ∀ segment ∈ r.block.segments,
    (∃ row ∈ r.block.rows, row.segment = segment ∧ row.identification ∈ after.rows) ∨
      MarkedBy after segment.id r.modelCallId

/-- A mark is left by refined blocks: it is stored and in none of them, or one is given it and it is
not in any later one. -/
def Leaves (t : IdentificationTable) (rs : List Refined) (mark : ℤ × ℕ) : Prop :=
  (mark ∈ marksOf t ∧ ∀ r ∈ rs, mark ∉ r.block.marks) ∨
    ∃ before r after, rs = before ++ r::after ∧ mark ∈ setup.newMarks r ∧
      ∀ later ∈ after, mark ∉ later.block.marks

/-- Every segment to mark is left a mark under one call. Where a call fails, it is the one that
deletes, or every segment of the block has its row in a batch before that or is left a mark under the
call of the block, which the block has not. -/
def LeavesOne (records : Records) (n : ℕ) : Prop :=
  match setup.locate (setup.refined records) n with
  | none => ∀ segment ∈ setup.segments, setup.ToMark records segment →
    ∃! modelCallId, setup.Leaves records.identifications (setup.refined records)
      (segment.id,modelCallId)
  | some (before,r,n) => n = 0 ∨ ∀ segment ∈ r.block.segments,
    (∃ new ∈ ((batched setup.batchSize (setup.newIdentifications r)).take (n - 1)).flatten,
      new.transcriptSegmentId = segment.id) ∨
    setup.Leaves records.identifications before (segment.id,r.modelCallId) ∧
      (segment.id,r.modelCallId) ∉ r.block.marks

end Setup

section Marks
variable {t : IdentificationTable} {new : NewIdentification} {rows : List NewIdentification}
  {ad : Identification} {segmentId : ℤ}

theorem UniqueMarks.insertIdentification (h : UniqueMarks t) (new : NewIdentification) :
    UniqueMarks (insertIdentification t new) := by
  rcases insertIdentification_cases t new with ⟨-,heq⟩ | ⟨hnot,id,heq⟩
  · rwa [heq]
  · rw [UniqueMarks,heq,List.map_append,List.nodup_append]
    refine ⟨h,by simp,?_⟩
    intro a ha b hb
    obtain ⟨ad,had,rfl⟩ := List.mem_map.mp ha
    obtain rfl := List.mem_singleton.mp hb
    intro hsame
    obtain ⟨hsegment,hcall⟩ := Prod.mk.inj hsame
    exact hnot ⟨ad,had,hsegment,hcall⟩

theorem UniqueMarks.insertIdentifications (h : UniqueMarks t) (rows : List NewIdentification) :
    UniqueMarks (rows.foldl Classifier.insertIdentification t) :=
  List.foldlRecOn rows Classifier.insertIdentification h
    (fun _ h new _ => h.insertIdentification new)

theorem UniqueMarks.deleteWhere (h : UniqueMarks t) (p : Identification → Bool) :
    UniqueMarks (t.deleteWhere p) := h.sublist (List.filter_sublist.map _)

theorem UniqueMarks.eq {ad other : Identification} (h : UniqueMarks t) (had : ad ∈ t.rows)
    (hother : other ∈ t.rows) (hsegment : ad.transcriptSegmentId = other.transcriptSegmentId)
    (hcall : ad.modelCallId = other.modelCallId) : ad = other :=
  List.inj_on_of_nodup_map h had hother (Prod.ext hsegment hcall)

/-- A segment has one identification when it is marked under one call. -/
theorem existsUnique_identification (h : UniqueMarks t) :
    (∃! ad, ad ∈ t.rows ∧ ad.transcriptSegmentId = segmentId) ↔
      ∃! modelCallId, MarkedBy t segmentId modelCallId := by
  constructor
  · rintro ⟨ad,⟨had,hsegment⟩,honly⟩
    refine ⟨ad.modelCallId,⟨ad,had,hsegment,rfl⟩,?_⟩
    rintro _ ⟨other,hother,hsame,rfl⟩
    rw [honly other ⟨hother,hsame⟩]
  · rintro ⟨modelCallId,⟨ad,had,hsegment,hcall⟩,honly⟩
    refine ⟨ad,⟨had,hsegment⟩,?_⟩
    rintro other ⟨hother,hsame⟩
    have hid := honly other.modelCallId ⟨other,hother,hsame,rfl⟩
    exact h.eq hother had (hsame.trans hsegment.symm) (hid.trans hcall.symm)

end Marks

/-- The marks of the blocks to refine are stored, each in one block. -/
structure Pending (t : IdentificationTable) (rs : List Refined) : Prop where
  unique : UniqueMarks t
  stored : ∀ r ∈ rs, ∀ row ∈ r.block.rows, row.identification ∈ t.rows ∧
    row.segment.id = row.identification.transcriptSegmentId
  apart : (rs.flatMap Refined.deleteIds).Nodup

section Replace
variable {t : IdentificationTable} {r : Refined} {rs before : List Refined} {mark : ℤ × ℕ}

/-- Deleting a block deletes its marks. -/
theorem Pending.markedBy_deleteWhere (h : Pending t (r::rs)) :
    mark ∈ marksOf (t.deleteWhere (fun old => old.id ∈ r.deleteIds)) ↔
      mark ∈ marksOf t ∧ mark ∉ r.block.marks := by
  constructor
  · rintro ⟨ad,had,hsegment,hcall⟩
    obtain ⟨had,hkept⟩ := Table.mem_deleteWhere.mp had
    refine ⟨⟨ad,had,hsegment,hcall⟩,?_⟩
    rintro ⟨row,hrow,rfl⟩
    obtain ⟨hstored,hid⟩ := h.stored r List.mem_cons_self row hrow
    obtain rfl := h.unique.eq had hstored (hsegment.trans hid) hcall
    exact of_decide_eq_false hkept (List.mem_map_of_mem hrow)
  · rintro ⟨⟨ad,had,hsegment,hcall⟩,hnot⟩
    refine ⟨ad,Table.mem_deleteWhere.mpr ⟨had,?_⟩,hsegment,hcall⟩
    rw [decide_eq_false_iff_not]
    intro hmem
    obtain ⟨row,hrow,hid⟩ := List.mem_map.mp hmem
    obtain ⟨hstored,hrowSegment⟩ := h.stored r List.mem_cons_self row hrow
    have hsame := Table.eq_of_key_eq hstored had hid
    refine hnot ⟨row,hrow,Prod.ext ?_ ?_⟩
    · exact hrowSegment.trans ((congrArg _ hsame).trans hsegment)
    · exact (congrArg _ hsame).trans hcall

/-- After a block is replaced by rows, the marks of the other blocks are still stored. -/
theorem Pending.replace (h : Pending t (r::rs)) (rows : List NewIdentification) :
    Pending (rows.foldl insertIdentification
      (t.deleteWhere (fun old => old.id ∈ r.deleteIds))) rs := by
  have hapart := h.apart
  rw [List.flatMap_cons,List.nodup_append] at hapart
  refine ⟨(h.unique.deleteWhere _).insertIdentifications _,?_,hapart.2.1⟩
  intro other hother row hrow
  obtain ⟨hstored,hsegment⟩ := h.stored other (List.mem_cons_of_mem _ hother) row hrow
  refine ⟨(insertIdentifications_sublist _ _).mem ?_,hsegment⟩
  refine Table.mem_deleteWhere.mpr ⟨hstored,?_⟩
  rw [decide_eq_false_iff_not]
  intro hmem
  exact hapart.2.2 _ hmem _ (List.mem_flatMap_of_mem hother (List.mem_map_of_mem hrow)) rfl

end Replace

namespace Setup
variable {setup : Setup} {t : IdentificationTable} {r : Refined} {rs before : List Refined}
  {mark : ℤ × ℕ} {records : Records}

theorem mem_newMarks : mark ∈ setup.newMarks r ↔ ∃ new ∈ setup.newIdentifications r,
    new.transcriptSegmentId = mark.1 ∧ new.modelCallId = mark.2 := by
  obtain ⟨segmentId,modelCallId⟩ := mark
  simp only [newMarks,newIdentifications,refinedIdentifications,Set.mem_ofPred_eq,List.mem_map,
    List.mem_filter,decide_eq_true_eq,Refined.Covers,segments]
  constructor
  · rintro ⟨rfl,segment,hmem,rfl,hcovers⟩
    exact ⟨_,⟨segment,⟨hmem,hcovers⟩,rfl⟩,rfl,rfl⟩
  · rintro ⟨new,⟨segment,⟨hmem,hcovers⟩,rfl⟩,hid,hcall⟩
    exact ⟨hcall.symm,segment,hmem,hid,hcovers⟩

/-- What a refined block makes of the marks. -/
theorem marksOf_replaceIn (h : Pending t (r::rs)) : marksOf (setup.replaceIn t r) =
    replace (fun r => r.block.marks) setup.newMarks (marksOf t) r := by
  apply Set.ext
  intro mark
  rw [mem_replace,← h.markedBy_deleteWhere,mem_newMarks]
  exact markedBy_insertIdentifications

/-- What blocks that are refined one after the other make of the marks. -/
theorem marksOf_foldl_replaceIn (h : Pending t (before ++ rs)) :
    Pending (before.foldl setup.replaceIn t) rs ∧
      marksOf (before.foldl setup.replaceIn t) =
        replaced (fun r => r.block.marks) setup.newMarks (marksOf t) before := by
  induction before generalizing t with
  | nil => exact ⟨h,rfl⟩
  | cons r before ih =>
    obtain ⟨hpending,hmarks⟩ := ih (h.replace (setup.newIdentifications r))
    refine ⟨hpending,?_⟩
    rw [List.foldl_cons]
    refine hmarks.trans ?_
    rw [replaced,replaced,List.foldl_cons,← marksOf_replaceIn h]
    rfl

theorem mem_marksOf_foldl_replaceIn (h : Pending t (before ++ rs)) :
    mark ∈ marksOf (before.foldl setup.replaceIn t) ↔ setup.Leaves t before mark := by
  rw [(marksOf_foldl_replaceIn h).2,mem_replaced]
  rfl

end Setup

/-! The calls of the writer -/

theorem filter_beforeCall (n : ℕ) (actions : List Action) :
    (beforeCall n actions).filter (¬Quiet ·) = (actions.filter (¬Quiet ·)).take n := by
  induction actions generalizing n with
  | nil => simp [beforeCall]
  | cons action actions ih =>
    rw [beforeCall.eq_def]
    by_cases hquiet : Quiet action
    · simp only [hquiet,if_true,List.filter_cons,not_true,decide_false,Bool.false_eq_true,
        if_false,ih]
    · cases n with
      | zero => simp [hquiet]
      | succ n =>
        simp only [hquiet,if_false,List.filter_cons,not_false_eq_true,decide_true,if_true,ih,
          List.take_succ_cons]

namespace Setup
variable {setup : Setup} {records : Records} {r : Refined} {rs before : List Refined}

theorem trace_insertIdentificationsBatched (rows : List NewIdentification) :
    (setup.insertIdentificationsBatched rows).trace Records.act records =
      (batched setup.batchSize rows).map .insertIdentifications :=
  trace_each_perform Action.insertIdentifications (batched setup.batchSize rows)

theorem trace_applyRefinement (block : Block) (window : ℚ × ℚ) (modelCallId : ℕ) :
    (setup.applyRefinement block window modelCallId).trace Records.act records =
      setup.replaceCalls ⟨block,window,modelCallId⟩ := by
  rw [applyRefinement,trace_perform_bind,trace_insertIdentificationsBatched]
  rfl

theorem filter_replaceCalls (r : Refined) :
    (setup.replaceCalls r).filter (¬Quiet ·) = setup.replaceCalls r := by
  apply List.filter_eq_self.mpr
  intro action haction
  rcases List.mem_cons.mp haction with rfl | hbatch
  · rfl
  · obtain ⟨batch,-,rfl⟩ := List.mem_map.mp hbatch
    rfl

theorem filter_trace_of_quiet {α : Type} {p : Classification α} (h : p.Labels Quiet)
    (records : Records) : (p.trace Records.act records).filter (¬Quiet ·) = [] := by
  apply List.filter_eq_nil_iff.mpr
  intro action haction
  simpa using h.mem_trace haction

/-- The calls of the refinement are those of the refined blocks, one after the other. -/
theorem filter_trace_refineBlocks (refiner : Refiner) (blocks : List Block)
    (boundaries : List AdBoundary) :
    ((setup.refineBlocks refiner blocks boundaries).trace Records.act records).filter (¬Quiet ·) =
      (setup.refinedFrom refiner blocks records).flatMap setup.replaceCalls := by
  induction blocks generalizing records boundaries with
  | nil => rfl
  | cons block blocks ih =>
    rw [refineBlocks,refinedFrom]
    split
    · exact ih boundaries
    · rw [trace_bind,List.filter_append,filter_trace_of_quiet (refine_quiet _ _ _ _),
        List.nil_append,trace_store_bind]
      dsimp only
      generalize (refine _ _ _ _ block).final Records.act records = reached
      cases reached.modelCalls.table.get block.first.identification.modelCallId with
      | none => exact ih boundaries
      | some call =>
        dsimp only
        rw [trace_bind,List.filter_append,trace_applyRefinement,filter_replaceCalls,ih,
          List.flatMap_cons,final,trace_applyRefinement]

theorem filter_trace_refineBoundaries :
    (setup.refineBoundaries.trace Records.act records).filter (¬Quiet ·) =
      (setup.refined records).flatMap setup.replaceCalls := by
  rw [refineBoundaries,refined]
  cases setup.refiner with
  | none => rfl
  | some refiner =>
    dsimp only
    rw [trace_store_bind,trace_bind,List.filter_append,filter_trace_refineBlocks]
    exact List.append_nil _

theorem run_inserts (batches : List (List NewIdentification)) :
    (run Records.act records (batches.map .insertIdentifications)).identifications =
      batches.flatten.foldl insertIdentification records.identifications := by
  induction batches generalizing records with
  | nil => rfl
  | cons batch batches ih =>
    rw [List.map_cons,run_cons,ih,List.flatten_cons,List.foldl_append]
    rfl

/-- The calls of a block, up to some batch. -/
theorem run_take_replaceCalls (records : Records) (r : Refined) (n : ℕ) :
    (run Records.act records ((setup.replaceCalls r).take (n + 1))).identifications =
      ((batched setup.batchSize (setup.newIdentifications r)).take n).flatten.foldl
        insertIdentification
        (records.identifications.deleteWhere (fun old => old.id ∈ r.deleteIds)) := by
  rw [replaceCalls,List.take_succ_cons,run_cons,← List.map_take,run_inserts]
  rfl

theorem run_replaceCalls : (run Records.act records (setup.replaceCalls r)).identifications =
    setup.replaceIn records.identifications r := by
  rw [← List.take_of_length_le (Nat.le_succ (setup.replaceCalls r).length),run_take_replaceCalls,
    List.take_of_length_le (by simp [replaceCalls]),flatten_batched setup.batchSize_pos]
  rfl

theorem run_flatMap_replaceCalls (rs : List Refined) :
    (run Records.act records (rs.flatMap setup.replaceCalls)).identifications =
      rs.foldl setup.replaceIn records.identifications := by
  induction rs generalizing records with
  | nil => rfl
  | cons r rs ih => rw [List.flatMap_cons,run_append,ih,run_replaceCalls,List.foldl_cons]

end Setup

namespace Setup
variable {setup : Setup} {records : Records} {r : Refined} {rs before : List Refined}

theorem refinedFrom_sublist (refiner : Refiner) (blocks : List Block) (records : Records) :
    ((setup.refinedFrom refiner blocks records).map Refined.block).Sublist blocks := by
  induction blocks generalizing records with
  | nil => exact List.Sublist.refl _
  | cons block blocks ih =>
    rw [refinedFrom]
    split
    · exact (ih records).cons block
    · dsimp only
      split
      · exact (ih _).cons block
      · exact (ih _).cons_cons block

theorem refined_sublist (records : Records) :
    ((setup.refined records).map Refined.block).Sublist (setup.blocks records) := by
  rw [refined]
  split
  · exact List.nil_sublist _
  · exact refinedFrom_sublist _ _ _

theorem adIdentifications_nodup (t : IdentificationTable) :
    ((adIdentifications setup.rowOrder setup.transcript t).map (fun row => row.identification.id)).Nodup := by
  let joined := t.rows.filterMap fun identification =>
    (setup.transcript.segments.get identification.transcriptSegmentId).map
      (fun segment => (⟨identification,segment⟩ : AdRow))
  have hsub : (joined.map AdRow.identification).Sublist t.rows := by
    unfold joined
    induction t.rows with
    | nil => exact List.Sublist.refl _
    | cons identification rows ih =>
      rw [List.filterMap_cons]
      cases setup.transcript.segments.get identification.transcriptSegmentId with
      | none => exact ih.cons identification
      | some segment => exact ih.cons_cons identification
  have h := t.nodup.sublist (hsub.map Identification.id)
  rw [List.map_map] at h
  exact ((setup.rowOrder.perm joined).map _).nodup_iff.mpr h

/-- What is stored when the refinement begins. -/
theorem pending_refined (h : UniqueMarks records.identifications) :
    Pending records.identifications (setup.refined records) := by
  refine ⟨h,?_,?_⟩
  · intro r hr row hrow
    have hblock := (refined_sublist records).mem (List.mem_map_of_mem hr)
    have hmem := (mem_adIdentifications.mp (mem_groupIntoBlocks hblock row hrow))
    exact ⟨hmem.1,hmem.2.2⟩
  · have hrows := (flatMap_rows_groupIntoBlocks
      (adIdentifications setup.rowOrder setup.transcript records.identifications)).map
        (fun row => row.identification.id)
    have hnodup := hrows.nodup_iff.mpr (adIdentifications_nodup _)
    rw [List.map_flatMap] at hnodup
    have hsub := (setup.refined_sublist records).flatMap
      (fun block => block.rows.map (fun row => row.identification.id))
    rw [List.flatMap_map] at hsub
    exact hnodup.sublist hsub

/-- The calls before the `n`-th one: those of the blocks before its block, and the earlier ones of its
block. -/
theorem locate_spec (rs : List Refined) (n : ℕ) :
    match setup.locate rs n with
    | none => (rs.flatMap setup.replaceCalls).take n = rs.flatMap setup.replaceCalls
    | some (before,r,k) => (∃ after, rs = before ++ r::after) ∧
        (rs.flatMap setup.replaceCalls).take n =
          before.flatMap setup.replaceCalls ++ (setup.replaceCalls r).take k := by
  induction rs generalizing n with
  | nil => exact List.take_nil
  | cons r rs ih =>
    rw [locate,List.flatMap_cons]
    by_cases hn : n < (setup.replaceCalls r).length
    · rw [if_pos hn]
      exact ⟨⟨rs,rfl⟩,List.take_append_of_le_length hn.le⟩
    · rw [if_neg hn]
      have ih := ih (n - (setup.replaceCalls r).length)
      rw [List.take_append,List.take_of_length_le (not_lt.mp hn)]
      cases hfound : setup.locate rs (n - (setup.replaceCalls r).length) with
      | none =>
        rw [hfound] at ih
        exact congrArg (setup.replaceCalls r ++ ·) ih
      | some found =>
        rw [hfound] at ih
        obtain ⟨⟨after,hafter⟩,htake⟩ := ih
        refine ⟨⟨after,congrArg (r::·) hafter⟩,?_⟩
        rw [htake,List.flatMap_cons,List.append_assoc]

theorem marksAfter_eq (records : Records) (n : ℕ) : setup.marksAfter records n =
    (run Records.act records
      (((setup.refined records).flatMap setup.replaceCalls).take n)).identifications := by
  rw [marksAfter,run_identifications _ rfl,filter_beforeCall,filter_trace_refineBoundaries]

/-- The rows of a batch are under the call of the block. -/
theorem modelCallId_of_mem_batch {n : ℕ} {new : NewIdentification}
    (h : new ∈ ((batched setup.batchSize (setup.newIdentifications r)).take n).flatten) :
    new.modelCallId = r.modelCallId := by
  have hmem := (List.take_sublist n _).flatten.mem h
  rw [flatten_batched setup.batchSize_pos] at hmem
  obtain ⟨segment,-,rfl⟩ := List.mem_map.mp hmem
  rfl

/-- A segment that is marked in the end is one to mark. -/
theorem toMark_of_leaves {segment : TranscriptSegment} (hsegment : segment ∈ setup.segments)
    {modelCallId : ℕ} (h : setup.Leaves records.identifications (setup.refined records)
      (segment.id,modelCallId)) : setup.ToMark records segment := by
  rcases h with ⟨⟨ad,had,hid,rfl⟩,hnone⟩ | ⟨before,r,after,hsplit,⟨-,other,hother,hid,hcovers⟩,-⟩
  · have hrow : (⟨ad,segment⟩ : AdRow) ∈
        adIdentifications setup.rowOrder setup.transcript records.identifications :=
      mem_adIdentifications.mpr ⟨had,hsegment,hid.symm⟩
    obtain ⟨block,hblock,hrow⟩ := exists_block_of_mem hrow
    refine .inr ⟨block,hblock,?_,List.mem_map_of_mem hrow⟩
    intro hrefined
    obtain ⟨r,hr,rfl⟩ := List.mem_map.mp hrefined
    exact hnone r hr ⟨_,hrow,rfl⟩
  · obtain rfl := Table.eq_of_key_eq hother hsegment hid
    refine .inl ⟨r,?_,hcovers⟩
    rw [hsplit]
    exact List.mem_append_right _ List.mem_cons_self

/-- After some batches of a block its segments have their rows, or a mark that was left to them. -/
theorem markedBy_take_replaceCalls {after : List Refined} {n : ℕ} {segmentId : ℤ}
    (h : Pending records.identifications (before ++ r::after)) :
    MarkedBy (run Records.act records (before.flatMap setup.replaceCalls ++
        (setup.replaceCalls r).take (n + 1))).identifications segmentId r.modelCallId ↔
      (∃ new ∈ ((batched setup.batchSize (setup.newIdentifications r)).take n).flatten,
        new.transcriptSegmentId = segmentId) ∨
      setup.Leaves records.identifications before (segmentId,r.modelCallId) ∧
        (segmentId,r.modelCallId) ∉ r.block.marks := by
  obtain ⟨hpending,-⟩ := setup.marksOf_foldl_replaceIn h
  have hdeleted : (segmentId,r.modelCallId) ∈ marksOf _ ↔ _ := hpending.markedBy_deleteWhere
  rw [mem_marksOf_foldl_replaceIn h] at hdeleted
  rw [run_append,run_take_replaceCalls,run_flatMap_replaceCalls,markedBy_insertIdentifications,
    or_comm]
  refine or_congr (exists_congr fun new => and_congr_right fun hnew => ?_) hdeleted
  exact and_iff_left (modelCallId_of_mem_batch hnew)

/-- Once the block is deleted, its segments have their old identifications no more. -/
theorem markedBy_of_mem_take_replaceCalls {n : ℕ} {row : AdRow} (hrow : row ∈ r.block.rows)
    (hsegment : row.segment.id = row.identification.transcriptSegmentId)
    (hmem : row.identification ∈
      (run Records.act records ((setup.replaceCalls r).take (n + 1))).identifications.rows) :
    MarkedBy (run Records.act records ((setup.replaceCalls r).take (n + 1))).identifications
      row.segment.id r.modelCallId := by
  rw [run_take_replaceCalls] at hmem ⊢
  rcases mem_insertIdentifications hmem with hkept | ⟨new,hnew,hcall⟩
  · exact absurd (List.mem_map_of_mem (f := fun row : AdRow => row.identification.id) hrow)
      (of_decide_eq_false (Table.mem_deleteWhere.mp hkept).2)
  · exact ⟨_,hmem,hsegment.symm,hcall.trans (modelCallId_of_mem_batch hnew)⟩

end Setup

section Interrupted

/-- A refiner that finds the block as it is. -/
def unmovedBlock : Setup where
  params := ⟨"",fun _ _ _ => "chunk",2,Nat.two_pos,0,none⟩
  transcript := PostTranscript.twoSegments
  rowOrder := .bySegment
  llmModel := "model"
  adaptive := none
  minConfidence := 1/2
  maxRetries := 1
  testMode := false
  batchSize := defaultWriterBatchSize
  batchSize_pos := defaultWriterBatchSize_pos
  cleanAndParseModelOutput := fun _ => none
  tooLargeFromMessage := fun _ => none
  analyze := fun _ => ⟨false,false,false⟩
  refiner := some ⟨fun _ _ => "refine",fun block _ _ => ([],(block.start,block.stop)),
    fun block _ => (block.start,block.stop)⟩
  repeatAds := none
  provider := fun _ _ => ⟨[],.content "unmoved"⟩

/-- Both segments are marked under the call of their chunk. -/
def markedRecords : Records :=
  run Records.act Records.empty [.upsertModelCall .chunk ⟨0,1,"model"⟩ "chunk",
    .insertIdentifications [⟨0,1,9/10⟩,⟨1,1,9/10⟩]]

end Interrupted

end Podly.Classifier
