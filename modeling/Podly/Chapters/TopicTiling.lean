import Mathlib.Data.List.Perm.Subperm
import Podly.Chapters.TopicPlan

/-! When the chapters of a topic plan tile the audio from the first block on. -/
namespace Podly.Chapters
open Intervals

/-- The chapters tile the audio: they start at blocks, in order and the first at the first one, each
ends where the next one starts, and all but the last two lie a gap apart. -/
structure Tiles (blocks : List TopicBlock) (totalDurationMs minChapterGapMs : ℤ)
    (chapters : List Chapter) : Prop where
  increasing : chapters.Pairwise (fun a b => a.startTimeMs < b.startTimeMs)
  first : ∀ c ∈ chapters.head?, ∀ b ∈ blocks.head?, c.startTimeMs = b.startMs
  contiguous : chapters.IsChain (fun a b => a.endTimeMs = b.startTimeMs)
  lastEnds : ∀ c ∈ chapters.getLast?, c.endTimeMs = max c.startTimeMs totalDurationMs
  atBlocks : ∃ used : List TopicBlock, used.Sublist blocks ∧
    chapters.map Chapter.startTimeMs = used.map TopicBlock.startMs
  spaced : chapters.dropLast.IsChain
    (fun a b => minChapterGapMs ≤ b.startTimeMs - a.startTimeMs)

/-- The plan names some block. -/
def Planned (blocks : List TopicBlock) (plan : List (ℤ × String)) : Prop :=
  ∃ e ∈ plan, ∃ b ∈ blocks, b.blockIndex = e.1

instance (blocks : List TopicBlock) (plan : List (ℤ × String)) : Decidable (Planned blocks plan) :=
  inferInstanceAs (Decidable (∃ e ∈ plan, _))

/-- The blocks that the plan names, with block 0. -/
def chosen (blocks : List TopicBlock) (plan : List (ℤ × String)) : List TopicBlock :=
  blocks.filter (fun b => decide (b.blockIndex = 0 ∨ ∃ e ∈ plan, e.1 = b.blockIndex))

/-- A plan can be tiled: it names no block; or block 0 is there, or the sidecar does without it, and
either one block is chosen for a long episode, which gives no chapters, or the first block is
chosen and does not start before the audio. -/
def CanTile (sidecar : Bool) (blocks : List TopicBlock) (plan : List (ℤ × String))
    (totalDurationMs : ℤ) : Prop :=
  ¬Planned blocks plan ∨ (sidecar ∨ ∃ b ∈ blocks, b.blockIndex = 0) ∧
    ((chosen blocks plan).length = 1 ∧ 20 * 60 * 1000 ≤ totalDurationMs ∨
      ∃ b ∈ blocks.head?, b ∈ chosen blocks plan ∧ 0 ≤ b.startMs)

section Normalized
variable {L : Letters} {sidecar : Bool} {blocks : List TopicBlock} {plan : List (ℤ × String)}
  {normalized : List PlanEntry}

theorem eq_of_blockIndex_eq (hindices : blocks.Pairwise (fun a b => a.blockIndex < b.blockIndex))
    {a b : TopicBlock} (ha : a ∈ blocks) (hb : b ∈ blocks) (h : a.blockIndex = b.blockIndex) :
    a = b := by
  have hnodup : (blocks.map TopicBlock.blockIndex).Nodup :=
    List.pairwise_map.mpr (hindices.imp (fun h => h.ne))
  exact List.inj_on_of_nodup_map hnodup ha hb h

theorem mem_chosen {b : TopicBlock} : b ∈ chosen blocks plan ↔
    b ∈ blocks ∧ (b.blockIndex = 0 ∨ ∃ e ∈ plan, e.1 = b.blockIndex) := by
  simp [chosen]

theorem mem_sorted_plan {e : ℤ × String} : e ∈ sortByKey Prod.fst plan ↔ e ∈ plan :=
  mem_sortByKey Prod.fst plan e

/-- The valid entries are for the planned blocks, in their order. -/
theorem planned_iff_validEntries : Planned blocks plan ↔
    validEntries blocks [] (sortByKey Prod.fst plan) ≠ [] := by
  constructor
  · rintro ⟨e,he,b,hb,hindex⟩
    obtain ⟨entry,hentry,-⟩ :=
      exists_mem_validEntries (mem_sorted_plan.mpr he) hb hindex List.not_mem_nil
    exact List.ne_nil_of_mem hentry
  · intro hne
    obtain ⟨entry,hentry⟩ := List.exists_mem_of_ne_nil _ hne
    obtain ⟨hmem,-,e,he,hindex⟩ := mem_validEntries hentry
    exact ⟨e,mem_sorted_plan.mp he,entry.1,hmem,hindex.symm⟩

/-- The entries are in order, each for a block, and the blocks are the chosen ones. -/
structure Normalized (blocks : List TopicBlock) (plan : List (ℤ × String))
    (normalized : List PlanEntry) : Prop where
  increasing : normalized.Pairwise (fun a b => a.1.blockIndex < b.1.blockIndex)
  subset : ∀ entry ∈ normalized, entry.1 ∈ chosen blocks plan
  complete : ∀ b ∈ chosen blocks plan, ∃ entry ∈ normalized, entry.1.blockIndex = b.blockIndex

theorem validEntries_subset {entry : PlanEntry}
    (h : entry ∈ validEntries blocks [] (sortByKey Prod.fst plan)) :
    entry.1 ∈ chosen blocks plan := by
  obtain ⟨hmem,-,e,he,hindex⟩ := mem_validEntries h
  exact mem_chosen.mpr ⟨hmem,.inr ⟨e,mem_sorted_plan.mp he,hindex⟩⟩

theorem validEntries_complete {b : TopicBlock} {e : ℤ × String} (hb : b ∈ blocks) (he : e ∈ plan)
    (hindex : e.1 = b.blockIndex) :
    ∃ entry ∈ validEntries blocks [] (sortByKey Prod.fst plan),
      entry.1.blockIndex = b.blockIndex := by
  obtain ⟨entry,hentry,h⟩ :=
    exists_mem_validEntries (mem_sorted_plan.mpr he) hb hindex.symm List.not_mem_nil
  exact ⟨entry,hentry,h.trans hindex⟩

theorem normalizeTopicPlanEntries_eq_none : normalizeTopicPlanEntries L sidecar blocks plan = none ↔
    Planned blocks plan ∧ ¬(sidecar ∨ ∃ b ∈ blocks, b.blockIndex = 0) := by
  rw [planned_iff_validEntries,normalizeTopicPlanEntries]
  cases hvalid : validEntries blocks [] (sortByKey Prod.fst plan) with
  | nil => simp
  | cons first rest =>
    have hfirst := (mem_validEntries (hvalid ▸ List.mem_cons_self :
      first ∈ validEntries blocks [] (sortByKey Prod.fst plan))).1
    simp only [ne_eq,reduceCtorEq,not_false_eq_true,true_and]
    split
    · rename_i hzero
      refine iff_of_false (by simp) (not_not_intro (.inr ⟨first.1,hfirst,hzero⟩))
    · cases hblock : blockAt blocks 0 with
      | some block =>
        refine iff_of_false (by simp) (not_not_intro (.inr ⟨block,?_⟩))
        exact blockAt_eq_some hblock
      | none =>
        have hnone := blockAt_eq_none.mp hblock
        have hno : ¬∃ b ∈ blocks, b.blockIndex = 0 := fun ⟨b,hb,h⟩ => hnone b hb h
        cases sidecar <;> simp [hno]

/-- Where a plan is normalized, its entries are for the chosen blocks. -/
theorem normalizeTopicPlanEntries_spec (hplanned : Planned blocks plan)
    (hnonneg : ∀ b ∈ blocks, 0 ≤ b.blockIndex)
    (h : normalizeTopicPlanEntries L sidecar blocks plan = some normalized) :
    Normalized blocks plan normalized := by
  have hincreasing : (validEntries blocks [] (sortByKey Prod.fst plan)).Pairwise
      (fun a b => a.1.blockIndex < b.1.blockIndex) :=
    validEntries_increasing (sortByKey_sorted Prod.fst plan)
  have hsubset := @validEntries_subset blocks plan
  have hcomplete := @validEntries_complete blocks plan
  rw [planned_iff_validEntries] at hplanned
  rw [normalizeTopicPlanEntries] at h
  cases hvalid : validEntries blocks [] (sortByKey Prod.fst plan) with
  | nil => exact absurd hvalid hplanned
  | cons first rest =>
    rw [hvalid] at h hincreasing hsubset hcomplete
    have hfirst := (mem_chosen.mp (hsubset List.mem_cons_self)).1
    -- what the entries cover, where block 0 needs no entry of its own
    have hkept : (∀ b ∈ blocks, b.blockIndex = 0 →
        ∃ entry ∈ first::rest, entry.1.blockIndex = b.blockIndex) →
          Normalized blocks plan (first::rest) := by
      intro hzero
      refine ⟨hincreasing,fun entry hentry => hsubset hentry,?_⟩
      intro b hb
      obtain ⟨hmem,hindex | ⟨e,he,hindex⟩⟩ := mem_chosen.mp hb
      · exact hzero b hmem hindex
      · exact hcomplete hmem he hindex
    simp only at h
    split at h
    · rename_i hzero
      obtain rfl := Option.some.inj h
      exact hkept fun b _ hb => ⟨first,List.mem_cons_self,hzero.trans hb.symm⟩
    · rename_i hne
      cases hblock : blockAt blocks 0 with
      | some block =>
        obtain ⟨hmem,hindex⟩ := blockAt_eq_some hblock
        rw [hblock] at h
        obtain rfl := Option.some.inj h
        refine ⟨List.pairwise_cons.mpr ⟨?_,hincreasing⟩,?_,?_⟩
        · intro entry hentry
          have hle : first.1.blockIndex ≤ entry.1.blockIndex := by
            rcases List.mem_cons.mp hentry with rfl | hentry
            · exact le_rfl
            · exact ((List.pairwise_cons.mp hincreasing).1 entry hentry).le
          have := hnonneg first.1 hfirst
          simp only [hindex]
          omega
        · refine List.forall_mem_cons.mpr ⟨mem_chosen.mpr ⟨hmem,.inl hindex⟩,?_⟩
          exact fun entry hentry => hsubset hentry
        · intro b hb
          obtain ⟨hmem,hzero | ⟨e,he,hnamed⟩⟩ := mem_chosen.mp hb
          · exact ⟨_,List.mem_cons_self,hindex.trans hzero.symm⟩
          · obtain ⟨entry,hentry,h⟩ := hcomplete hmem he hnamed
            exact ⟨entry,List.mem_cons_of_mem _ hentry,h⟩
      | none =>
        rw [hblock] at h
        simp only at h
        split at h
        · obtain rfl := Option.some.inj h
          exact hkept fun b hb hzero => absurd hzero (blockAt_eq_none.mp hblock b hb)
        · cases h

/-- The blocks of the entries are the chosen ones, in their order. -/
theorem Normalized.map_eq (h : Normalized blocks plan normalized)
    (hindices : blocks.Pairwise (fun a b => a.blockIndex < b.blockIndex)) :
    normalized.map Prod.fst = chosen blocks plan := by
  have : Std.Antisymm (fun a b : TopicBlock => a.blockIndex < b.blockIndex) :=
    ⟨fun a b hab hba => absurd hab hba.asymm⟩
  have : Std.Irrefl (fun a b : TopicBlock => a.blockIndex < b.blockIndex) :=
    ⟨fun a => lt_irrefl _⟩
  apply List.Subset.antisymm_of_pairwise (r := fun a b : TopicBlock => a.blockIndex < b.blockIndex)
  · exact List.pairwise_map.mpr h.increasing
  · exact hindices.sublist List.filter_sublist
  · intro b hb
    obtain ⟨entry,hentry,rfl⟩ := List.mem_map.mp hb
    exact h.subset entry hentry
  · intro b hb
    obtain ⟨entry,hentry,hindex⟩ := h.complete b hb
    have := eq_of_blockIndex_eq hindices (mem_chosen.mp (h.subset entry hentry)).1
      (mem_chosen.mp hb).1 hindex
    exact List.mem_map.mpr ⟨entry,hentry,this⟩

end Normalized

section Filtered
variable {lastIndex minChapterGapMs lastStartMs : ℤ} {entries normalized : List PlanEntry}

theorem filterEntries_sublist :
    (filterEntries lastIndex minChapterGapMs lastStartMs entries).Sublist entries := by
  induction entries generalizing lastStartMs with
  | nil => exact List.Sublist.refl _
  | cons entry entries ih =>
    rw [filterEntries]
    split
    · exact ih.cons entry
    · exact ih.cons_cons entry

/-- The last entry is kept. -/
theorem filterEntries_getLast? (hlast : ∀ entry ∈ entries.getLast?, entry.1.blockIndex = lastIndex) :
    (filterEntries lastIndex minChapterGapMs lastStartMs entries).getLast? = entries.getLast? := by
  induction entries generalizing lastStartMs with
  | nil => rfl
  | cons entry entries ih =>
    rcases List.eq_nil_or_concat' entries with rfl | ⟨front,last,rfl⟩
    · simp [filterEntries,hlast entry rfl]
    · have hrest : ∀ start, (filterEntries lastIndex minChapterGapMs start
          (front ++ [last])).getLast? = some last := by
        intro start
        rw [ih]
        · exact List.getLast?_concat
        · rw [List.getLast?_concat]
          rwa [List.getLast?_cons,List.getLast?_concat] at hlast
      rw [filterEntries]
      split
      · rw [hrest,List.getLast?_cons,List.getLast?_concat]
        rfl
      · rw [List.getLast?_cons,hrest,List.getLast?_cons,List.getLast?_concat]

/-- The entries that are kept lie a gap apart, but for the last one. -/
theorem filterEntries_spaced (hlast : ∀ entry ∈ entries.dropLast, entry.1.blockIndex ≠ lastIndex) :
    (lastStartMs::(filterEntries lastIndex minChapterGapMs lastStartMs entries).map
      (fun entry => entry.1.startMs)).dropLast.IsChain (fun a b => minChapterGapMs ≤ b - a) := by
  induction entries generalizing lastStartMs with
  | nil => exact List.isChain_nil
  | cons entry entries ih =>
    have hrest : ∀ e ∈ entries.dropLast, e.1.blockIndex ≠ lastIndex := by
      intro e he
      cases entries with
      | nil => cases he
      | cons next entries => exact hlast e (List.mem_cons_of_mem entry he)
    rw [filterEntries]
    split
    · exact ih hrest
    · rename_i hkept
      cases hF : filterEntries lastIndex minChapterGapMs entry.1.startMs entries with
      | nil => exact List.isChain_singleton _
      | cons next rest =>
        have ih := @ih entry.1.startMs hrest
        rw [hF] at ih
        refine List.isChain_cons_cons.mpr ⟨?_,ih⟩
        -- an entry with another one behind it is not the last
        have hne : entries ≠ [] := by
          rintro rfl
          cases hF
        have hindex := hlast entry (by
          rw [List.dropLast_cons_of_ne_nil hne]
          exact List.mem_cons_self)
        simp only
        omega

/-- What is kept of the entries of a plan. -/
structure Kept (minChapterGapMs : ℤ) (normalized filtered : List PlanEntry) : Prop where
  sublist : filtered.Sublist normalized
  head : filtered.head? = normalized.head?
  single : filtered.length = 1 ↔ normalized.length = 1
  spaced : (filtered.map (fun entry => entry.1.startMs)).dropLast.IsChain
    (fun a b => minChapterGapMs ≤ b - a)

theorem filterTopicPlanEntries_kept
    (hincreasing : normalized.Pairwise (fun a b => a.1.blockIndex < b.1.blockIndex)) :
    Kept minChapterGapMs normalized (filterTopicPlanEntries minChapterGapMs normalized) := by
  cases normalized with
  | nil => exact ⟨.refl _,rfl,Iff.rfl,.nil⟩
  | cons first rest =>
    rcases List.eq_nil_or_concat' rest with rfl | ⟨front,last,rfl⟩
    · simp only [filterTopicPlanEntries,filterEntries,List.getLast?_singleton]
      exact ⟨.refl _,rfl,Iff.rfl,.nil⟩
    · have hbefore : ∀ entry ∈ front, entry.1.blockIndex ≠ last.1.blockIndex := by
        intro entry hentry
        have hrest := (List.pairwise_cons.mp hincreasing).2
        exact ((List.pairwise_append.mp hrest).2.2 entry hentry last List.mem_cons_self).ne
      have hlast : (filterEntries last.1.blockIndex minChapterGapMs first.1.startMs
          (front ++ [last])).getLast? = (front ++ [last]).getLast? :=
        filterEntries_getLast? (by simp)
      have hspaced : (first.1.startMs::(filterEntries last.1.blockIndex minChapterGapMs
          first.1.startMs (front ++ [last])).map (fun entry => entry.1.startMs)).dropLast.IsChain
            (fun a b => minChapterGapMs ≤ b - a) := filterEntries_spaced (by simpa using hbefore)
      have hfilter : filterTopicPlanEntries minChapterGapMs (first::(front ++ [last])) =
          first::filterEntries last.1.blockIndex minChapterGapMs first.1.startMs
            (front ++ [last]) := by
        simp [filterTopicPlanEntries,List.getLast?_cons]
      rw [hfilter]
      refine ⟨filterEntries_sublist.cons_cons first,rfl,iff_of_false ?_ (by simp),hspaced⟩
      cases hF : filterEntries last.1.blockIndex minChapterGapMs first.1.startMs
          (front ++ [last]) with
      | nil => simp [hF] at hlast
      | cons => simp

end Filtered

section Built
variable {L : Letters} {sidecar : Bool} {totalDurationMs : ℤ} {idx : ℕ} {entries : List PlanEntry}

theorem buildChapters_startTimeMs :
    (buildChapters L totalDurationMs idx entries).map Chapter.startTimeMs =
      entries.map (fun entry => max 0 entry.1.startMs) := by
  induction entries generalizing idx with
  | nil => rfl
  | cons entry entries ih =>
    rw [buildChapters.eq_def,List.map_cons,List.map_cons,ih,Chapter.make_startTimeMs]

theorem buildChapters_endTimeMs (hnonneg : ∀ entry ∈ entries, 0 ≤ entry.1.startMs) :
    (buildChapters L totalDurationMs idx entries).map Chapter.endTimeMs =
      followingEnds totalDurationMs (entries.map (fun entry => entry.1.startMs)) := by
  induction entries generalizing idx with
  | nil => rfl
  | cons entry entries ih =>
    obtain ⟨h0,hnonneg⟩ := List.forall_mem_cons.mp hnonneg
    rw [buildChapters.eq_def,List.map_cons,ih hnonneg,Chapter.make_endTimeMs,max_eq_right h0,
      ← max_assoc,max_self]
    cases entries with
    | nil => rfl
    | cons next entries => rfl

/-- Chapters that are built from the first block on, inside the audio, tile it. -/
theorem buildChapters_tiles {blocks : List TopicBlock} {minChapterGapMs : ℤ} {b : TopicBlock}
    (hstarts : blocks.Pairwise (fun a b => a.startMs < b.startMs))
    (hsublist : (entries.map Prod.fst).Sublist blocks)
    (hspaced : (entries.map (fun entry => entry.1.startMs)).dropLast.IsChain
      (fun a b => minChapterGapMs ≤ b - a))
    (hfirst : blocks.head? = some b) (hhead : (entries.map Prod.fst).head? = some b)
    (h0 : 0 ≤ b.startMs) :
    Tiles blocks totalDurationMs minChapterGapMs (buildChapters L totalDurationMs idx entries) := by
  have hincreasing : entries.Pairwise (fun a b => a.1.startMs < b.1.startMs) := by
    have h := hstarts.sublist hsublist
    rwa [List.pairwise_map] at h
  have hnonneg : ∀ entry ∈ entries, 0 ≤ entry.1.startMs := by
    intro entry hentry
    obtain ⟨rest,rfl⟩ := List.head?_eq_some_iff.mp hfirst
    rcases List.mem_cons.mp (hsublist.mem (List.mem_map_of_mem hentry)) with h | h
    · rw [h]
      exact h0
    · exact h0.trans ((List.pairwise_cons.mp hstarts).1 _ h).le
  have hmap : (buildChapters L totalDurationMs idx entries).map Chapter.startTimeMs =
      entries.map (fun entry => entry.1.startMs) := by
    rw [buildChapters_startTimeMs]
    apply List.map_congr_left
    intro entry hentry
    exact max_eq_right (hnonneg entry hentry)
  obtain ⟨hcontiguous,hlastEnds⟩ := contiguous_of_followingEnds hmap
    (buildChapters_endTimeMs hnonneg) (List.pairwise_map.mpr hincreasing)
  refine ⟨?_,?_,hcontiguous,hlastEnds,
    ⟨entries.map Prod.fst,hsublist,by rw [hmap,List.map_map]; rfl⟩,?_⟩
  · rw [← List.pairwise_map (f := Chapter.startTimeMs),hmap]
    exact List.pairwise_map.mpr hincreasing
  · intro c hc b' hb'
    obtain rfl := Option.some.inj (hfirst.symm.trans hb')
    have hc := congrArg (Option.map Chapter.startTimeMs) hc
    rw [← List.head?_map,hmap] at hc
    have hhead := congrArg (Option.map TopicBlock.startMs) hhead
    rw [← List.head?_map,List.map_map] at hhead
    exact Option.some.inj (hc.symm.trans hhead)
  · rw [← List.isChain_map (R := fun a b => minChapterGapMs ≤ b - a) Chapter.startTimeMs,
      List.map_dropLast,hmap]
    exact hspaced

/-- Chapters that tile the audio start at the first block, which does not start before it. -/
theorem Tiles.of_buildChapters {blocks : List TopicBlock} {minChapterGapMs : ℤ} {a b : TopicBlock}
    (h : Tiles blocks totalDurationMs minChapterGapMs (buildChapters L totalDurationMs idx entries))
    (hstarts : blocks.Pairwise (fun a b => a.startMs < b.startMs)) (hmem : a ∈ blocks)
    (hhead : (entries.map Prod.fst).head? = some a) (hfirst : blocks.head? = some b) :
    a = b ∧ 0 ≤ b.startMs := by
  have hstart : (buildChapters L totalDurationMs idx entries).head?.map Chapter.startTimeMs =
      some (max 0 a.startMs) := by
    have hhead := congrArg (Option.map (fun block => max 0 block.startMs)) hhead
    rw [← List.head?_map,List.map_map] at hhead
    rw [← List.head?_map,buildChapters_startTimeMs]
    exact hhead
  obtain ⟨c,hc,hcstart⟩ := Option.map_eq_some_iff.mp hstart
  have hequal : max 0 a.startMs = b.startMs := hcstart.symm.trans (h.first c hc b hfirst)
  refine ⟨?_,by omega⟩
  obtain ⟨rest,rfl⟩ := List.head?_eq_some_iff.mp hfirst
  rcases List.mem_cons.mp hmem with rfl | hrest
  · rfl
  · have := (List.pairwise_cons.mp hstarts).1 a hrest
    omega

end Built

section Tiling
variable {blocks : List TopicBlock} {plan : List (ℤ × String)} {totalDurationMs minChapterGapMs : ℤ}

theorem tiles_nil : Tiles blocks totalDurationMs minChapterGapMs [] :=
  ⟨.nil,nofun,.nil,nofun,⟨[],List.nil_sublist blocks,rfl⟩,.nil⟩

theorem Planned.ne_nil (h : Planned blocks plan) : plan ≠ [] ∧ blocks ≠ [] := by
  obtain ⟨e,he,b,hb,-⟩ := h
  exact ⟨List.ne_nil_of_mem he,List.ne_nil_of_mem hb⟩

theorem chosen_head? {b : TopicBlock} (hfirst : blocks.head? = some b)
    (hmem : b ∈ chosen blocks plan) : (chosen blocks plan).head? = some b := by
  obtain ⟨rest,rfl⟩ := List.head?_eq_some_iff.mp hfirst
  have hkeep := (mem_chosen.mp hmem).2
  rw [chosen,List.filter_cons_of_pos (by simpa using hkeep)]
  rfl

/-- The chapters of chosen blocks tile the audio exactly if the first of all blocks is chosen, and does
not start before the audio. -/
theorem buildChapters_tiles_iff (B : TopicBlocks) {L : Letters} {idx : ℕ} {entries : List PlanEntry}
    (hplanned : Planned B.blocks plan) (hsublist : (entries.map Prod.fst).Sublist B.blocks)
    (hspaced : (entries.map (fun entry => entry.1.startMs)).dropLast.IsChain
      (fun a b => minChapterGapMs ≤ b - a))
    (hhead : (entries.map Prod.fst).head? = (chosen B.blocks plan).head?) :
    Tiles B.blocks totalDurationMs minChapterGapMs (buildChapters L totalDurationMs idx entries) ↔
      ∃ b ∈ B.blocks.head?, b ∈ chosen B.blocks plan ∧ 0 ≤ b.startMs := by
  constructor
  · intro htiles
    obtain ⟨e,he,b,hb,hindex⟩ := hplanned
    obtain ⟨first,hfirst⟩ := Option.isSome_iff_exists.mp
      (List.isSome_head?.mpr (List.ne_nil_of_mem hb))
    have hchosen : b ∈ chosen B.blocks plan := mem_chosen.mpr ⟨hb,.inr ⟨e,he,hindex.symm⟩⟩
    obtain ⟨a,ha⟩ := Option.isSome_iff_exists.mp
      (List.isSome_head?.mpr (List.ne_nil_of_mem hchosen))
    have hmem := List.mem_of_mem_head? ha
    obtain ⟨rfl,h0⟩ := htiles.of_buildChapters B.starts (mem_chosen.mp hmem).1
      (hhead.trans ha) hfirst
    exact ⟨a,hfirst,hmem,h0⟩
  · rintro ⟨b,hfirst,hmem,h0⟩
    exact buildChapters_tiles B.starts hsublist hspaced hfirst
      (hhead.trans (chosen_head? hfirst hmem)) h0

/-- A plan that names no block gives no chapters. -/
theorem chaptersFromTopicPlan_of_not_planned {L : Letters} {sidecar : Bool}
    (h : ¬Planned blocks plan) :
    chaptersFromTopicPlan L sidecar blocks plan totalDurationMs minChapterGapMs = some [] := by
  rw [planned_iff_validEntries,not_not] at h
  rw [chaptersFromTopicPlan]
  split
  · rfl
  · rw [normalizeTopicPlanEntries,h]
    simp [filterTopicPlanEntries,buildChapters]

end Tiling

/-- The chapters of a plan tile the audio exactly when the plan can be tiled. -/
theorem chaptersFromTopicPlan_tiles_iff (L : Letters) (sidecar : Bool) (B : TopicBlocks)
    (plan : List (ℤ × String)) (totalDurationMs minChapterGapMs : ℤ) :
    (∃ chapters, chaptersFromTopicPlan L sidecar B.blocks plan totalDurationMs minChapterGapMs =
        some chapters ∧ Tiles B.blocks totalDurationMs minChapterGapMs chapters) ↔
      CanTile sidecar B.blocks plan totalDurationMs := by
  by_cases hplanned : Planned B.blocks plan
  · rw [chaptersFromTopicPlan,if_neg (not_or.mpr hplanned.ne_nil)]
    cases hnormalize : normalizeTopicPlanEntries L sidecar B.blocks plan with
    | none =>
      obtain ⟨-,hzero⟩ := normalizeTopicPlanEntries_eq_none.mp hnormalize
      exact iff_of_false (by simp) (not_or.mpr ⟨not_not_intro hplanned,fun h => hzero h.1⟩)
    | some normalized =>
      have hzero : sidecar ∨ ∃ b ∈ B.blocks, b.blockIndex = 0 := by
        by_contra hzero
        cases hnormalize.symm.trans (normalizeTopicPlanEntries_eq_none.mpr ⟨hplanned,hzero⟩)
      have hspec := normalizeTopicPlanEntries_spec hplanned B.index_nonneg hnormalize
      have hmap := hspec.map_eq B.indices
      have hkept : Kept minChapterGapMs normalized
          (filterTopicPlanEntries minChapterGapMs normalized) :=
        filterTopicPlanEntries_kept hspec.increasing
      have hlength : normalized.length = (chosen B.blocks plan).length := by
        rw [← hmap,List.length_map]
      have hhead : ((filterTopicPlanEntries minChapterGapMs normalized).map Prod.fst).head? =
          (chosen B.blocks plan).head? := by
        rw [List.head?_map,hkept.head,← hmap,List.head?_map]
      have hsublist : ((filterTopicPlanEntries minChapterGapMs normalized).map Prod.fst).Sublist
          B.blocks := by
        have h := hkept.sublist.map Prod.fst
        rw [hmap] at h
        exact h.trans List.filter_sublist
      have hcan : CanTile sidecar B.blocks plan totalDurationMs ↔
          ((chosen B.blocks plan).length = 1 ∧ 20 * 60 * 1000 ≤ totalDurationMs ∨
            ∃ b ∈ B.blocks.head?, b ∈ chosen B.blocks plan ∧ 0 ≤ b.startMs) := by
        simp only [CanTile,hplanned,not_true_eq_false,hzero,true_and,false_or]
      rw [hcan,← hlength,← hkept.single]
      simp only [Option.map_some,Option.some.injEq,exists_eq_left']
      split
      · rename_i hlong
        exact iff_of_true tiles_nil (.inl hlong)
      · rename_i hlong
        rw [or_iff_right hlong]
        exact buildChapters_tiles_iff B hplanned hsublist hkept.spaced hhead
  · rw [chaptersFromTopicPlan_of_not_planned hplanned]
    exact iff_of_true ⟨[],rfl,tiles_nil⟩ (.inl hplanned)

/-- A transcript whose first minute has no text, which drops block 0. -/
def silentOpening : TopicBlocks :=
  buildTopicBlocks ⟨Char.isWhitespace,Char.isAlphanum⟩ false " ".intercalate 200000
    [⟨0,0,60,"",[]⟩,⟨1,70,130,"the news",[]⟩,⟨2,140,200,"the weather",[]⟩]

/-- Where block 0 is dropped and the plan begins with another block, the application raises. -/
theorem not_tiles_silentOpening :
    ¬∃ chapters, chaptersFromTopicPlan ⟨Char.isWhitespace,Char.isAlphanum⟩ false
        silentOpening.blocks [(1,"News"),(2,"Weather")] 200000 30000 = some chapters ∧
      Tiles silentOpening.blocks 200000 30000 chapters := by
  have hnone : chaptersFromTopicPlan ⟨Char.isWhitespace,Char.isAlphanum⟩ false
      silentOpening.blocks [(1,"News"),(2,"Weather")] 200000 30000 = none := by
    decide +kernel
  rintro ⟨chapters,hsome,-⟩
  cases hnone.symm.trans hsome

end Podly.Chapters
