import Podly.Retention.Cleanup

/-! What the loop of the cleanup leaves, in terms of the posts it has removed, and when these are
all the posts that were expired when it started. -/
namespace Podly.Retention
open Episodes
open Writer (Time)
variable {Entry : Type*} [DecidableEq Entry]

/-- The row as the writer action leaves it. -/
def withoutFiles (post : Post) : Post :=
  { post with unprocessedAudioPath := none, processedAudioPath := none, whitelisted := false }

/-- The action on a post does not go through. The action itself refuses the id zero. -/
def Host.ActionFails (host : Host Entry) (postId : ℕ) : Prop := host.fails postId = true ∨ postId = 0

instance (host : Host Entry) (postId : ℕ) : Decidable (host.ActionFails postId) :=
  inferInstanceAs (Decidable (_ ∨ _))

/-- A file that is unlinked with one of the posts. -/
def Host.Takes (host : Host Entry) (posts : List Post) (e : Entry) : Prop :=
  host.refuses e = false ∧ ∃ post ∈ posts, e ∈ host.artifacts post

instance (host : Host Entry) (posts : List Post) (e : Entry) : Decidable (host.Takes posts e) :=
  inferInstanceAs (Decidable (_ ∧ _))

/-- The row is one of those that the actions on the posts clear. -/
def Host.Clears (host : Host Entry) (posts : List Post) (row : Post) : Prop :=
  ∃ post ∈ posts, post.id = row.id ∧ ¬host.ActionFails post.id

instance (host : Host Entry) (posts : List Post) (row : Post) : Decidable (host.Clears posts row) :=
  inferInstanceAs (Decidable (∃ _ ∈ _, _))

/-- A row after the actions on the posts. -/
def Host.clearedRow (host : Host Entry) (posts : List Post) (row : Post) : Post :=
  if host.Clears posts row then withoutFiles row else row

omit [DecidableEq Entry] in
theorem clearedRow_id (host : Host Entry) (posts : List Post) (row : Post) :
    (host.clearedRow posts row).id = row.id := by
  unfold Host.clearedRow
  split <;> rfl

omit [DecidableEq Entry] in
theorem clearedRow_key (host : Host Entry) (posts : List Post) (row : Post) :
    (host.clearedRow posts row).key = row.key := by
  unfold Host.clearedRow
  split <;> rfl

/-- The world without what belongs to the posts. -/
def World.without (w : World Entry) (host : Host Entry) (posts : List Post) : World Entry :=
  ⟨{ w.db with
      posts := w.db.posts.mapRows (host.clearedRow posts) (clearedRow_id host posts)
        (clearedRow_key host posts) },
    fun e => if host.Takes posts e then none else w.files e⟩

section
variable {host : Host Entry} {w : World Entry} {posts : List Post} {post : Post}

theorem without_nil : w.without host [] = w := by
  have hrow : ∀ row, host.clearedRow [] row = row := fun row => if_neg (by simp [Host.Clears])
  have hrows : w.db.posts.mapRows (host.clearedRow []) (clearedRow_id host [])
      (clearedRow_key host []) = w.db.posts := by
    apply Store.Indexed.ext
    exact (List.map_congr_left (fun row _ => hrow row)).trans (List.map_id' _)
  simp [World.without,hrows,Host.Takes]

omit [DecidableEq Entry] in
theorem clears_append {row : Post} :
    host.Clears (posts ++ [post]) row ↔
      host.Clears posts row ∨ post.id = row.id ∧ ¬host.ActionFails post.id := by
  simp only [Host.Clears,List.mem_append,List.mem_singleton,or_and_right,exists_or,
    exists_eq_left]

omit [DecidableEq Entry] in
theorem takes_append {e : Entry} :
    host.Takes (posts ++ [post]) e ↔
      host.Takes posts e ∨ host.refuses e = false ∧ e ∈ host.artifacts post := by
  simp only [Host.Takes,List.mem_append,List.mem_singleton,or_and_right,exists_or,exists_eq_left,
    and_or_left]

theorem removeAssociatedFiles_without (e : Entry) :
    removeAssociatedFiles host post (w.without host posts).files e =
      (w.without host (posts ++ [post])).files e := by
  simp only [removeAssociatedFiles_apply,World.without,takes_append]
  by_cases h : host.refuses e = false ∧ e ∈ host.artifacts post
  · rw [if_pos h,if_pos (Or.inr h)]
  · simp only [h,or_false,if_false]

omit [DecidableEq Entry] in
/-- A post whose action fails keeps its row. -/
theorem clearedRow_append_of_fails (h : host.ActionFails post.id) :
    host.clearedRow (posts ++ [post]) = host.clearedRow posts := by
  funext row
  unfold Host.clearedRow
  apply if_congr _ rfl rfl
  rw [clears_append]
  exact or_iff_left (fun hrow => hrow.2 h)

omit [DecidableEq Entry] in
theorem clearedRow_append (h : ¬host.ActionFails post.id) (row : Post) :
    host.clearedRow (posts ++ [post]) row =
      if row.id = post.id then withoutFiles (host.clearedRow posts row)
      else host.clearedRow posts row := by
  unfold Host.clearedRow
  simp only [clears_append,h,not_false_eq_true,and_true,eq_comm (a := post.id)]
  by_cases hid : row.id = post.id
  · simp only [hid,or_true,if_true]
    split <;> rfl
  · simp only [hid,or_false,if_false]

theorem cleanupFilesOnly_of_fails (h : host.ActionFails post.id) :
    cleanupFilesOnly host post.id w = w := by
  unfold cleanupFilesOnly
  split
  · rfl
  · rename_i hfails
    have hid : post.id = 0 := h.resolve_left hfails
    rw [cleanupProcessedPostFilesOnlyAction,if_pos hid]
    split
    · rename_i hok
      cases hok
    · rfl

theorem cleanupFilesOnly_of_row (h : ¬host.ActionFails post.id)
    (hrow : w.db.posts.get post.id = some post) :
    cleanupFilesOnly host post.id w =
      ⟨{ w.db with posts := w.db.posts.modify post.id withoutFiles (fun _ => rfl) (fun _ => rfl) },
        removeAssociatedFiles host post w.files⟩ := by
  obtain ⟨hfails,hid⟩ := not_or.mp h
  unfold cleanupFilesOnly
  rw [if_neg hfails,hrow,cleanupProcessedPostFilesOnlyAction,if_neg hid,withPost,hrow]
  rfl

/-- The removal of one more post, whose row no earlier one has cleared. -/
theorem cleanupFilesOnly_without (hrow : post ∈ w.db.posts.table.rows)
    (hnew : ∀ q ∈ posts, q.id ≠ post.id) :
    cleanupFilesOnly host post.id ⟨(w.without host posts).db,
      removeAssociatedFiles host post (w.without host posts).files⟩ =
        w.without host (posts ++ [post]) := by
  have hfiles : removeAssociatedFiles host post (w.without host posts).files =
      (w.without host (posts ++ [post])).files := funext removeAssociatedFiles_without
  by_cases h : host.ActionFails post.id
  · rw [cleanupFilesOnly_of_fails h,hfiles]
    simp only [World.without,clearedRow_append_of_fails h]
  · have hkept : host.clearedRow posts post = post := by
      apply if_neg
      rintro ⟨q,hq,hid,-⟩
      exact hnew q hq hid
    have hget : (w.without host posts).db.posts.get post.id = some post := by
      have hw : w.db.posts.table.get post.id = some post := Store.Table.get_eq_some.mpr ⟨hrow,rfl⟩
      rw [Store.Indexed.get]
      simp only [World.without,Store.Indexed.mapRows,Store.Table.get_mapRows,hw,Option.map_some,
        hkept]
    have hcleared := @cleanupFilesOnly_of_row _ _ host ⟨(w.without host posts).db,
      removeAssociatedFiles host post (w.without host posts).files⟩ post h hget
    rw [hcleared,removeAssociatedFiles_twice,hfiles]
    have hposts : (w.without host posts).db.posts.modify post.id withoutFiles (fun _ => rfl)
        (fun _ => rfl) = (w.without host (posts ++ [post])).db.posts := by
      apply Store.Indexed.ext
      simp only [World.without,Store.Indexed.modify,Store.Indexed.mapRows,Store.Table.mapRows,
        List.map_map]
      apply List.map_congr_left
      intro row _
      rw [Function.comp_apply,clearedRow_id,clearedRow_append h]
    rw [hposts]
    rfl

end

/-- Unlinking the files of the first post leaves the second as old as it was: its latest job is old
enough, or its processed file stays. -/
def Host.Spares (host : Host Entry) (cutoff : Time) (latestCompleted : String → Option Time)
    (first second : Post) : Prop :=
  (∃ t, latestCompleted second.guid = some t ∧ t < cutoff) ∨
    ∀ e, host.processed second = some e → host.refuses e = true ∨ e ∉ host.artifacts first

section Loop
variable {host : Host Entry} {w : World Entry} {cutoff : Time}
  {latestCompleted : String → Option Time} {mostRecent : List String} {posts removed : List Post}
  {post : Post}

/-- The loop over some posts. -/
def sweepAll (host : Host Entry) (cutoff : Time) (latestCompleted : String → Option Time)
    (mostRecent : List String) (w : World Entry) (posts : List Post) : Sweep Entry :=
  posts.foldl (sweepStep host cutoff latestCompleted mostRecent) ⟨w,[]⟩

theorem sweepAll_append :
    sweepAll host cutoff latestCompleted mostRecent w (posts ++ [post]) =
      sweepStep host cutoff latestCompleted mostRecent
        (sweepAll host cutoff latestCompleted mostRecent w posts) post := by
  rw [sweepAll,List.foldl_append]
  rfl

/-- One turn removes the post or changes nothing. -/
theorem sweepStep_removed (hrow : post ∈ w.db.posts.table.rows)
    (hnew : ∀ q ∈ removed, q.id ≠ post.id) :
    sweepStep host cutoff latestCompleted mostRecent ⟨w.without host removed,removed⟩ post =
      if post.guid ∉ mostRecent ∧ processedTimestampBeforeCutoff host (w.without host removed).files
        cutoff latestCompleted post = true
      then ⟨w.without host (removed ++ [post]),removed ++ [post]⟩
      else ⟨w.without host removed,removed⟩ := by
  unfold sweepStep
  by_cases hrecent : post.guid ∈ mostRecent
  · rw [if_pos hrecent,if_neg (fun h => h.1 hrecent)]
  · rw [if_neg hrecent]
    cases hold : processedTimestampBeforeCutoff host (w.without host removed).files cutoff
        latestCompleted post with
    | false => simp
    | true =>
      simp only [hrecent,not_false_eq_true,and_self,if_true,Bool.not_true,Bool.false_eq_true,
        if_false,cleanupFilesOnly_without hrow hnew]

theorem files_without {e : Entry} {t : Time} :
    (w.without host removed).files e = some t ↔ ¬host.Takes removed e ∧ w.files e = some t := by
  simp only [World.without]
  split
  · rename_i h
    exact iff_of_false nofun (fun hkept => hkept.1 h)
  · rename_i h
    exact (and_iff_right h).symm

theorem before_without_iff :
    processedTimestampBeforeCutoff host (w.without host removed).files cutoff latestCompleted
        post = true ↔
      processedTimestampBeforeCutoff host w.files cutoff latestCompleted post = true ∧
        ∀ q ∈ removed, host.Spares cutoff latestCompleted q post := by
  simp only [processedTimestampBeforeCutoff_iff,getProcessedFileTimestamp,Option.bind_eq_some_iff,
    files_without]
  constructor
  · rintro (⟨t,⟨e,he,htakes,ht⟩,hlt⟩ | hjob)
    · refine ⟨Or.inl ⟨t,⟨e,he,ht⟩,hlt⟩,fun q hq => Or.inr ?_⟩
      intro e' he'
      obtain rfl : e = e' := Option.some.inj (he.symm.trans he')
      by_contra hspared
      rw [not_or,not_not,Bool.not_eq_true] at hspared
      exact htakes ⟨hspared.1,q,hq,hspared.2⟩
    · exact ⟨Or.inr hjob,fun q _ => Or.inl hjob⟩
  · rintro ⟨⟨t,⟨e,he,ht⟩,hlt⟩ | hjob,hspares⟩
    · by_cases hjob : ∃ t, latestCompleted post.guid = some t ∧ t < cutoff
      · exact Or.inr hjob
      · refine Or.inl ⟨t,⟨e,he,?_,ht⟩,hlt⟩
        rintro ⟨hrefuses,q,hq,hmem⟩
        obtain h | h := (hspares q hq).resolve_left hjob e he
        · rw [hrefuses] at h
          cases h
        · exact h hmem
    · exact Or.inr hjob

omit [DecidableEq Entry] in
theorem expired_append (files : Entry → Option Time) :
    expired host files cutoff latestCompleted mostRecent (posts ++ [post]) =
      expired host files cutoff latestCompleted mostRecent posts ++
        if post.guid ∉ mostRecent ∧
          processedTimestampBeforeCutoff host files cutoff latestCompleted post = true
        then [post] else [] := by
  simp only [expired,List.filter_append,List.filter_cons,List.filter_nil,Bool.and_eq_true,
    decide_eq_true_eq]

/-- The world is that without the removed posts, which are among the expired ones, and are all of
them exactly if no expired post spoils a later one. -/
theorem sweepAll_spec (hrows : ∀ post ∈ posts, post ∈ w.db.posts.table.rows)
    (hids : (posts.map Post.id).Nodup) :
    ∃ removed,
      List.Sublist removed (expired host w.files cutoff latestCompleted mostRecent posts) ∧
      sweepAll host cutoff latestCompleted mostRecent w posts =
        ⟨w.without host removed,removed⟩ ∧
      (removed = expired host w.files cutoff latestCompleted mostRecent posts ↔
        (expired host w.files cutoff latestCompleted mostRecent posts).Pairwise
          (host.Spares cutoff latestCompleted)) := by
  induction posts using List.reverseRecOn with
  | nil => exact ⟨[],List.Sublist.refl _,by rw [without_nil]; rfl,by simp [expired]⟩
  | append_singleton posts post ih =>
    rw [List.map_append,List.nodup_append] at hids
    obtain ⟨removed,hsub,hsweep,hall⟩ :=
      ih (fun q hq => hrows q (List.mem_append_left _ hq)) hids.1
    have hnew : ∀ q ∈ removed, q.id ≠ post.id := fun q hq =>
      hids.2.2 q.id (List.mem_map_of_mem (List.filter_sublist.subset (hsub.subset hq))) post.id
        (by simp)
    rw [sweepAll_append,hsweep,sweepStep_removed (hrows post (by simp)) hnew,expired_append]
    by_cases hexpired : post.guid ∉ mostRecent ∧
        processedTimestampBeforeCutoff host w.files cutoff latestCompleted post = true
    · rw [if_pos hexpired,List.pairwise_append,← hall]
      simp only [List.pairwise_singleton,List.mem_singleton,forall_eq,true_and]
      by_cases hspares : ∀ q ∈ removed, host.Spares cutoff latestCompleted q post
      · rw [if_pos ⟨hexpired.1,before_without_iff.mpr ⟨hexpired.2,hspares⟩⟩]
        refine ⟨_,hsub.append (List.Sublist.refl _),rfl,?_⟩
        rw [List.append_left_inj]
        exact (and_iff_left_of_imp (fun h => h ▸ hspares)).symm
      · rw [if_neg (fun h => hspares (before_without_iff.mp h.2).2)]
        refine ⟨_,hsub.trans (List.sublist_append_left _ _),rfl,iff_of_false ?_ ?_⟩
        · intro h
          have hlength := congrArg List.length h
          rw [List.length_append,List.length_singleton] at hlength
          exact absurd hsub.length_le (by omega)
        · rintro ⟨h,hpost⟩
          exact hspares (h ▸ hpost)
    · rw [if_neg hexpired,if_neg (fun h => hexpired ⟨h.1,(before_without_iff.mp h.2).1⟩),
        List.append_nil]
      exact ⟨removed,hsub,rfl,hall⟩

end Loop

end Podly.Retention
