import Podly.Retention.Leaders
import Podly.Retention.Sweep

/-! What the cleanup promises: an episode to play in every feed that has one, nothing removed that
is young, the count announced for it, and no row left behind its files. -/
namespace Podly.Retention
open Episodes
open Writer (Time)
variable {Entry : Type*} [DecidableEq Entry]

/-- The processed file is there and no job works on the post. -/
def Playable (host : Host Entry) (w : World Entry) (post : Post) : Prop :=
  (∃ e t, host.processed post = some e ∧ w.files e = some t) ∧
    ∀ job ∈ w.db.jobs.rows, job.postGuid = post.guid → ¬job.status.IsActive

def HasPlayable (host : Host Entry) (w : World Entry) (feedId : ℕ) : Prop :=
  ∃ post ∈ w.db.posts.table.rows, post.feedId = feedId ∧ Playable host w post

/-- The earliest of the times known of a post: that of its processed file and that at which its
latest job completed. -/
def earliestKnownTime (host : Host Entry) (w : World Entry) (post : Post) : Option Time :=
  (((host.processed post).bind w.files).toList ++
    (loadLatestCompletedMap w.db.jobs [post.guid] post.guid).toList).min?

/-- The promise, of one call. -/
structure Retains (host : Host Entry) (now : Time) (developerMode : Bool)
    (retentionDays : Option ℤ) (w after : World Entry) (removed : List Post)
    (answer : Except OverflowError ℕ) : Prop where
  playable : ∀ feedId, HasPlayable host w feedId → HasPlayable host after feedId
  old : ∀ post ∈ removed, ∃ days t, retentionDays = some days ∧
    earliestKnownTime host w post = some t ∧ t < now - days * microsecondsPerDay
  counted : (countCleanupCandidates host now developerMode retentionDays w).map Prod.fst = answer
  spared : ∀ post ∈ removed, host.ActionFails post.id → ∀ row ∈ after.db.posts.table.rows,
    row.id = post.id → ∀ e ∈ host.artifacts row, w.files e ≠ none → after.files e ≠ none

/-- Every feed with a playable post has one that stays: it does not expire, or its row and file
stay because the action and the disk refuse, and no file of an expired post is its own. The files
of the expired posts are not those by which later ones are old, and none of them is unlinked for a
post whose action fails. -/
structure Undisturbed (host : Host Entry) (w : World Entry) (cutoff : Time)
    (latestCompleted : String → Option Time) (expired : List Post) : Prop where
  playable : ∀ feedId, HasPlayable host w feedId →
    ∃ post ∈ w.db.posts.table.rows, post.feedId = feedId ∧ Playable host w post ∧
      (post ∈ expired → host.ActionFails post.id) ∧
        ∀ e, host.processed post = some e → ¬host.Takes expired e
  distinct : expired.Pairwise (host.Spares cutoff latestCompleted)
  refused : ∀ post ∈ expired, host.ActionFails post.id → ∀ e ∈ host.artifacts post,
    w.files e ≠ none → host.refuses e = true

section
variable {host : Host Entry} {w : World Entry} {removed : List Post} {post : Post}

theorem mem_candidates {db : Database} :
    post ∈ candidates db ↔ post ∈ db.posts.table.rows ∧ post.processedAudioPath ≠ none ∧
      ∀ job ∈ db.jobs.rows, job.postGuid = post.guid → ¬job.status.IsActive := by
  simp [candidates,Option.isSome_iff_ne_none]

omit [DecidableEq Entry] in
theorem clears_iff (hrow : post ∈ w.db.posts.table.rows)
    (hremoved : ∀ q ∈ removed, q ∈ w.db.posts.table.rows) :
    host.Clears removed post ↔ post ∈ removed ∧ ¬host.ActionFails post.id := by
  constructor
  · rintro ⟨q,hq,hid,hfails⟩
    obtain rfl := Store.Table.eq_of_key_eq (hremoved q hq) hrow hid
    exact ⟨hq,hfails⟩
  · rintro ⟨hmem,hfails⟩
    exact ⟨post,hmem,rfl,hfails⟩

theorem playable_without_iff :
    Playable host (w.without host removed) (host.clearedRow removed post) ↔
      Playable host w post ∧ ¬host.Clears removed post ∧
        ∀ e, host.processed post = some e → ¬host.Takes removed e := by
  unfold Playable Host.clearedRow
  split
  · rename_i hclears
    simp [hclears,withoutFiles,Host.processed,Host.locate]
  · rename_i hclears
    simp only [files_without]
    constructor
    · rintro ⟨⟨e,t,he,htakes,ht⟩,hjobs⟩
      refine ⟨⟨⟨e,t,he,ht⟩,hjobs⟩,hclears,fun e' he' => ?_⟩
      rwa [← Option.some.inj (he.symm.trans he')]
    · rintro ⟨⟨⟨e,t,he,ht⟩,hjobs⟩,-,htakes⟩
      exact ⟨⟨e,t,he,htakes e he,ht⟩,hjobs⟩

theorem hasPlayable_without_iff (hremoved : ∀ q ∈ removed, q ∈ w.db.posts.table.rows)
    (feedId : ℕ) : HasPlayable host (w.without host removed) feedId ↔
      ∃ post ∈ w.db.posts.table.rows, post.feedId = feedId ∧ Playable host w post ∧
        (post ∈ removed → host.ActionFails post.id) ∧
          ∀ e, host.processed post = some e → ¬host.Takes removed e := by
  have hfeed : ∀ row, (host.clearedRow removed row).feedId = row.feedId := by
    intro row
    unfold Host.clearedRow
    split <;> rfl
  simp only [HasPlayable,World.without,Store.Indexed.mapRows,Store.Table.mapRows,List.mem_map,
    exists_exists_and_eq_and]
  refine exists_congr (fun post => and_congr_right (fun hrow => ?_))
  rw [hfeed]
  refine and_congr_right (fun _ => playable_without_iff.trans ?_)
  rw [clears_iff hrow hremoved,not_and_not_right]

/-- The row of a removed post whose action fails still names its files. -/
theorem spared_without_iff (hremoved : ∀ q ∈ removed, q ∈ w.db.posts.table.rows) :
    (∀ post ∈ removed, host.ActionFails post.id →
      ∀ row ∈ (w.without host removed).db.posts.table.rows, row.id = post.id →
        ∀ e ∈ host.artifacts row, w.files e ≠ none → (w.without host removed).files e ≠ none) ↔
      ∀ post ∈ removed, host.ActionFails post.id → ∀ e ∈ host.artifacts post,
        w.files e ≠ none → host.refuses e = true := by
  refine forall₂_congr (fun post hpost => imp_congr_right (fun hfails => ?_))
  have hkept : host.clearedRow removed post = post := by
    apply if_neg
    rw [clears_iff (hremoved post hpost) hremoved]
    exact fun h => h.2 hfails
  have hrow : ∀ row ∈ (w.without host removed).db.posts.table.rows, row.id = post.id →
      row = post := by
    intro row hmem hid
    obtain ⟨old,hold,rfl⟩ := List.mem_map.mp hmem
    rw [clearedRow_id] at hid
    rw [Store.Table.eq_of_key_eq hold (hremoved post hpost) hid,hkept]
  have hmem : post ∈ (w.without host removed).db.posts.table.rows :=
    List.mem_map.mpr ⟨post,hremoved post hpost,hkept⟩
  have hfile : ∀ e ∈ host.artifacts post, w.files e ≠ none →
      ((w.without host removed).files e ≠ none ↔ host.refuses e = true) := by
    intro e he hexists
    simp only [World.without]
    split
    · rename_i htakes
      exact iff_of_false (fun h => h rfl) (by simp [htakes.1])
    · rename_i htakes
      refine iff_of_true hexists ?_
      by_contra hrefuses
      exact htakes ⟨Bool.eq_false_iff.mpr hrefuses,post,hpost,he⟩
  constructor
  · intro h e he hexists
    exact (hfile e he hexists).mp (h post hmem rfl e he hexists)
  · intro h row hrowmem hid e he hexists
    obtain rfl := hrow row hrowmem hid
    exact (hfile e he hexists).mpr (h e he hexists)

omit [DecidableEq Entry] in
theorem processedTimestampBeforeCutoff_iff_earliest {posts : List Post} {cutoff : Time}
    (hpost : post ∈ posts) :
    processedTimestampBeforeCutoff host w.files cutoff
        (loadLatestCompletedMap w.db.jobs (posts.map Post.guid)) post = true ↔
      ∃ t, earliestKnownTime host w post = some t ∧ t < cutoff := by
  have hmap : loadLatestCompletedMap w.db.jobs (posts.map Post.guid) post.guid =
      loadLatestCompletedMap w.db.jobs [post.guid] post.guid := by
    rw [loadLatestCompletedMap,if_pos (List.mem_map_of_mem hpost),loadLatestCompletedMap,
      if_pos (List.mem_singleton_self _)]
  rw [processedTimestampBeforeCutoff_iff,hmap,getProcessedFileTimestamp,earliestKnownTime]
  cases (host.processed post).bind w.files with
  | none => cases loadLatestCompletedMap w.db.jobs [post.guid] post.guid <;> simp
  | some fileTimestamp =>
    cases loadLatestCompletedMap w.db.jobs [post.guid] post.guid <;> simp

end

section
variable {now : Time} {developerMode : Bool} {retentionDays : Option ℤ} {db : Database}
  {posts : List Post} {cutoff : Time}

theorem buildCleanupQuery_eq_some
    (h : buildCleanupQuery now developerMode retentionDays db = .ok (some (posts,cutoff))) :
    posts = candidates db ∧
      ∃ days, retentionDays = some days ∧ cutoff = now - days * microsecondsPerDay := by
  unfold buildCleanupQuery at h
  split at h
  · cases h
  · rename_i days
    split at h
    · cases h
    · dsimp only at h
      split at h
      · cases h
      · cases h
        exact ⟨rfl,days,rfl,rfl⟩

omit [DecidableEq Entry] in
theorem countCleanupCandidates_of_query {host : Host Entry} {w : World Entry}
    {latestCompleted : String → Option Time} {mostRecent : List String}
    (hquery : buildCleanupQuery now developerMode retentionDays w.db = .ok (some (posts,cutoff)))
    (hlatest : loadLatestCompletedMap w.db.jobs (posts.map Post.guid) = latestCompleted)
    (hrecent : getMostRecentPostsPerFeed host w.files latestCompleted posts = mostRecent) :
    (countCleanupCandidates host now developerMode retentionDays w).map Prod.fst =
      .ok (expired host w.files cutoff latestCompleted mostRecent posts).length := by
  subst hlatest hrecent
  rw [countCleanupCandidates,hquery]
  rfl

theorem retains_iff_of_query {host : Host Entry} {w : World Entry}
    {latestCompleted : String → Option Time} {mostRecent : List String}
    (hquery : buildCleanupQuery now developerMode retentionDays w.db = .ok (some (posts,cutoff)))
    (hlatest : loadLatestCompletedMap w.db.jobs (posts.map Post.guid) = latestCompleted)
    (hrecent : getMostRecentPostsPerFeed host w.files latestCompleted posts = mostRecent) :
    let sweep := sweepAll host cutoff latestCompleted mostRecent w posts
    Retains host now developerMode retentionDays w sweep.world sweep.removed
        (.ok sweep.removed.length) ↔
      Undisturbed host w cutoff latestCompleted
        (expired host w.files cutoff latestCompleted mostRecent posts) := by
  obtain ⟨hposts,days,hdays,hcutoff⟩ := buildCleanupQuery_eq_some hquery
  have hrows : ∀ post ∈ posts, post ∈ w.db.posts.table.rows := by
    rw [hposts]
    exact fun post hpost => List.mem_of_mem_filter hpost
  have hids : (posts.map Post.id).Nodup := by
    rw [hposts]
    exact w.db.posts.table.nodup.sublist (List.filter_sublist.map _)
  obtain ⟨removed,hsub,hsweep,hall⟩ := @sweepAll_spec _ _ host w cutoff latestCompleted mostRecent
    posts hrows hids
  have hremoved : ∀ q ∈ removed, q ∈ w.db.posts.table.rows := fun q hq =>
    hrows q (List.filter_sublist.subset (hsub.subset hq))
  have hcount := countCleanupCandidates_of_query hquery hlatest hrecent
  dsimp only
  rw [hsweep]
  constructor
  · rintro ⟨hplayable,-,hcounted,hspared⟩
    have heq := hsub.eq_of_length (Except.ok.inj (hcount.symm.trans hcounted)).symm
    have hdistinct := hall.mp heq
    rw [← heq] at hdistinct ⊢
    exact ⟨fun feedId h => (hasPlayable_without_iff hremoved feedId).mp (hplayable feedId h),
      hdistinct,(spared_without_iff hremoved).mp hspared⟩
  · intro h
    have heq := hall.mpr h.distinct
    rw [← heq] at h
    refine ⟨fun feedId hfeed => (hasPlayable_without_iff hremoved feedId).mpr
      (h.playable feedId hfeed),?_,?_,(spared_without_iff hremoved).mpr h.refused⟩
    · intro post hpost
      obtain ⟨hmem,hexpired⟩ := List.mem_filter.mp (hsub.subset hpost)
      rw [Bool.and_eq_true,← hlatest,processedTimestampBeforeCutoff_iff_earliest hmem] at hexpired
      obtain ⟨-,t,ht,hlt⟩ := hexpired
      exact ⟨days,t,hdays,ht,hcutoff ▸ hlt⟩
    · rw [hcount,heq]

end

/-- The cleanup leaves something to play, cleans only what is old, cleans as many posts as are
counted and leaves no row behind its files exactly if the posts that expire disturb nothing. -/
theorem retains_iff (host : Host Entry) (now : Time) (developerMode : Bool)
    (retentionDays : Option ℤ) (w : World Entry) :
    Retains host now developerMode retentionDays w
        (cleanupProcessedPosts host now developerMode retentionDays w).1.world
        (cleanupProcessedPosts host now developerMode retentionDays w).1.removed
        (cleanupProcessedPosts host now developerMode retentionDays w).2 ↔
      ∀ posts cutoff,
        buildCleanupQuery now developerMode retentionDays w.db = .ok (some (posts,cutoff)) →
        let latestCompleted := loadLatestCompletedMap w.db.jobs (posts.map Post.guid)
        Undisturbed host w cutoff latestCompleted (expired host w.files cutoff latestCompleted
          (getMostRecentPostsPerFeed host w.files latestCompleted posts) posts) := by
  have hidle : ∀ answer,
      (countCleanupCandidates host now developerMode retentionDays w).map Prod.fst = answer →
      Retains host now developerMode retentionDays w w [] answer := fun answer hanswer =>
    ⟨fun _ h => h,nofun,hanswer,nofun⟩
  unfold cleanupProcessedPosts
  split
  · rename_i e hquery
    refine iff_of_true (hidle _ ?_) (fun posts cutoff h => by rw [hquery] at h; cases h)
    rw [countCleanupCandidates,hquery]
    rfl
  · rename_i hquery
    refine iff_of_true (hidle _ ?_) (fun posts cutoff h => by rw [hquery] at h; cases h)
    rw [countCleanupCandidates,hquery]
    rfl
  · rename_i posts cutoff hquery
    refine (retains_iff_of_query hquery rfl rfl).trans ?_
    constructor
    · intro h posts' cutoff' hquery'
      cases hquery.symm.trans hquery'
      exact h
    · exact fun h => h posts cutoff hquery

omit [DecidableEq Entry] in
/-- The protection of the latest post is enough where every listed post has its file and the
protected ones share theirs with none that expires. -/
theorem playable_kept (host : Host Entry) (w : World Entry) (cutoff : Time)
    (latestCompleted : String → Option Time)
    (hfiles : ∀ post ∈ candidates w.db, ∃ e t, host.processed post = some e ∧ w.files e = some t) :
    let mostRecent := getMostRecentPostsPerFeed host w.files latestCompleted (candidates w.db)
    let gone := expired host w.files cutoff latestCompleted mostRecent (candidates w.db)
    (∀ post ∈ candidates w.db, post.guid ∈ mostRecent →
      ∀ e, host.processed post = some e → ¬host.Takes gone e) →
    ∀ feedId, HasPlayable host w feedId →
      ∃ post ∈ w.db.posts.table.rows, post.feedId = feedId ∧ Playable host w post ∧
        (post ∈ gone → host.ActionFails post.id) ∧
          ∀ e, host.processed post = some e → ¬host.Takes gone e := by
  rintro mostRecent gone hshared feedId ⟨post,hrow,rfl,⟨e,-,he,-⟩,hjobs⟩
  have hpost : post ∈ candidates w.db := by
    refine mem_candidates.mpr ⟨hrow,?_,hjobs⟩
    intro hnone
    rw [Host.processed,hnone] at he
    cases he
  obtain ⟨lead,hlead,hfeed,hrecent,-⟩ := exists_mostRecent host w.files latestCompleted hpost
  obtain ⟨hleadRow,-,hleadJobs⟩ := mem_candidates.mp hlead
  refine ⟨lead,hleadRow,hfeed,⟨hfiles lead hlead,hleadJobs⟩,?_,hshared lead hlead hrecent⟩
  intro hgone
  have hnot := (List.mem_filter.mp hgone).2
  rw [Bool.and_eq_true,decide_eq_true_eq] at hnot
  exact absurd hrecent hnot.1

/-! A feed with two episodes: one that can be played, and a later one whose file was lost. -/
namespace Lost

def day (n : ℤ) : Time := n * microsecondsPerDay

def episode (id : ℕ) (guid path : String) : Post :=
  ⟨id,1,guid,"https://example.com/" ++ guid,guid,none,true,none,some path,fun _ => none⟩

def job : Writer.ProcessingJob :=
  ⟨"job",none,"lost",.completed,none,none,none,none,none,some (day 99),none,none,none,none,none,
    none,false,false⟩

def episodes : List Post := [episode 1 "aired" "aired.mp3",episode 2 "lost" "lost.mp3"]

theorem nodup_id : (episodes.map Post.id).Nodup := by decide

theorem nodup_key : (episodes.map Post.key).Nodup := by decide

def world : World String :=
  ⟨{ Database.empty with
      posts := ⟨⟨episodes,nodup_id⟩,nodup_key⟩, jobs := ⟨[job],List.nodup_singleton _⟩ },
    fun path => if path = "aired.mp3" then some (day 90) else none⟩

def host : Host String := ⟨id,fun _ => false,fun _ => false⟩

/-- The lost episode is the protected one, and the other is removed. -/
theorem not_retains :
    ¬∀ (host : Host String) (now : Time) (developerMode : Bool) (retentionDays : Option ℤ)
      (w : World String),
      Retains host now developerMode retentionDays w
        (cleanupProcessedPosts host now developerMode retentionDays w).1.world
        (cleanupProcessedPosts host now developerMode retentionDays w).1.removed
        (cleanupProcessedPosts host now developerMode retentionDays w).2 := by
  intro h
  have hbefore : HasPlayable host world 1 := by
    refine ⟨episode 1 "aired" "aired.mp3",by simp [world,episodes],rfl,
      ⟨"aired.mp3",day 90,rfl,rfl⟩,?_⟩
    intro job hjob hguid
    obtain rfl := List.mem_singleton.mp hjob
    exact absurd hguid (by decide)
  obtain ⟨post,hpost,-,⟨e,t,he,ht⟩,-⟩ := (h host (day 100) false (some 5) world).playable 1 hbefore
  have hlost : ∀ post ∈ (cleanupProcessedPosts host (day 100) false (some 5)
      world).1.world.db.posts.table.rows, ∀ e ∈ host.processed post, e = "lost.mp3" := by
    decide
  obtain rfl := hlost post hpost e he
  cases ht

end Lost

end Podly.Retention
