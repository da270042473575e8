import Podly.Retention.Cleanup

/-! The post that is protected in each feed: the one with the latest time, and among these the one
with the largest id. A post without a time is protected only where no post has one. -/
namespace Podly.Retention
open Episodes
open Writer (Time)

/-- The entry a post makes. -/
def leaderOf (timestamp : Post → Option Time) (post : Post) : Leader :=
  ⟨post.guid,timestamp post,post.id⟩

/-- The entry comes before the post. -/
def Leader.Leads (leader : Leader) (timestamp : Post → Option Time) (post : Post) : Prop :=
  ∀ t, timestamp post = some t →
    ∃ s, leader.timestamp = some s ∧ (t < s ∨ t = s ∧ post.id ≤ leader.id)

/-- The entries are those of posts, and each post has one of its feed that comes before it. -/
structure LeadersOf (timestamp : Post → Option Time) (posts : List Post)
    (feedPosts : ℕ → Option Leader) : Prop where
  entry : ∀ feedId leader, feedPosts feedId = some leader →
    ∃ post ∈ posts, post.feedId = feedId ∧ leader = leaderOf timestamp post
  leads : ∀ post ∈ posts, ∃ leader, feedPosts post.feedId = some leader ∧
    leader.Leads timestamp post

section
variable {timestamp : Post → Option Time} {posts : List Post} {post q : Post} {leader : Leader}
  {feedPosts : ℕ → Option Leader}

theorem leads_self : (leaderOf timestamp post).Leads timestamp post :=
  fun t ht => ⟨t,ht,Or.inr ⟨rfl,le_rfl⟩⟩

theorem leads_of_givesWayTo (h : leader.givesWayTo (timestamp post) post.id = true)
    (hq : leader.Leads timestamp q) : (leaderOf timestamp post).Leads timestamp q := by
  intro t ht
  obtain ⟨s,hs,hle⟩ := hq t ht
  unfold Leader.givesWayTo at h
  rw [hs] at h
  cases hpost : timestamp post with
  | none =>
    rw [hpost] at h
    cases h
  | some u =>
    refine ⟨u,hpost,?_⟩
    rw [hpost] at h
    simp only [Bool.or_eq_true,Bool.and_eq_true,decide_eq_true_eq] at h
    obtain hsu | ⟨rfl,hid⟩ := h
    · obtain hts | ⟨rfl,-⟩ := hle
      · exact Or.inl (hts.trans hsu)
      · exact Or.inl hsu
    · exact hle.imp_right (fun hts => ⟨hts.1,hts.2.trans hid.le⟩)

theorem leads_of_not_givesWayTo (h : leader.givesWayTo (timestamp post) post.id = false) :
    leader.Leads timestamp post := by
  intro t ht
  unfold Leader.givesWayTo at h
  rw [ht] at h
  cases hleader : leader.timestamp with
  | none =>
    rw [hleader] at h
    cases h
  | some s =>
    refine ⟨s,rfl,?_⟩
    rw [hleader] at h
    simp only [Bool.or_eq_false_iff,Bool.and_eq_false_iff,decide_eq_false_iff_not,not_lt] at h
    obtain hts | rfl := lt_or_eq_of_le h.1
    · exact Or.inl hts
    · exact Or.inr ⟨rfl,h.2.resolve_left (fun hne => hne rfl)⟩

/-- A post that takes the place of the entry of its feed, whose posts it comes before. -/
theorem LeadersOf.update (h : LeadersOf timestamp posts feedPosts)
    (hleads : ∀ q ∈ posts, q.feedId = post.feedId → (leaderOf timestamp post).Leads timestamp q) :
    LeadersOf timestamp (posts ++ [post])
      (Function.update feedPosts post.feedId (some (leaderOf timestamp post))) where
  entry feedId leader hleader := by
    rw [Function.update_apply] at hleader
    split at hleader
    · rename_i hfeed
      cases hleader
      exact ⟨post,by simp,hfeed.symm,rfl⟩
    · obtain ⟨lead,hlead,hrest⟩ := h.entry feedId leader hleader
      exact ⟨lead,List.mem_append_left _ hlead,hrest⟩
  leads q hq := by
    rw [Function.update_apply]
    rcases List.mem_append.mp hq with hq | hq
    · split
      · rename_i hfeed
        exact ⟨_,rfl,hleads q hq hfeed⟩
      · exact h.leads q hq
    · obtain rfl := List.mem_singleton.mp hq
      rw [if_pos rfl]
      exact ⟨_,rfl,leads_self⟩

theorem LeadersOf.step (h : LeadersOf timestamp posts feedPosts) :
    LeadersOf timestamp (posts ++ [post]) (leaderStep timestamp feedPosts post) := by
  unfold leaderStep
  dsimp only
  split
  · rename_i hnone
    apply h.update
    intro q hq hfeed
    obtain ⟨leader,hleader,-⟩ := h.leads q hq
    rw [hfeed,hnone] at hleader
    cases hleader
  · rename_i leader hleader
    split
    · rename_i hgives
      apply h.update
      intro q hq hfeed
      obtain ⟨leader',hleader',hleads⟩ := h.leads q hq
      rw [hfeed,hleader] at hleader'
      cases hleader'
      exact leads_of_givesWayTo hgives hleads
    · rename_i hkeeps
      constructor
      · intro feedId leader' hleader'
        obtain ⟨lead,hlead,hrest⟩ := h.entry feedId leader' hleader'
        exact ⟨lead,List.mem_append_left _ hlead,hrest⟩
      · intro q hq
        rcases List.mem_append.mp hq with hq | hq
        · exact h.leads q hq
        · obtain rfl := List.mem_singleton.mp hq
          exact ⟨leader,hleader,leads_of_not_givesWayTo (Bool.eq_false_iff.mpr hkeeps)⟩

theorem leadersOf_foldl (timestamp : Post → Option Time) (posts : List Post) :
    LeadersOf timestamp posts (posts.foldl (leaderStep timestamp) (fun _ => none)) := by
  induction posts using List.reverseRecOn with
  | nil => exact ⟨nofun,nofun⟩
  | append_singleton posts post ih =>
    rw [List.foldl_append]
    exact ih.step

end

/-- A listed post is protected or comes after a post of its feed that is. -/
theorem exists_mostRecent {Entry : Type*} (host : Host Entry) (files : Entry → Option Time)
    (latestCompleted : String → Option Time) {posts : List Post} {post : Post}
    (hpost : post ∈ posts) :
    ∃ lead ∈ posts, lead.feedId = post.feedId ∧
      lead.guid ∈ getMostRecentPostsPerFeed host files latestCompleted posts ∧
      (leaderOf (getPostTimestamp host files latestCompleted) lead).Leads
        (getPostTimestamp host files latestCompleted) post := by
  have h := leadersOf_foldl (getPostTimestamp host files latestCompleted) posts
  obtain ⟨leader,hleader,hleads⟩ := h.leads post hpost
  obtain ⟨lead,hlead,hfeed,rfl⟩ := h.entry post.feedId leader hleader
  refine ⟨lead,hlead,hfeed,?_,hleads⟩
  rw [getMostRecentPostsPerFeed,List.mem_filterMap]
  exact ⟨post,hpost,by rw [hleader]; rfl⟩

end Podly.Retention
