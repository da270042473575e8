import Podly.Refresh.Plan

/-! The writer carries out the plan of a refresh: it inserts the new posts and then writes one
update after the other, under the unique constraints of the feed. -/
namespace Podly.Refresh

/-- The id that SQLite gives next. -/
def nextId (posts : List Post) : ℕ := posts.foldr (fun post k => max post.id k) 0 + 1

def NewPost.toPost (new : NewPost) (id : ℕ) : Post :=
  ⟨id,new.guid,new.downloadUrl,new.title,some new.description,new.imageUrl,none,new.duration,
    new.releaseDate,new.whitelisted⟩

/-- Insert a post, unless its guid or its URL is taken. -/
def insertPost (posts : List Post) (new : NewPost) : Option (List Post) :=
  if posts.any (fun post => post.guid = new.guid || post.downloadUrl = new.downloadUrl) then none
  else some (posts ++ [new.toPost (nextId posts)])

def insertPosts : List Post → List NewPost → Option (List Post)
  | posts, [] => some posts
  | posts, new::rest =>
    match insertPost posts new with
    | none => none
    | some posts' => insertPosts posts' rest

def PostUpdate.apply (post : Post) (u : PostUpdate) : Post :=
  { post with
    guid := u.guid.getD post.guid
    title := u.title.getD post.title
    description := u.description.or post.description
    imageUrl := u.imageUrl.getD post.imageUrl
    duration := u.duration.or post.duration }

/-- Write an update, unless another post has the guid; one for no post is passed over. -/
def applyUpdate (posts : List Post) (u : PostUpdate) : Option (List Post) :=
  if u.postId = 0 ∨ posts.all (fun post => post.id ≠ u.postId) then some posts
  else if posts.any (fun post => post.id ≠ u.postId && u.guid = some post.guid) then none
  else some (posts.map (fun post => if post.id = u.postId then PostUpdate.apply post u else post))

/-- `_apply_existing_post_updates`, each update written before the next. -/
def applyExistingPostUpdates : List Post → List PostUpdate → Option (List Post)
  | posts, [] => some posts
  | posts, u::rest =>
    match applyUpdate posts u with
    | none => none
    | some posts' => applyExistingPostUpdates posts' rest

/-- `refresh_feed_action`. -/
def refreshFeedAction (feed : Feed) (posts : List Post) (plan : Plan) : Option (Feed × List Post) :=
  match insertPosts posts plan.newPosts with
  | none => none
  | some inserted =>
    match applyExistingPostUpdates inserted plan.existingPostUpdates with
    | none => none
    | some posts' => some ({ feed with imageUrl := plan.updates.or feed.imageUrl },posts')

/-! New posts -/

theorem id_lt_nextId {posts : List Post} {post : Post} (h : post ∈ posts) :
    post.id < nextId posts := by
  induction posts with
  | nil => cases h
  | cons first posts ih =>
    simp only [nextId,List.foldr_cons] at ih ⊢
    rcases List.mem_cons.mp h with rfl | h
    · omega
    · have := ih h
      omega

/-- The new posts of a plan collide neither with each other nor with the stored ones. -/
structure Insertable (posts : List Post) (new : List NewPost) : Prop where
  guids : (new.map NewPost.guid).Nodup
  urls : (new.map NewPost.downloadUrl).Nodup
  apart : ∀ n ∈ new, ∀ post ∈ posts, post.guid ≠ n.guid ∧ post.downloadUrl ≠ n.downloadUrl

/-- The rows that new posts become. -/
structure Inserted (posts : List Post) (new : List NewPost) (rows : List Post) : Prop where
  made : ∀ row ∈ rows, ∃ n ∈ new, ∃ id, row = n.toPost id ∧ ∀ post ∈ posts, post.id ≠ id
  complete : ∀ n ∈ new, ∃ row ∈ rows, ∃ id, row = n.toPost id

theorem insertPosts_eq_some {posts : List Post} {new : List NewPost} (h : Insertable posts new) :
    ∃ rows, insertPosts posts new = some (posts ++ rows) ∧ Inserted posts new rows := by
  induction new generalizing posts with
  | nil =>
    refine ⟨[],by rw [insertPosts,List.append_nil],⟨?_,?_⟩⟩
    · intro row hrow
      cases hrow
    · intro n hn
      cases hn
  | cons n new ih =>
    obtain ⟨hguid,hguids⟩ := List.nodup_cons.mp h.guids
    obtain ⟨hurl,hurls⟩ := List.nodup_cons.mp h.urls
    have hfree : insertPost posts n = some (posts ++ [n.toPost (nextId posts)]) := by
      refine if_neg ?_
      simp only [List.any_eq_true,Bool.or_eq_true,decide_eq_true_eq,not_exists,not_and,not_or]
      exact h.apart n List.mem_cons_self
    have hrest : Insertable (posts ++ [n.toPost (nextId posts)]) new := by
      refine ⟨hguids,hurls,?_⟩
      intro m hm post hpost
      rcases List.mem_append.mp hpost with hpost | hpost
      · exact h.apart m (List.mem_cons_of_mem n hm) post hpost
      · obtain rfl := List.mem_singleton.mp hpost
        exact ⟨fun he => hguid (List.mem_map.mpr ⟨m,hm,he.symm⟩),
          fun he => hurl (List.mem_map.mpr ⟨m,hm,he.symm⟩)⟩
    obtain ⟨rows,hrows,hinserted⟩ := ih hrest
    refine ⟨n.toPost (nextId posts)::rows,?_,⟨?_,?_⟩⟩
    · rw [insertPosts,hfree]
      dsimp only
      rw [hrows,List.append_assoc,List.singleton_append]
    · intro row hrow
      rcases List.mem_cons.mp hrow with rfl | hrow
      · exact ⟨n,List.mem_cons_self,_,rfl,fun post hpost => (id_lt_nextId hpost).ne⟩
      · obtain ⟨m,hm,id,hid,hfresh⟩ := hinserted.made row hrow
        exact ⟨m,List.mem_cons_of_mem n hm,id,hid,
          fun post hpost => hfresh post (List.mem_append_left _ hpost)⟩
    · intro m hm
      rcases List.mem_cons.mp hm with rfl | hm
      · exact ⟨_,List.mem_cons_self,_,rfl⟩
      · obtain ⟨row,hrow,id,hid⟩ := hinserted.complete m hm
        exact ⟨row,List.mem_cons_of_mem _ hrow,id,hid⟩

/-! Updates -/

theorem apply_id (post : Post) (u : PostUpdate) : (PostUpdate.apply post u).id = post.id := rfl

/-- The updates of a plan give a guid to one post only, and to none while another has it. -/
structure Updatable (posts : List Post) (us : List PostUpdate) : Prop where
  known : ∀ u ∈ us, u.postId ≠ 0 ∧ ∃ post ∈ posts, post.id = u.postId
  apart : ∀ u ∈ us, ∀ post ∈ posts, post.id ≠ u.postId → u.guid ≠ some post.guid
  once : ∀ u ∈ us, ∀ v ∈ us, ∀ guid, u.guid = some guid → v.guid = some guid → v.postId = u.postId

/-- A post after those of some updates that are for it. -/
def settle (us : List PostUpdate) (post : Post) : Post :=
  (us.filter (fun u => u.postId = post.id)).foldl PostUpdate.apply post

theorem settle_cons (u : PostUpdate) (us : List PostUpdate) (post : Post) :
    settle (u::us) post =
      settle us (if post.id = u.postId then PostUpdate.apply post u else post) := by
  unfold settle
  by_cases h : post.id = u.postId
  · rw [if_pos h,List.filter_cons_of_pos (by simp [h]),List.foldl_cons,apply_id]
  · rw [if_neg h,List.filter_cons_of_neg (by simpa using Ne.symm h)]

theorem applyExistingPostUpdates_eq_some {posts : List Post} {us : List PostUpdate}
    (h : Updatable posts us) : applyExistingPostUpdates posts us = some (posts.map (settle us)) := by
  induction us generalizing posts with
  | nil =>
    have hsettle : settle [] = id := rfl
    rw [applyExistingPostUpdates,hsettle,List.map_id]
  | cons u us ih =>
    obtain ⟨hzero,target,htarget,hid⟩ := h.known u List.mem_cons_self
    have hknown : ¬(u.postId = 0 ∨ posts.all (fun post => post.id ≠ u.postId)) := by
      rintro (hz | hall)
      · exact hzero hz
      · exact of_decide_eq_true (List.all_eq_true.mp hall target htarget) hid
    have hfree : ¬posts.any (fun post => post.id ≠ u.postId && u.guid = some post.guid) := by
      simp only [List.any_eq_true,Bool.and_eq_true,decide_eq_true_eq,not_exists,not_and]
      exact h.apart u List.mem_cons_self
    rw [applyExistingPostUpdates,applyUpdate,if_neg hknown,if_neg hfree]
    dsimp only
    rw [ih,List.map_map]
    · refine congrArg some (List.map_congr_left (fun post _ => ?_))
      exact (settle_cons u us post).symm
    · refine ⟨?_,?_,?_⟩
      · intro v hv
        obtain ⟨hvzero,post,hpost,hvid⟩ := h.known v (List.mem_cons_of_mem u hv)
        refine ⟨hvzero,_,List.mem_map_of_mem hpost,?_⟩
        split
        · exact hvid
        · exact hvid
      · intro v hv post hpost hne hguid
        obtain ⟨old,hold,rfl⟩ := List.mem_map.mp hpost
        have hkept := h.apart v (List.mem_cons_of_mem u hv) old hold
        by_cases hu : old.id = u.postId
        · -- The post has just got a guid, which another update gives to no other post.
          rw [if_pos hu] at hne hguid
          cases hg : u.guid with
          | none =>
            simp only [PostUpdate.apply,hg,Option.getD_none] at hguid
            exact hkept hne hguid
          | some guid =>
            simp only [PostUpdate.apply,hg,Option.getD_some] at hguid
            exact hne (hu.trans (h.once v (List.mem_cons_of_mem u hv) u List.mem_cons_self guid
              hguid hg))
        · rw [if_neg hu] at hne hguid
          exact hkept hne hguid
      · intro v hv w hw
        exact h.once v (List.mem_cons_of_mem u hv) w (List.mem_cons_of_mem u hw)

end Podly.Refresh
