import Podly.Lists.Replaced
import Podly.Refresh.Apply

/-! Which entries are for which post, and the columns of a post after the updates of a plan. -/
namespace Podly.Refresh
open Lists AdBlocks

/-- The posts of a feed under their keys. -/
structure Stored (posts : List Post) : Prop where
  ids : (posts.map Post.id).Nodup
  guids : (posts.map Post.guid).Nodup
  urls : (posts.map Post.downloadUrl).Nodup
  id_ne_zero : ∀ post ∈ posts, post.id ≠ 0

/-- The entry has the guid of a post. -/
def ByGuid (posts : List Post) (e : Entry) (post : Post) : Prop :=
  post ∈ posts ∧ post.guid = e.guid

/-- The entry has a guid that is not stored, and the URL of a post. -/
def ByUrl (posts : List Post) (e : Entry) (post : Post) : Prop :=
  (∀ q ∈ posts, q.guid ≠ e.guid) ∧ e.audioUrl ≠ "" ∧ post ∈ posts ∧ post.downloadUrl = e.audioUrl

/-- The entry has neither. -/
def IsNew (posts : List Post) (e : Entry) : Prop :=
  (∀ q ∈ posts, q.guid ≠ e.guid) ∧ (e.audioUrl ≠ "" → ∀ q ∈ posts, q.downloadUrl ≠ e.audioUrl)

section
variable {posts : List Post} {e : Entry} {p : Post}

theorem find?_eq_some_of_nodup {β : Type*} [DecidableEq β] {f : Post → β}
    (h : (posts.map f).Nodup) (hp : p ∈ posts) :
    posts.find? (fun post => f post = f p) = some p := by
  have hsome : (posts.find? (fun post => f post = f p)).isSome :=
    List.find?_isSome.mpr ⟨p,hp,by simp⟩
  obtain ⟨q,hq⟩ := Option.isSome_iff_exists.mp hsome
  have he : f q = f p := by simpa using List.find?_some hq
  rw [hq,List.inj_on_of_nodup_map h (List.mem_of_find?_eq_some hq) hp he]

theorem find?_guid_eq_none : posts.find? (fun post => post.guid = e.guid) = none ↔
    ∀ q ∈ posts, q.guid ≠ e.guid := by simp

theorem matchPost_of_byGuid (h : Stored posts) (hp : ByGuid posts e p) (byUrl : Option String) :
    matchPost posts byUrl e = some (p,none) := by
  obtain ⟨hmem,hguid⟩ := hp
  have hfind : posts.find? (fun post => post.guid = e.guid) = some p :=
    hguid ▸ find?_eq_some_of_nodup h.guids hmem
  rw [matchPost,hfind]

theorem matchPost_of_byUrl (h : Stored posts) (hp : p ∈ posts) (hguid : ∀ q ∈ posts, q.guid ≠ e.guid)
    (hurl : p.downloadUrl = e.audioUrl) :
    matchPost posts (some e.audioUrl) e = some (p,some e.guid) := by
  have hfind : posts.find? (fun post => post.downloadUrl = e.audioUrl) = some p :=
    hurl ▸ find?_eq_some_of_nodup h.urls hp
  rw [matchPost,find?_guid_eq_none.mpr hguid]
  simp only [Option.bind_some,hfind,if_pos (hguid p hp)]

theorem existingPost_of_byGuid (h : Stored posts) (hp : ByGuid posts e p) :
    existingPost posts e = some (p,none) := matchPost_of_byGuid h hp _

theorem existingPost_of_byUrl (h : Stored posts) (hp : ByUrl posts e p) :
    existingPost posts e = some (p,some e.guid) := by
  obtain ⟨hguid,hempty,hmem,hurl⟩ := hp
  rw [existingPost,Option.filter_some,if_pos (by simpa using hempty)]
  exact matchPost_of_byUrl h hmem hguid hurl

theorem existingPost_of_isNew (h : IsNew posts e) : existingPost posts e = none := by
  rw [existingPost,matchPost,find?_guid_eq_none.mpr h.1,Option.filter_some]
  by_cases hempty : e.audioUrl = ""
  · simp [hempty]
  · have hfind : posts.find? (fun post => post.downloadUrl = e.audioUrl) = none := by
      simpa using h.2 hempty
    simp [hempty,hfind]

/-- An entry is for a post by its guid, or by its URL, or for none. -/
theorem entry_cases (posts : List Post) (e : Entry) :
    (∃ p, ByGuid posts e p) ∨ (∃ p, ByUrl posts e p) ∨ IsNew posts e := by
  by_cases hguid : ∃ p, ByGuid posts e p
  · exact Or.inl hguid
  · have hnone : ∀ q ∈ posts, q.guid ≠ e.guid := fun q hq he => hguid ⟨q,hq,he⟩
    by_cases hurl : ∃ p, ByUrl posts e p
    · exact Or.inr (Or.inl hurl)
    · exact Or.inr (Or.inr ⟨hnone,fun hempty q hq he => hurl ⟨q,hnone,hempty,hq,he⟩⟩)

theorem existingPost_eq_none_iff (h : Stored posts) : existingPost posts e = none ↔ IsNew posts e := by
  refine ⟨fun hnone => ?_,existingPost_of_isNew⟩
  rcases entry_cases posts e with ⟨q,hq⟩ | ⟨q,hq⟩ | hnew
  · rw [existingPost_of_byGuid h hq] at hnone
    cases hnone
  · rw [existingPost_of_byUrl h hq] at hnone
    cases hnone
  · exact hnew

theorem existingPost_eq_some (h : Stored posts) {guid : Option String}
    (hfound : existingPost posts e = some (p,guid)) :
    ByGuid posts e p ∧ guid = none ∨ ByUrl posts e p ∧ guid = some e.guid := by
  rcases entry_cases posts e with ⟨q,hq⟩ | ⟨q,hq⟩ | hnew
  · have he := Option.some.inj ((existingPost_of_byGuid h hq).symm.trans hfound)
    cases he
    exact Or.inl ⟨hq,rfl⟩
  · have he := Option.some.inj ((existingPost_of_byUrl h hq).symm.trans hfound)
    cases he
    exact Or.inr ⟨hq,rfl⟩
  · rw [existingPost_of_isNew hnew] at hfound
    cases hfound

end

/-! The columns of an update -/

section
variable {feed : Feed} {p : Post} {e : Entry} {guid title description : Option String}

theorem isEmpty_iff {u : PostUpdate} : u.isEmpty ↔ u.guid = none ∧ u.title = none ∧
    u.description = none ∧ u.imageUrl = none ∧ u.duration = none := by
  simp [PostUpdate.isEmpty,and_assoc]

theorem changedValue_map {α : Type*} [DecidableEq α] (stored : Option α) (new : α) :
    (changedValue stored new).map some = changed stored (some new) := by
  unfold changedValue changed
  split <;> rfl

/-- The column of an update is what it would write, also when that is nothing. -/
theorem postUpdate_bind {β : Type*} {f : PostUpdate → Option β}
    (hf : ∀ u : PostUpdate, u.isEmpty → f u = none) :
    (postUpdate feed p e guid title description).bind f =
      f ⟨p.id,guid,title.bind (changed p.title),description,
        changed p.imageUrl (episodeImageUrl feed e),
        (updatedDuration p e).bind (changedValue p.duration)⟩ := by
  unfold postUpdate
  dsimp only
  split
  · rename_i hempty
    exact (hf _ hempty).symm
  · rfl

theorem postUpdate_eq_none_iff : postUpdate feed p e guid title description = none ↔
    guid = none ∧ title.bind (changed p.title) = none ∧ description = none ∧
      changed p.imageUrl (episodeImageUrl feed e) = none ∧
      (updatedDuration p e).bind (changedValue p.duration) = none := by
  unfold postUpdate
  dsimp only
  split
  · rename_i hempty
    exact iff_of_true rfl (isEmpty_iff.mp hempty)
  · rename_i hempty
    exact iff_of_false (Option.some_ne_none _) (fun h => hempty (isEmpty_iff.mpr h))

theorem postId_of_mem_postUpdate {u : PostUpdate}
    (h : postUpdate feed p e guid title description = some u) : u.postId = p.id := by
  unfold postUpdate at h
  dsimp only at h
  split at h
  · cases h
  · rw [← Option.some.inj h]

theorem guid_of_mem_postUpdate {u : PostUpdate}
    (h : postUpdate feed p e guid title description = some u) : u.guid = guid := by
  unfold postUpdate at h
  dsimp only at h
  split at h
  · cases h
  · rw [← Option.some.inj h]

end

/-! The updates for one post -/

section
variable {feed : Feed} {posts : List Post} {doc : Document} {p : Post}

/-- The entries for a post. -/
def entriesFor (posts : List Post) (p : Post) (entries : List Entry) : List Entry :=
  entries.filter (fun e => (existingPost posts e).any (fun found => found.1.id = p.id))

theorem mem_entriesFor (h : Stored posts) (hp : p ∈ posts) {entries : List Entry} {e : Entry} :
    e ∈ entriesFor posts p entries ↔ e ∈ entries ∧ (ByGuid posts e p ∨ ByUrl posts e p) := by
  rw [entriesFor,List.mem_filter]
  refine and_congr_right (fun _ => ?_)
  constructor
  · intro hany
    cases hfound : existingPost posts e with
    | none =>
      rw [hfound] at hany
      cases hany
    | some found =>
      obtain ⟨q,guid⟩ := found
      rw [hfound] at hany
      have hid : q.id = p.id := by simpa using hany
      have hq := existingPost_eq_some h hfound
      have hmem : q ∈ posts := hq.elim (fun hq => hq.1.1) (fun hq => hq.1.2.2.1)
      obtain rfl := List.inj_on_of_nodup_map h.ids hmem hp hid
      exact hq.imp And.left And.left
  · rintro (hg | hu)
    · rw [existingPost_of_byGuid h hg]
      simp
    · rw [existingPost_of_byUrl h hu]
      simp

/-- The update that an entry asks for. -/
def payloadOf (feed : Feed) (posts : List Post) (e : Entry) : Option PostUpdate :=
  (existingPost posts e).bind (fun found => existingPostRefreshPayload feed found.1 e found.2)

/-- A column of the updates for a post comes from the entries for it. -/
theorem filterMap_updatesFor {β : Type*} (h : Stored posts) (hp : p ∈ posts)
    {f : PostUpdate → Option β} {g : Entry → Option β} (entries : List Entry)
    (hg : ∀ e guid, existingPost posts e = some (p,guid) →
      (existingPostRefreshPayload feed p e guid).bind f = g e) :
    ((entries.filterMap (payloadOf feed posts)).filter (fun u => u.postId = p.id)).filterMap f =
      (entriesFor posts p entries).filterMap g := by
  induction entries with
  | nil => rfl
  | cons e entries ih =>
    rw [entriesFor] at ih ⊢
    cases hfound : existingPost posts e with
    | none =>
      have hnone : payloadOf feed posts e = none := by rw [payloadOf,hfound,Option.bind_none]
      rw [List.filterMap_cons_none hnone,List.filter_cons_of_neg (by simp [hfound])]
      exact ih
    | some found =>
      obtain ⟨q,guid⟩ := found
      have hpayload : payloadOf feed posts e = existingPostRefreshPayload feed q e guid := by
        rw [payloadOf,hfound,Option.bind_some]
      by_cases hid : q.id = p.id
      · have hq := existingPost_eq_some h hfound
        have hmem : q ∈ posts := hq.elim (fun hq => hq.1.1) (fun hq => hq.1.2.2.1)
        obtain rfl := List.inj_on_of_nodup_map h.ids hmem hp hid
        have hcolumn := hg e guid hfound
        rw [List.filter_cons_of_pos (l := entries) (by simp [hfound])]
        cases hu : existingPostRefreshPayload feed q e guid with
        | none =>
          rw [hu,Option.bind_none] at hcolumn
          rw [List.filterMap_cons_none (hpayload.trans hu),List.filterMap_cons_none hcolumn.symm]
          exact ih
        | some u =>
          rw [hu,Option.bind_some] at hcolumn
          have hpost : u.postId = q.id := postId_of_mem_postUpdate hu
          rw [List.filterMap_cons_some (hpayload.trans hu),
            List.filter_cons_of_pos (by simpa using hpost),List.filterMap_cons,
            List.filterMap_cons,hcolumn,ih]
      · rw [List.filter_cons_of_neg (l := entries) (by simp [hfound,hid])]
        cases hu : existingPostRefreshPayload feed q e guid with
        | none =>
          rw [List.filterMap_cons_none (hpayload.trans hu)]
          exact ih
        | some u =>
          have hpost : u.postId = q.id := postId_of_mem_postUpdate hu
          rw [List.filterMap_cons_some (hpayload.trans hu),
            List.filter_cons_of_neg (by simpa [hpost] using hid)]
          exact ih

theorem filterMap_changed {α : Type*} [DecidableEq α] (stored : α) (g : Entry → Option α)
    (entries : List Entry) : entries.filterMap (fun e => (g e).bind (changed stored)) =
      (entries.filterMap g).filter (fun v => v ≠ stored) := by
  induction entries with
  | nil => rfl
  | cons e entries ih =>
    cases hv : g e with
    | none => rw [List.filterMap_cons_none (by rw [hv,Option.bind_none]),List.filterMap_cons_none hv,ih]
    | some v =>
      rw [List.filterMap_cons_some hv]
      by_cases hne : stored = v
      · rw [List.filterMap_cons_none (by rw [hv,Option.bind_some,changed,if_pos hne]),
          List.filter_cons_of_neg (by simpa using hne.symm),ih]
      · rw [List.filterMap_cons_some (by rw [hv,Option.bind_some,changed,if_neg hne]),
          List.filter_cons_of_pos (by simpa using Ne.symm hne),ih]

/-- A column of a post after its updates is what remains of the stored value after the values that
the entries for the post have. -/
theorem settle_column {α : Type*} [DecidableEq α] (h : Stored posts) (hp : p ∈ posts)
    {column : Post → α} {f : PostUpdate → Option α} {g : Entry → Option α}
    (hcolumn : ∀ q u, column (PostUpdate.apply q u) = (f u).getD (column q))
    (hg : ∀ e guid, existingPost posts e = some (p,guid) →
      (existingPostRefreshPayload feed p e guid).bind f = (g e).bind (changed (column p)))
    (entries : List Entry) :
    column (settle (entries.filterMap (payloadOf feed posts)) p) =
      settled (column p) ((entriesFor posts p entries).filterMap g) := by
  have hfold : ∀ us : List PostUpdate, column (us.foldl PostUpdate.apply p) =
      us.foldl (fun x u => (f u).getD x) (column p) := fun us =>
    (List.foldl_hom column (fun q u => (hcolumn q u).symm)).symm
  rw [settle,hfold,foldl_getD,filterMap_updatesFor h hp entries hg,filterMap_changed,settled]

/-- A column that no update writes. -/
theorem settle_same {α : Type*} {column : Post → α}
    (hcolumn : ∀ q u, column (PostUpdate.apply q u) = column q) (us : List PostUpdate) (q : Post) :
    column (settle us q) = column q := by
  unfold settle
  induction us.filter (fun u => u.postId = q.id) generalizing q with
  | nil => rfl
  | cons u us ih => exact (ih (PostUpdate.apply q u)).trans (hcolumn q u)

section
variable (feed)

/-- A post after the updates of a plan. -/
def settledPost (posts : List Post) (entries : List Entry) (p : Post) : Post :=
  settle (entries.filterMap (payloadOf feed posts)) p

/-- The guid that an entry gives to a post. -/
def repairedGuid (posts : List Post) (e : Entry) : Option String :=
  (existingPost posts e).bind Prod.snd

theorem settledPost_guid (h : Stored posts) (hp : p ∈ posts) (entries : List Entry) :
    (settledPost feed posts entries p).guid =
      settled p.guid ((entriesFor posts p entries).filterMap (repairedGuid posts)) := by
  refine settle_column h hp (f := PostUpdate.guid) (fun _ _ => rfl) ?_ entries
  intro e guid hfound
  rw [existingPostRefreshPayload,postUpdate_bind (fun u hu => (isEmpty_iff.mp hu).1),repairedGuid,
    hfound,Option.bind_some]
  dsimp only
  rcases existingPost_eq_some h hfound with ⟨-,rfl⟩ | ⟨hurl,rfl⟩
  · rfl
  · rw [Option.bind_some,changed,if_neg (hurl.1 p hp)]

theorem settledPost_title (h : Stored posts) (hp : p ∈ posts) (entries : List Entry) :
    (settledPost feed posts entries p).title =
      settled p.title ((entriesFor posts p entries).filterMap (fun e => updatedTitle e.title)) := by
  refine settle_column h hp (f := PostUpdate.title) (fun _ _ => rfl) ?_ entries
  intro e guid _
  rw [existingPostRefreshPayload,postUpdate_bind (fun u hu => (isEmpty_iff.mp hu).2.1),
    e.title_strip]

theorem settledPost_description (h : Stored posts) (hp : p ∈ posts) (entries : List Entry) :
    (settledPost feed posts entries p).description =
      settled p.description
        ((entriesFor posts p entries).filterMap (fun e => some (some e.description))) := by
  refine settle_column h hp (f := fun u => u.description.map some) ?_ ?_ entries
  · intro q u
    cases hd : u.description <;> simp [PostUpdate.apply,hd]
  · intro e guid _
    rw [existingPostRefreshPayload,postUpdate_bind]
    · exact changedValue_map p.description e.description
    · intro u hu
      rw [(isEmpty_iff.mp hu).2.2.1,Option.map_none]

theorem settledPost_imageUrl (h : Stored posts) (hp : p ∈ posts) (entries : List Entry) :
    (settledPost feed posts entries p).imageUrl =
      settled p.imageUrl
        ((entriesFor posts p entries).filterMap (fun e => some (episodeImageUrl feed e))) := by
  refine settle_column h hp (f := PostUpdate.imageUrl) (fun _ _ => rfl) ?_ entries
  intro e guid _
  rw [existingPostRefreshPayload,postUpdate_bind (fun u hu => (isEmpty_iff.mp hu).2.2.2.1),
    Option.bind_some]

theorem settledPost_duration (h : Stored posts) (hp : p ∈ posts) (entries : List Entry) :
    (settledPost feed posts entries p).duration =
      settled p.duration
        ((entriesFor posts p entries).filterMap (fun e => (updatedDuration p e).map some)) := by
  refine settle_column h hp (f := fun u => u.duration.map some) ?_ ?_ entries
  · intro q u
    cases hd : u.duration <;> simp [PostUpdate.apply,hd]
  · intro e guid _
    rw [existingPostRefreshPayload,postUpdate_bind]
    · cases updatedDuration p e with
      | none => rfl
      | some duration => exact changedValue_map p.duration duration
    · intro u hu
      rw [(isEmpty_iff.mp hu).2.2.2.2,Option.map_none]

end

end

end Podly.Refresh
