import Podly.Refresh.Converges

/-! The second plan for a document, and the points in which the two planners differ. -/
namespace Podly.Refresh
open Lists AdBlocks

/-- An update of the post for the entry would write nothing. -/
structure UpToDate (feed : Feed) (p : Post) (e : Entry) : Prop where
  title : e.title ≠ "" → p.title = e.title
  description : p.description = some e.description
  image : p.imageUrl = episodeImageUrl feed e
  duration : p.processedAudioPath = none → ∀ duration, e.duration = some duration →
    p.duration = some duration

section
variable {feed : Feed} {posts : List Post} {p : Post} {e : Entry}

theorem changed_eq_none_iff {α : Type*} [DecidableEq α] {stored new : α} :
    changed stored new = none ↔ stored = new := by
  simp [changed]

theorem changedValue_eq_none_iff {α : Type*} [DecidableEq α] {stored : Option α} {new : α} :
    changedValue stored new = none ↔ stored = some new := by
  simp [changedValue]

theorem title_eq_none_iff : (updatedTitle e.title).bind (changed p.title) = none ↔
    (e.title ≠ "" → p.title = e.title) := by
  unfold updatedTitle
  split
  · rename_i h
    simp [h]
  · rename_i h
    simp [h,changed_eq_none_iff]

theorem duration_eq_none_iff : (updatedDuration p e).bind (changedValue p.duration) = none ↔
    (p.processedAudioPath = none → ∀ duration, e.duration = some duration →
      p.duration = some duration) := by
  unfold updatedDuration
  split
  · rename_i h
    cases hd : e.duration with
    | none => simp
    | some duration => simp [h,changedValue_eq_none_iff]
  · rename_i h
    simp [h]

theorem existingPostRefreshPayload_eq_none_iff {guid : Option String} :
    existingPostRefreshPayload feed p e guid = none ↔ guid = none ∧ UpToDate feed p e := by
  rw [existingPostRefreshPayload,e.title_strip,postUpdate_eq_none_iff,title_eq_none_iff,
    changedValue_eq_none_iff,changed_eq_none_iff,duration_eq_none_iff]
  constructor
  · rintro ⟨hg,ht,hd,hi,hu⟩
    exact ⟨hg,⟨ht,hd,hi,hu⟩⟩
  · rintro ⟨hg,hu⟩
    exact ⟨hg,hu.title,hu.description,hu.image,hu.duration⟩

theorem UpToDate.refreshUpdate (h : UpToDate feed p e) :
    existingPostRefreshUpdate feed p e none = none := by
  rw [existingPostRefreshUpdate,postUpdate_eq_none_iff,title_eq_none_iff,changed_eq_none_iff,
    changed_eq_none_iff,duration_eq_none_iff,h.description]
  exact ⟨rfl,h.title,rfl,h.image,h.duration⟩

theorem existingPost_of_find?
    (h : posts.find? (fun post => post.guid = e.guid) = some p) :
    existingPost posts e = some (p,none) ∧ existing posts e = some (p,none) := by
  simp only [existingPost,existing,matchPost,h,and_self]

/-- An entry that asks for nothing has its guid stored, on a post that is up to date. -/
theorem exists_upToDate {guid : Option String} (hfound : existingPost posts e = some (p,guid))
    (hnone : existingPostRefreshPayload feed p e guid = none) :
    p ∈ posts ∧ p.guid = e.guid ∧ UpToDate feed p e := by
  obtain ⟨rfl,hup⟩ := existingPostRefreshPayload_eq_none_iff.mp hnone
  cases hfind : posts.find? (fun post => post.guid = e.guid) with
  | some q =>
    have hq := (existingPost_of_find? hfind).1
    obtain rfl : q = p := congrArg Prod.fst (Option.some.inj (hq.symm.trans hfound))
    exact ⟨List.mem_of_find?_eq_some hfind,by simpa using List.find?_some hfind,hup⟩
  | none =>
    rw [existingPost,matchPost,hfind] at hfound
    dsimp only at hfound
    split at hfound
    · rename_i q hq
      obtain ⟨url,-,hurl⟩ := Option.bind_eq_some_iff.mp hq
      have hne : q.guid ≠ e.guid :=
        find?_guid_eq_none.mp hfind q (List.mem_of_find?_eq_some hurl)
      rw [if_pos hne] at hfound
      cases hfound
    · cases hfound

theorem imageUpdate_withImage (feed : Feed) (channelImage : Option String) :
    imageUpdate (feed.withImage channelImage) channelImage = none := by
  unfold imageUpdate Feed.withImage imageUpdate
  cases channelImage with
  | none => rfl
  | some image =>
    by_cases h : feed.imageUrl = some image <;> simp [Option.filter_some,h]

variable {autoWhitelist : Bool} {doc : Document}

/-- A plan is empty for a feed whose posts are up to date. -/
theorem isEmpty_of_forall (himage : imageUpdate feed doc.channelImage = none)
    (h : ∀ e ∈ doc.entries, ∃ p, posts.find? (fun post => post.guid = e.guid) = some p ∧
      UpToDate feed p e) :
    (buildRefreshFeedPayload feed posts autoWhitelist doc).IsEmpty ∧
      (planFeedRefresh feed posts autoWhitelist doc).IsEmpty := by
  have hnew : doc.entries.filter (fun e => (existingPost posts e).isNone) = [] ∧
      doc.entries.filter (fun e => (existing posts e).isNone) = [] := by
    simp only [List.filter_eq_nil_iff]
    constructor
    · intro e he
      obtain ⟨p,hp,-⟩ := h e he
      simp [(existingPost_of_find? hp).1]
    · intro e he
      obtain ⟨p,hp,-⟩ := h e he
      simp [(existingPost_of_find? hp).2]
  have hupdates : doc.entries.filterMap (payloadOf feed posts) = [] ∧
      doc.entries.filterMap (fun e => (existing posts e).bind (fun found =>
        existingPostRefreshUpdate feed found.1 e found.2)) = [] := by
    simp only [List.filterMap_eq_nil_iff]
    constructor
    · intro e he
      obtain ⟨p,hp,hup⟩ := h e he
      rw [payloadOf,(existingPost_of_find? hp).1,Option.bind_some]
      exact existingPostRefreshPayload_eq_none_iff.mpr ⟨rfl,hup⟩
    · intro e he
      obtain ⟨p,hp,hup⟩ := h e he
      rw [(existingPost_of_find? hp).2,Option.bind_some]
      exact hup.refreshUpdate
  constructor
  · rw [Plan.IsEmpty,buildRefreshFeedPayload,himage,hnew.1]
    exact congrArg (Plan.mk none []) hupdates.1
  · rw [Plan.IsEmpty,planFeedRefresh,himage,hnew.2]
    exact congrArg (Plan.mk none []) hupdates.2

theorem exists_of_isEmpty (h : (buildRefreshFeedPayload feed posts autoWhitelist doc).IsEmpty)
    (he : e ∈ doc.entries) : ∃ p ∈ posts, p.guid = e.guid ∧ UpToDate feed p e := by
  have hnew : doc.entries.filter (fun e => (existingPost posts e).isNone) = [] :=
    List.map_eq_nil_iff.mp (congrArg Plan.newPosts h)
  have hupdates : doc.entries.filterMap (payloadOf feed posts) = [] :=
    congrArg Plan.existingPostUpdates h
  cases hfound : existingPost posts e with
  | none => exact absurd (List.filter_eq_nil_iff.mp hnew e he) (by simp [hfound])
  | some found =>
    obtain ⟨p,guid⟩ := found
    have hnone := List.filterMap_eq_nil_iff.mp hupdates e he
    rw [payloadOf,hfound,Option.bind_some] at hnone
    obtain ⟨hp,hguid,hup⟩ := exists_upToDate hfound hnone
    exact ⟨p,hp,hguid,hup⟩

/-! The second plan -/

section
variable {after : Feed × List Post} {rows : List Post}

theorem settledPost_images (h : Stored posts) (hp : p ∈ posts) (entries : List Entry) :
    (settledPost feed posts entries p).imageUrl =
      settled p.imageUrl ((entriesFor posts p entries).map (episodeImageUrl feed)) := by
  rw [settledPost_imageUrl feed h hp]
  exact congrArg (settled p.imageUrl) (congrFun List.filterMap_eq_map' _)

theorem IsFor.mem (hfor : IsFor posts e p) : p ∈ posts :=
  hfor.elim And.left (fun hurl => hurl.2.2.1)

/-- If the second plan is empty, the entries agree. -/
theorem After.agreeing (h : Stored posts) (hk : KeysFit posts doc.entries)
    (ha : After feed posts autoWhitelist doc after rows)
    (hempty : (buildRefreshFeedPayload after.1 after.2 autoWhitelist doc).IsEmpty) :
    Agreeing feed posts doc := by
  have hfor : ∀ e ∈ doc.entries, ∀ p, IsFor posts e p →
      (settledPost feed posts doc.entries p).guid = e.guid ∧
        UpToDate (feed.withImage doc.channelImage) (settledPost feed posts doc.entries p) e := by
    intro e he p hp
    obtain ⟨row,hrow,hguid,hup⟩ := exists_of_isEmpty hempty he
    rw [ha.feed_eq] at hup
    rw [← ha.row_of_isFor h hk he hp hrow hguid]
    exact ⟨hguid,hup⟩
  refine ⟨?_,?_,?_,?_,?_,?_,?_⟩
  · intro e he f hf p hep hfp
    exact (hfor e he p (Or.inr hep)).1.symm.trans (hfor f hf p (Or.inr hfp)).1
  · intro e he f hf p hep hfp
    have hguid := (hfor e he p (Or.inl hep)).1.symm.trans (hfor f hf p (Or.inr hfp)).1
    exact hfp.1 p hep.1 (hep.2.trans hguid)
  · intro e he f hf p hep hfp hte htf
    exact ((hfor e he p hep).2.title hte).symm.trans ((hfor f hf p hfp).2.title htf)
  · intro e he f hf p hep hfp
    exact Option.some.inj ((hfor e he p hep).2.description.symm.trans (hfor f hf p hfp).2.description)
  · intro e he f hf p hep hfp haudio hde hdf
    obtain ⟨d,hd⟩ := Option.ne_none_iff_exists'.mp hde
    obtain ⟨d',hd'⟩ := Option.ne_none_iff_exists'.mp hdf
    have hsame : (settledPost feed posts doc.entries p).processedAudioPath = none :=
      (settle_same (fun _ _ => rfl) _ p).trans haudio
    rw [hd,hd',← (hfor e he p hep).2.duration hsame d hd,
      ← (hfor f hf p hfp).2.duration hsame d' hd']
  · intro e he p hep
    rw [← settledPost_images h hep.mem]
    exact (hfor e he p hep).2.image
  · intro e he hnew
    obtain ⟨row,hrow,hguid,hup⟩ := exists_of_isEmpty hempty he
    obtain ⟨id,rfl⟩ := ha.row_of_isNew h hk he hnew hrow hguid
    rw [ha.feed_eq] at hup
    exact hup.image

/-- A post whose entries agree gets the guid of each of them. -/
theorem Agreeing.guid (h : Stored posts) (hagree : Agreeing feed posts doc) (he : e ∈ doc.entries)
    (hfor : IsFor posts e p) : (settledPost feed posts doc.entries p).guid = e.guid := by
  have hp := hfor.mem
  rw [settledPost_guid feed h hp]
  rcases hfor with hbyGuid | hbyUrl
  · rcases settled_eq_or_mem p.guid
        ((entriesFor posts p doc.entries).filterMap (repairedGuid posts)) with hkept | hgiven
    · exact hkept.trans hbyGuid.2
    · obtain ⟨f,hf,hfp,-⟩ := (mem_repairedGuids h hp).mp hgiven
      exact absurd hfp (hagree.crossed e he f hf p hbyGuid)
  · have hmem := (mem_repairedGuids h hp).mpr ⟨e,he,hbyUrl,rfl⟩
    obtain ⟨f,hf,hfp,hguid⟩ := (mem_repairedGuids h hp).mp
      (settled_mem hmem (Ne.symm (hbyUrl.1 p hp)))
    rw [← hguid]
    exact hagree.repaired f hf e he p hfp hbyUrl

/-- What the entries for a post give to a column is one value, if any two of them that give it one
give it the same. -/
theorem settled_of_agree (h : Stored posts) {α : Type*} [DecidableEq α]
    {given : Entry → Option α} {stored v : α}
    (hgiven : given e = some v) (he : e ∈ doc.entries) (hfor : IsFor posts e p)
    (hagree : ∀ f ∈ doc.entries, ∀ g ∈ doc.entries, IsFor posts f p → IsFor posts g p →
      ∀ a b, given f = some a → given g = some b → a = b) :
    settled stored ((entriesFor posts p doc.entries).filterMap given) = v := by
  have hp := hfor.mem
  refine forall_settled_eq_iff.mpr ?_ v
    (List.mem_filterMap.mpr ⟨e,(mem_entriesFor h hp).mpr ⟨he,hfor⟩,hgiven⟩)
  intro a ha b hb
  obtain ⟨f,hf,hfa⟩ := List.mem_filterMap.mp ha
  obtain ⟨g,hg,hgb⟩ := List.mem_filterMap.mp hb
  obtain ⟨hf,hffor⟩ := (mem_entriesFor h hp).mp hf
  obtain ⟨hg,hgfor⟩ := (mem_entriesFor h hp).mp hg
  exact hagree f hf g hg hffor hgfor a b hfa hgb

theorem updatedTitle_eq_some {title new : String} :
    updatedTitle title = some new ↔ title ≠ "" ∧ title = new := by
  unfold updatedTitle
  split <;> simp_all

/-- A post whose entries agree is up to date with each of them. -/
theorem Agreeing.upToDate (h : Stored posts) (hagree : Agreeing feed posts doc)
    (he : e ∈ doc.entries) (hfor : IsFor posts e p) :
    UpToDate (feed.withImage doc.channelImage) (settledPost feed posts doc.entries p) e := by
  have hp := hfor.mem
  refine ⟨?_,?_,?_,?_⟩
  · intro htitle
    rw [settledPost_title feed h hp]
    refine settled_of_agree h ?_ he hfor ?_
    · exact updatedTitle_eq_some.mpr ⟨htitle,rfl⟩
    intro f hf g hg hffor hgfor a b ha hb
    obtain ⟨htf,rfl⟩ := updatedTitle_eq_some.mp ha
    obtain ⟨htg,rfl⟩ := updatedTitle_eq_some.mp hb
    exact hagree.titles f hf g hg p hffor hgfor htf htg
  · rw [settledPost_description feed h hp]
    refine settled_of_agree h ?_ he hfor ?_
    · rfl
    intro f hf g hg hffor hgfor a b ha hb
    rw [← Option.some.inj ha,← Option.some.inj hb,hagree.descriptions f hf g hg p hffor hgfor]
  · rw [settledPost_images h hp]
    exact hagree.images e he p hfor
  · intro haudio duration hduration
    have hkept : ∀ (q : Post) (u : PostUpdate),
        Post.processedAudioPath (u.apply q) = Post.processedAudioPath q := fun _ _ => rfl
    have haudio : p.processedAudioPath = none := (settle_same hkept _ p).symm.trans haudio
    have hwanted : ∀ f : Entry, updatedDuration p f = f.duration := fun f => if_pos haudio
    rw [settledPost_duration feed h hp]
    refine settled_of_agree h ?_ he hfor ?_
    · rw [hwanted,hduration,Option.map_some]
    intro f hf g hg hffor hgfor a b ha hb
    rw [hwanted] at ha hb
    obtain ⟨d,hd,rfl⟩ := Option.map_eq_some_iff.mp ha
    obtain ⟨d',hd',rfl⟩ := Option.map_eq_some_iff.mp hb
    have hsame := hagree.durations f hf g hg p hffor hgfor haudio (by simp [hd]) (by simp [hd'])
    rw [hd,hd'] at hsame
    exact hsame

/-- If the entries agree, the second plan is empty for both planners. -/
theorem After.isEmpty (h : Stored posts) (hk : KeysFit posts doc.entries)
    (ha : After feed posts autoWhitelist doc after rows) (hagree : Agreeing feed posts doc) :
    (buildRefreshFeedPayload after.1 after.2 autoWhitelist doc).IsEmpty ∧
      (planFeedRefresh after.1 after.2 autoWhitelist doc).IsEmpty := by
  refine isEmpty_of_forall ?_ ?_
  · rw [ha.feed_eq]
    exact imageUpdate_withImage feed doc.channelImage
  · intro e he
    have hentry : (∃ row ∈ after.2, row.guid = e.guid) ∧ ∀ row ∈ after.2, row.guid = e.guid →
        UpToDate after.1 row e := by
      rw [ha.feed_eq]
      by_cases hfor : ∃ p, IsFor posts e p
      · obtain ⟨p,hfor⟩ := hfor
        refine ⟨⟨_,?_,hagree.guid h he hfor⟩,fun row hrow hguid => ?_⟩
        · rw [ha.posts_eq]
          exact List.mem_append_left _ (List.mem_map_of_mem hfor.mem)
        · rw [ha.row_of_isFor h hk he hfor hrow hguid]
          exact hagree.upToDate h he hfor
      · have hnew : IsNew posts e := by
          rcases entry_cases posts e with ⟨p,hp⟩ | ⟨p,hp⟩ | hnew
          · exact absurd ⟨p,Or.inl hp⟩ hfor
          · exact absurd ⟨p,Or.inr hp⟩ hfor
          · exact hnew
        obtain ⟨row,hrow,hguid⟩ := ha.complete e he hnew
        refine ⟨⟨row,?_,hguid⟩,fun row hrow hguid => ?_⟩
        · rw [ha.posts_eq]
          exact List.mem_append_right _ hrow
        · obtain ⟨id,rfl⟩ := ha.row_of_isNew h hk he hnew hrow hguid
          exact ⟨fun _ => rfl,rfl,hagree.newImages e he hnew,fun _ _ hduration => hduration⟩
    obtain ⟨⟨row,hrow,hguid⟩,hall⟩ := hentry
    have hsome : (after.2.find? (fun post => post.guid = e.guid)).isSome :=
      List.find?_isSome.mpr ⟨row,hrow,by simpa using hguid⟩
    obtain ⟨found,hfound⟩ := Option.isSome_iff_exists.mp hsome
    exact ⟨found,hfound,hall found (List.mem_of_find?_eq_some hfound)
      (by simpa using List.find?_some hfound)⟩

end

end

end Podly.Refresh
