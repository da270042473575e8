import Mathlib.Data.List.Pairwise
import Podly.Refresh.Columns

/-! When a refresh settles: its plan respects the keys of the feed and can be carried out, a second
plan for the same document is empty, and both planners agree. -/
namespace Podly.Refresh
open Lists AdBlocks

/-- The keys that a plan gives out are no others' keys. -/
structure KeysApart (posts : List Post) (plan : Plan) : Prop where
  newGuids : (plan.newPosts.map NewPost.guid).Nodup
  newUrls : (plan.newPosts.map NewPost.downloadUrl).Nodup
  newApart : ∀ n ∈ plan.newPosts, ∀ p ∈ posts, p.guid ≠ n.guid ∧ p.downloadUrl ≠ n.downloadUrl
  newUnused : ∀ n ∈ plan.newPosts, ∀ u ∈ plan.existingPostUpdates, u.guid ≠ some n.guid
  updateApart : ∀ u ∈ plan.existingPostUpdates, ∀ p ∈ posts, p.id ≠ u.postId →
    u.guid ≠ some p.guid
  updateOnce : ∀ u ∈ plan.existingPostUpdates, ∀ v ∈ plan.existingPostUpdates, ∀ guid,
    u.guid = some guid → v.guid = some guid → v.postId = u.postId

/-- No new posts and no updates. -/
def Plan.IsEmpty (plan : Plan) : Prop := plan = ⟨none,[],[]⟩

/-- What a refresh promises. -/
structure Refreshes (feed : Feed) (posts : List Post) (autoWhitelist : Bool) (doc : Document) :
    Prop where
  keys : KeysApart posts (buildRefreshFeedPayload feed posts autoWhitelist doc)
  converges : ∃ after,
    refreshFeedAction feed posts (buildRefreshFeedPayload feed posts autoWhitelist doc) =
      some after ∧
    (buildRefreshFeedPayload after.1 after.2 autoWhitelist doc).IsEmpty ∧
    (planFeedRefresh after.1 after.2 autoWhitelist doc).IsEmpty
  same : planFeedRefresh feed posts autoWhitelist doc =
    buildRefreshFeedPayload feed posts autoWhitelist doc

/-- The entry is for the post. -/
def IsFor (posts : List Post) (e : Entry) (p : Post) : Prop := ByGuid posts e p ∨ ByUrl posts e p

/-- The feed with the image of the channel. -/
def Feed.withImage (feed : Feed) (channelImage : Option String) : Feed :=
  { feed with imageUrl := (imageUpdate feed channelImage).or feed.imageUrl }

/-- The guids and URLs of the entries fit together with those that are stored. -/
structure KeysFit (posts : List Post) (entries : List Entry) : Prop where
  urls : ∀ e ∈ entries, IsNew posts e → e.audioUrl = "" → ∀ p ∈ posts, p.downloadUrl ≠ ""
  new : entries.Pairwise (fun e f => IsNew posts e → IsNew posts f →
    e.guid ≠ f.guid ∧ e.audioUrl ≠ f.audioUrl)
  newRepaired : ∀ n ∈ entries, IsNew posts n → ∀ e ∈ entries, ∀ p, ByUrl posts e p →
    n.guid ≠ e.guid
  repaired : ∀ e ∈ entries, ∀ f ∈ entries, ∀ p q, ByUrl posts e p → ByUrl posts f q →
    e.guid = f.guid → p = q

/-- The entries for one post say the same of it, as far as an update writes it. -/
structure Agreeing (feed : Feed) (posts : List Post) (doc : Document) : Prop where
  repaired : ∀ e ∈ doc.entries, ∀ f ∈ doc.entries, ∀ p, ByUrl posts e p → ByUrl posts f p →
    e.guid = f.guid
  crossed : ∀ e ∈ doc.entries, ∀ f ∈ doc.entries, ∀ p, ByGuid posts e p → ¬ByUrl posts f p
  titles : ∀ e ∈ doc.entries, ∀ f ∈ doc.entries, ∀ p, IsFor posts e p → IsFor posts f p →
    e.title ≠ "" → f.title ≠ "" → e.title = f.title
  descriptions : ∀ e ∈ doc.entries, ∀ f ∈ doc.entries, ∀ p, IsFor posts e p → IsFor posts f p →
    e.description = f.description
  durations : ∀ e ∈ doc.entries, ∀ f ∈ doc.entries, ∀ p, IsFor posts e p → IsFor posts f p →
    p.processedAudioPath = none → e.duration ≠ none → f.duration ≠ none → e.duration = f.duration
  images : ∀ e ∈ doc.entries, ∀ p, IsFor posts e p →
    settled p.imageUrl ((entriesFor posts p doc.entries).map (episodeImageUrl feed)) =
      episodeImageUrl (feed.withImage doc.channelImage) e
  newImages : ∀ e ∈ doc.entries, IsNew posts e →
    episodeImageUrl feed e = episodeImageUrl (feed.withImage doc.channelImage) e

/-- The document avoids the points in which the planners differ: a missing description and an empty
one, and the day of the oldest post. -/
structure SameForBoth (posts : List Post) (autoWhitelist : Bool) (entries : List Entry) : Prop where
  descriptions : ∀ e ∈ entries, ∀ p, IsFor posts e p → p.description = none → e.description ≠ ""
  days : autoWhitelist → ∀ e ∈ entries, IsNew posts e → ∀ released oldest,
    e.releaseDate = some released → oldestPost posts = some oldest → released.date ≠ oldest.date

/-! What the plan holds -/

section
variable {feed : Feed} {posts : List Post} {autoWhitelist : Bool} {doc : Document}

theorem mem_newPosts (h : Stored posts) {n : NewPost} :
    n ∈ (buildRefreshFeedPayload feed posts autoWhitelist doc).newPosts ↔
      ∃ e ∈ doc.entries, IsNew posts e ∧ newPostRefreshPayload feed posts autoWhitelist e = n := by
  simp only [buildRefreshFeedPayload,List.mem_map,List.mem_filter,Option.isNone_iff_eq_none,
    existingPost_eq_none_iff h,and_assoc]

/-- An update is for the post of its entry, and has the guid that is given to it. -/
theorem exists_of_mem_updates (h : Stored posts) {u : PostUpdate}
    (hu : u ∈ (buildRefreshFeedPayload feed posts autoWhitelist doc).existingPostUpdates) :
    ∃ e ∈ doc.entries, ∃ p, IsFor posts e p ∧ u.postId = p.id ∧
      (u.guid = none ∨ ByUrl posts e p ∧ u.guid = some e.guid) := by
  obtain ⟨e,he,hpayload⟩ := List.mem_filterMap.mp hu
  obtain ⟨⟨p,guid⟩,hfound,hupdate⟩ := Option.bind_eq_some_iff.mp hpayload
  have hguid : u.guid = guid := guid_of_mem_postUpdate hupdate
  refine ⟨e,he,p,?_,postId_of_mem_postUpdate hupdate,?_⟩
  · exact (existingPost_eq_some h hfound).imp And.left And.left
  · rcases existingPost_eq_some h hfound with ⟨-,rfl⟩ | ⟨hurl,rfl⟩
    · exact Or.inl hguid
    · exact Or.inr ⟨hurl,hguid⟩

/-- An entry that is matched by its URL gives its guid to the post. -/
theorem exists_update_of_byUrl (h : Stored posts) {e : Entry} (he : e ∈ doc.entries) {p : Post}
    (hp : ByUrl posts e p) :
    ∃ u ∈ (buildRefreshFeedPayload feed posts autoWhitelist doc).existingPostUpdates,
      u.postId = p.id ∧ u.guid = some e.guid := by
  have hfound := existingPost_of_byUrl h hp
  cases hu : existingPostRefreshPayload feed p e (some e.guid) with
  | none => cases (postUpdate_eq_none_iff.mp hu).1
  | some u =>
    have hmem : u ∈ (buildRefreshFeedPayload feed posts autoWhitelist doc).existingPostUpdates :=
      List.mem_filterMap.mpr ⟨e,he,by rw [hfound,Option.bind_some,hu]⟩
    exact ⟨u,hmem,postId_of_mem_postUpdate hu,guid_of_mem_postUpdate hu⟩

/-- The keys of a plan are apart exactly when those of its entries fit. -/
theorem keysApart_iff (h : Stored posts) :
    KeysApart posts (buildRefreshFeedPayload feed posts autoWhitelist doc) ↔
      KeysFit posts doc.entries := by
  have hpairs : ∀ f : NewPost → String, ∀ g : Entry → String,
      (∀ e, f (newPostRefreshPayload feed posts autoWhitelist e) = g e) →
      (((buildRefreshFeedPayload feed posts autoWhitelist doc).newPosts.map f).Nodup ↔
        doc.entries.Pairwise (fun e e' => IsNew posts e → IsNew posts e' → g e ≠ g e')) := by
    intro f g hfg
    have hcongr : ∀ entries : List Entry,
        (entries.map (newPostRefreshPayload feed posts autoWhitelist)).map f = entries.map g := by
      intro entries
      rw [List.map_map]
      exact List.map_congr_left (fun e _ => hfg e)
    rw [buildRefreshFeedPayload,hcongr,List.Nodup,List.pairwise_map,List.pairwise_filter]
    simp only [Option.isNone_iff_eq_none,existingPost_eq_none_iff h]
  constructor
  · intro hk
    refine ⟨?_,?_,?_,?_⟩
    · intro e he hnew hempty p hp hurl
      exact (hk.newApart _ ((mem_newPosts h).mpr ⟨e,he,hnew,rfl⟩) p hp).2 (hurl.trans hempty.symm)
    · have hguids := (hpairs NewPost.guid Entry.guid (fun _ => rfl)).mp hk.newGuids
      have hurls := (hpairs NewPost.downloadUrl Entry.audioUrl (fun _ => rfl)).mp hk.newUrls
      exact (hguids.and hurls).imp (fun hpair he hf => ⟨hpair.1 he hf,hpair.2 he hf⟩)
    · intro n hn hnew e he p hp hguid
      obtain ⟨u,hu,-,hug⟩ := exists_update_of_byUrl h he hp
      refine hk.newUnused _ ((mem_newPosts h).mpr ⟨n,hn,hnew,rfl⟩) u hu ?_
      rw [hug,← hguid]
      rfl
    · intro e he f hf p q hp hq hguid
      obtain ⟨u,hu,hup,hug⟩ := exists_update_of_byUrl h he hp
      obtain ⟨v,hv,hvq,hvg⟩ := exists_update_of_byUrl h hf hq
      have hid := hk.updateOnce u hu v hv e.guid hug (hvg.trans (congrArg some hguid.symm))
      exact List.inj_on_of_nodup_map h.ids hp.2.2.1 hq.2.2.1 (hup.symm.trans (hid.symm.trans hvq))
  · intro hk
    refine ⟨(hpairs NewPost.guid Entry.guid (fun _ => rfl)).mpr
        (hk.new.imp (fun hpair he hf => (hpair he hf).1)),
      (hpairs NewPost.downloadUrl Entry.audioUrl (fun _ => rfl)).mpr
        (hk.new.imp (fun hpair he hf => (hpair he hf).2)),?_,?_,?_,?_⟩
    · intro n hn p hp
      obtain ⟨e,he,hnew,rfl⟩ := (mem_newPosts h).mp hn
      refine ⟨hnew.1 p hp,?_⟩
      by_cases hempty : e.audioUrl = ""
      · change p.downloadUrl ≠ e.audioUrl
        rw [hempty]
        exact hk.urls e he hnew hempty p hp
      · exact hnew.2 hempty p hp
    · intro n hn u hu hguid
      obtain ⟨e,he,hnew,rfl⟩ := (mem_newPosts h).mp hn
      obtain ⟨f,hf,p,-,-,hnone | ⟨hurl,hsome⟩⟩ := exists_of_mem_updates h hu
      · rw [hnone] at hguid
        cases hguid
      · rw [hsome] at hguid
        exact hk.newRepaired e he hnew f hf p hurl (Option.some.inj hguid).symm
    · intro u hu p hp _ hguid
      obtain ⟨f,hf,q,-,-,hnone | ⟨hurl,hsome⟩⟩ := exists_of_mem_updates h hu
      · rw [hnone] at hguid
        cases hguid
      · rw [hsome] at hguid
        exact hurl.1 p hp (Option.some.inj hguid).symm
    · intro u hu v hv guid hug hvg
      obtain ⟨e,he,p,-,hup,hnone | ⟨hurl,hsome⟩⟩ := exists_of_mem_updates h hu
      · rw [hnone] at hug
        cases hug
      · obtain ⟨f,hf,q,-,hvq,hnone' | ⟨hurl',hsome'⟩⟩ := exists_of_mem_updates h hv
        · rw [hnone'] at hvg
          cases hvg
        · have hguid : e.guid = f.guid :=
            Option.some.inj ((hsome.symm.trans hug).trans (hvg.symm.trans hsome'))
          rw [hup,hvq,hk.repaired e he f hf p q hurl hurl' hguid]

/-! Carrying the plan out -/

/-- The feed and its posts after a refresh, with the rows of the new posts at the end. -/
structure After (feed : Feed) (posts : List Post) (autoWhitelist : Bool) (doc : Document)
    (after : Feed × List Post) (rows : List Post) : Prop where
  feed_eq : after.1 = feed.withImage doc.channelImage
  posts_eq : after.2 = posts.map (settledPost feed posts doc.entries) ++ rows
  made : ∀ row ∈ rows, ∃ e ∈ doc.entries, IsNew posts e ∧
    ∃ id, row = (newPostRefreshPayload feed posts autoWhitelist e).toPost id
  complete : ∀ e ∈ doc.entries, IsNew posts e → ∃ row ∈ rows, row.guid = e.guid

theorem refreshFeedAction_eq_some (h : Stored posts)
    (hk : KeysApart posts (buildRefreshFeedPayload feed posts autoWhitelist doc)) :
    ∃ after rows,
      refreshFeedAction feed posts (buildRefreshFeedPayload feed posts autoWhitelist doc) =
        some after ∧ After feed posts autoWhitelist doc after rows := by
  obtain ⟨rows,hinsert,hrows⟩ := insertPosts_eq_some ⟨hk.newGuids,hk.newUrls,hk.newApart⟩
  have hpostId : ∀ u ∈ (buildRefreshFeedPayload feed posts autoWhitelist doc).existingPostUpdates,
      ∃ p ∈ posts, u.postId = p.id := by
    intro u hu
    obtain ⟨e,-,p,hfor,hid,-⟩ := exists_of_mem_updates h hu
    exact ⟨p,hfor.elim And.left (fun hurl => hurl.2.2.1),hid⟩
  have hupdatable : Updatable (posts ++ rows)
      (buildRefreshFeedPayload feed posts autoWhitelist doc).existingPostUpdates := by
    refine ⟨?_,?_,hk.updateOnce⟩
    · intro u hu
      obtain ⟨p,hp,hid⟩ := hpostId u hu
      exact ⟨hid ▸ h.id_ne_zero p hp,p,List.mem_append_left _ hp,hid.symm⟩
    · intro u hu p hp hne
      rcases List.mem_append.mp hp with hp | hp
      · exact hk.updateApart u hu p hp hne
      · obtain ⟨n,hn,id,rfl,-⟩ := hrows.made p hp
        exact hk.newUnused n hn u hu
  -- No update is for a new row.
  have hsame : rows.map (settle
      (buildRefreshFeedPayload feed posts autoWhitelist doc).existingPostUpdates) = rows := by
    refine (List.map_congr_left (fun row hrow => ?_)).trans (List.map_id rows)
    obtain ⟨n,-,id,rfl,hfresh⟩ := hrows.made row hrow
    have hnone : (buildRefreshFeedPayload feed posts autoWhitelist doc).existingPostUpdates.filter
        (fun u => u.postId = (n.toPost id).id) = [] := by
      rw [List.filter_eq_nil_iff]
      intro u hu hid
      obtain ⟨p,hp,hup⟩ := hpostId u hu
      exact hfresh p hp (hup.symm.trans (of_decide_eq_true hid))
    rw [settle,hnone]
    rfl
  refine ⟨(feed.withImage doc.channelImage,(posts ++ rows).map (settle
    (buildRefreshFeedPayload feed posts autoWhitelist doc).existingPostUpdates)),rows,?_,
    ⟨rfl,?_,?_,?_⟩⟩
  · rw [refreshFeedAction,hinsert]
    dsimp only
    rw [applyExistingPostUpdates_eq_some hupdatable]
    rfl
  · rw [List.map_append,hsame]
    rfl
  · intro row hrow
    obtain ⟨n,hn,id,hrow,-⟩ := hrows.made row hrow
    obtain ⟨e,he,hnew,rfl⟩ := (mem_newPosts h).mp hn
    exact ⟨e,he,hnew,id,hrow⟩
  · intro e he hnew
    obtain ⟨row,hrow,id,rfl⟩ := hrows.complete _ ((mem_newPosts h).mpr ⟨e,he,hnew,rfl⟩)
    exact ⟨_,hrow,rfl⟩

/-- A guid that an entry gives to a post is that of an entry matched by its URL. -/
theorem mem_repairedGuids (h : Stored posts) {p : Post} (hp : p ∈ posts) {guid : String} :
    guid ∈ (entriesFor posts p doc.entries).filterMap (repairedGuid posts) ↔
      ∃ e ∈ doc.entries, ByUrl posts e p ∧ e.guid = guid := by
  rw [List.mem_filterMap]
  constructor
  · rintro ⟨e,he,hguid⟩
    obtain ⟨he,hg | hu⟩ := (mem_entriesFor h hp).mp he
    · rw [repairedGuid,existingPost_of_byGuid h hg] at hguid
      cases hguid
    · rw [repairedGuid,existingPost_of_byUrl h hu] at hguid
      exact ⟨e,he,hu,Option.some.inj hguid⟩
  · rintro ⟨e,he,hu,rfl⟩
    refine ⟨e,(mem_entriesFor h hp).mpr ⟨he,Or.inr hu⟩,?_⟩
    rw [repairedGuid,existingPost_of_byUrl h hu]
    rfl

section
variable {after : Feed × List Post} {rows : List Post} {e : Entry} {p row : Post}

/-- The rows with the guid of an entry that was for a post are that post. -/
theorem After.row_of_isFor (h : Stored posts) (hk : KeysFit posts doc.entries)
    (ha : After feed posts autoWhitelist doc after rows) (he : e ∈ doc.entries)
    (hfor : IsFor posts e p) (hrow : row ∈ after.2) (hguid : row.guid = e.guid) :
    row = settledPost feed posts doc.entries p := by
  rw [ha.posts_eq,List.mem_append,List.mem_map] at hrow
  rcases hrow with ⟨q,hq,rfl⟩ | hrow
  · rw [settledPost_guid feed h hq] at hguid
    rcases settled_eq_or_mem q.guid
        ((entriesFor posts q doc.entries).filterMap (repairedGuid posts)) with hkept | hgiven
    · rw [hkept] at hguid
      rcases hfor with hbyGuid | hbyUrl
      · rw [List.inj_on_of_nodup_map h.guids hq hbyGuid.1 (hguid.trans hbyGuid.2.symm)]
      · exact absurd hguid (hbyUrl.1 q hq)
    · rw [hguid] at hgiven
      obtain ⟨f,hf,hfq,hfe⟩ := (mem_repairedGuids h hq).mp hgiven
      rcases hfor with hbyGuid | hbyUrl
      · exact absurd (hbyGuid.2.trans hfe.symm) (hfq.1 p hbyGuid.1)
      · rw [hk.repaired f hf e he q p hfq hbyUrl hfe]
  · obtain ⟨n,hn,hnew,id,rfl⟩ := ha.made row hrow
    rcases hfor with hbyGuid | hbyUrl
    · exact absurd (hbyGuid.2.trans hguid.symm) (hnew.1 p hbyGuid.1)
    · exact absurd hguid (hk.newRepaired n hn hnew e he p hbyUrl)

/-- The rows with the guid of a new entry are its new post. -/
theorem After.row_of_isNew (h : Stored posts) (hk : KeysFit posts doc.entries)
    (ha : After feed posts autoWhitelist doc after rows) (he : e ∈ doc.entries)
    (hnew : IsNew posts e) (hrow : row ∈ after.2) (hguid : row.guid = e.guid) :
    ∃ id, row = (newPostRefreshPayload feed posts autoWhitelist e).toPost id := by
  rw [ha.posts_eq,List.mem_append,List.mem_map] at hrow
  rcases hrow with ⟨q,hq,rfl⟩ | hrow
  · rw [settledPost_guid feed h hq] at hguid
    rcases settled_eq_or_mem q.guid
        ((entriesFor posts q doc.entries).filterMap (repairedGuid posts)) with hkept | hgiven
    · rw [hkept] at hguid
      exact absurd hguid (hnew.1 q hq)
    · rw [hguid] at hgiven
      obtain ⟨f,hf,hfq,hfe⟩ := (mem_repairedGuids h hq).mp hgiven
      exact absurd hfe.symm (hk.newRepaired e he hnew f hf q hfq)
  · obtain ⟨n,hn,hnnew,id,rfl⟩ := ha.made row hrow
    have hsame : n = e := by
      by_contra hne
      have hsymm : Std.Symm (fun a b : Entry => IsNew posts a → IsNew posts b →
          a.guid ≠ b.guid ∧ a.audioUrl ≠ b.audioUrl) :=
        ⟨fun a b hab hb ha => ⟨(hab ha hb).1.symm,(hab ha hb).2.symm⟩⟩
      exact (hk.new.forall hn he hne hnnew hnew).1 hguid
    exact ⟨id,by rw [hsame]⟩

end

end

end Podly.Refresh
