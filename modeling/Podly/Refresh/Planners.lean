import Podly.Refresh.Settles

/-! The two planners side by side, and when a refresh keeps all of its promises. -/
namespace Podly.Refresh
open Lists AdBlocks Strings

/-! The day of the oldest post -/

section
variable {posts : List Post} {e : Entry}

theorem oldestReleaseDate_eq (posts : List Post) :
    oldestReleaseDate posts = (oldestPost posts).map ReleaseDate.column := by
  rw [oldestReleaseDate,oldestPost,← leastBy_map,List.map_filterMap]

/-- The planners set a new post aside alike, unless it is from the day of the oldest one. -/
theorem isArchive_eq_isBackcatalog_iff : isArchive posts e = isBackcatalog posts e ↔
    ∀ released oldest, e.releaseDate = some released → oldestPost posts = some oldest →
      released.date ≠ oldest.date := by
  unfold isArchive isBackcatalog
  rw [oldestReleaseDate_eq]
  cases hpost : oldestPost posts with
  | none => simp
  | some oldest =>
    cases hreleased : e.releaseDate with
    | none => simp
    | some released =>
      have hlength : released.date.toList.length = oldest.date.toList.length :=
        released.date_length.trans oldest.date_length.symm
      have hbefore : textLt released.date.toList oldest.column =
          !textLt oldest.date.toList released.date.toList :=
        textLt_append_cons hlength ' ' oldest.clock.toList
      simp only [Option.map_some,hbefore,Option.some.injEq]
      rw [eq_comm,textLt_eq_not_iff]
      constructor
      · rintro h r o rfl rfl hdate
        exact h (congrArg String.toList hdate)
      · intro h he
        exact h released oldest rfl rfl (String.toList_injective he)

end

/-! The updates of the planners -/

section
variable {feed : Feed} {posts : List Post} {autoWhitelist : Bool} {doc : Document} {p : Post}
  {e : Entry} {guid : Option String}

/-- The planners find the same post, if an empty URL is not stored. -/
theorem existing_eq_existingPost (h : Stored posts) (hk : KeysFit posts doc.entries)
    (he : e ∈ doc.entries) : existing posts e = existingPost posts e := by
  rcases entry_cases posts e with ⟨p,hp⟩ | ⟨p,hp⟩ | hnew
  · exact (matchPost_of_byGuid h hp _).trans (existingPost_of_byGuid h hp).symm
  · exact (matchPost_of_byUrl h hp.2.2.1 hp.1 hp.2.2.2).trans (existingPost_of_byUrl h hp).symm
  · have hurl : ∀ q ∈ posts, q.downloadUrl ≠ e.audioUrl := by
      by_cases hempty : e.audioUrl = ""
      · rw [hempty]
        exact hk.urls e he hnew hempty
      · exact hnew.2 hempty
    have hfind : posts.find? (fun post => post.downloadUrl = e.audioUrl) = none := by
      simpa using hurl
    rw [existingPost_of_isNew hnew,existing,matchPost,find?_guid_eq_none.mpr hnew.1]
    simp only [Option.bind_some,hfind]

/-- The description column differs between the planners when a missing one meets an empty one. -/
theorem changed_getD_eq_iff {stored : Option String} {new : String} :
    changed (stored.getD "") new = changedValue stored new ↔ (stored = none → new ≠ "") := by
  cases stored with
  | none => by_cases h : new = "" <;> simp [changed,changedValue,h,Ne.symm]
  | some description => simp [changed,changedValue]

/-- The planners update a post alike, unless its missing description meets an empty one. -/
theorem existingPostRefreshUpdate_eq_iff :
    existingPostRefreshUpdate feed p e guid = existingPostRefreshPayload feed p e guid ↔
      (p.description = none → e.description ≠ "") := by
  rw [← changed_getD_eq_iff]
  constructor
  · intro h
    have hdescription := congrArg (fun u : Option PostUpdate => u.bind PostUpdate.description) h
    simp only [existingPostRefreshUpdate,existingPostRefreshPayload] at hdescription
    rw [postUpdate_bind (fun u hu => (isEmpty_iff.mp hu).2.2.1),
      postUpdate_bind (fun u hu => (isEmpty_iff.mp hu).2.2.1)] at hdescription
    exact hdescription
  · intro h
    rw [existingPostRefreshUpdate,existingPostRefreshPayload,h,e.title_strip]

/-- What the sidecar updates, the application updates. -/
theorem existingPostRefreshUpdate_eq_none
    (h : existingPostRefreshPayload feed p e guid = none) :
    existingPostRefreshUpdate feed p e guid = none := by
  obtain ⟨rfl,hup⟩ := existingPostRefreshPayload_eq_none_iff.mp h
  exact hup.refreshUpdate

/-- Lists that are filtered from one agree only entry by entry, if one of them leaves out whatever
the other does. -/
theorem forall_eq_of_filterMap_eq {α β : Type*} {f g : α → Option β} {xs : List α}
    (hsub : ∀ x, g x = none → f x = none) (h : xs.filterMap f = xs.filterMap g) :
    ∀ x ∈ xs, f x = g x := by
  induction xs with
  | nil =>
    intro x hx
    cases hx
  | cons y xs ih =>
    have hlength : ∀ ys : List α, (ys.filterMap f).length ≤ (ys.filterMap g).length := by
      intro ys
      induction ys with
      | nil => exact le_rfl
      | cons z ys ih =>
        cases hg : g z with
        | none => rwa [List.filterMap_cons_none hg,List.filterMap_cons_none (hsub z hg)]
        | some w =>
          rw [List.filterMap_cons_some hg,List.length_cons]
          cases hf : f z with
          | none =>
            rw [List.filterMap_cons_none hf]
            omega
          | some v =>
            rw [List.filterMap_cons_some hf,List.length_cons]
            omega
    have hhead : f y = g y ∧ xs.filterMap f = xs.filterMap g := by
      cases hg : g y with
      | none =>
        rw [List.filterMap_cons_none hg,List.filterMap_cons_none (hsub y hg)] at h
        exact ⟨hsub y hg,h⟩
      | some w =>
        rw [List.filterMap_cons_some hg] at h
        cases hf : f y with
        | none =>
          rw [List.filterMap_cons_none hf] at h
          have hle := hlength xs
          rw [h,List.length_cons] at hle
          omega
        | some v =>
          rw [List.filterMap_cons_some hf] at h
          obtain ⟨rfl,hrest⟩ := List.cons.inj h
          exact ⟨rfl,hrest⟩
    intro x hx
    rcases List.mem_cons.mp hx with rfl | hx
    · exact hhead.1
    · exact ih hhead.2 x hx

/-- The planners agree exactly on documents that avoid the points in which they differ. -/
theorem planFeedRefresh_eq_iff (h : Stored posts) (hk : KeysFit posts doc.entries) :
    planFeedRefresh feed posts autoWhitelist doc =
      buildRefreshFeedPayload feed posts autoWhitelist doc ↔
    SameForBoth posts autoWhitelist doc.entries := by
  have hfilter : doc.entries.filter (fun e => (existing posts e).isNone) =
      doc.entries.filter (fun e => (existingPost posts e).isNone) :=
    List.filter_congr (fun e he => by rw [existing_eq_existingPost h hk he])
  have hupdates : doc.entries.filterMap (fun e => (existing posts e).bind (fun found =>
        existingPostRefreshUpdate feed found.1 e found.2)) =
      doc.entries.filterMap (fun e => (existingPost posts e).bind (fun found =>
        existingPostRefreshUpdate feed found.1 e found.2)) :=
    List.filterMap_congr (fun e he => by rw [existing_eq_existingPost h hk he])
  have hwhitelisted : ∀ e, newPostValue feed posts autoWhitelist e =
      newPostRefreshPayload feed posts autoWhitelist e ↔
        (autoWhitelist → isArchive posts e = isBackcatalog posts e) := by
    intro e
    cases autoWhitelist <;> simp [newPostValue,newPostRefreshPayload,newPost]
  have hsub : ∀ e, payloadOf feed posts e = none → (existingPost posts e).bind (fun found =>
      existingPostRefreshUpdate feed found.1 e found.2) = none := by
    intro e hnone
    rw [payloadOf] at hnone
    cases hfound : existingPost posts e with
    | none => rfl
    | some found =>
      rw [hfound,Option.bind_some] at hnone
      exact existingPostRefreshUpdate_eq_none hnone
  rw [planFeedRefresh,buildRefreshFeedPayload,hfilter,hupdates,Plan.mk.injEq]
  simp only [true_and,List.map_inj_left,List.mem_filter,Option.isNone_iff_eq_none,
    existingPost_eq_none_iff h,and_imp,hwhitelisted]
  constructor
  · rintro ⟨hnew,hold⟩
    refine ⟨?_,?_⟩
    · intro e he p hfor
      have hsame := forall_eq_of_filterMap_eq hsub hold e he
      rcases hfor with hbyGuid | hbyUrl
      · simp only [payloadOf,existingPost_of_byGuid h hbyGuid,Option.bind_some] at hsame
        exact existingPostRefreshUpdate_eq_iff.mp hsame
      · simp only [payloadOf,existingPost_of_byUrl h hbyUrl,Option.bind_some] at hsame
        exact existingPostRefreshUpdate_eq_iff.mp hsame
    · intro hauto e he hisNew
      exact isArchive_eq_isBackcatalog_iff.mp (hnew e he hisNew hauto)
  · intro hsame
    refine ⟨fun e he hisNew hauto => isArchive_eq_isBackcatalog_iff.mpr
      (hsame.days hauto e he hisNew),List.filterMap_congr (fun e he => ?_)⟩
    cases hfound : existingPost posts e with
    | none => rw [Option.bind_none,Option.bind_none]
    | some found =>
      have hfor := (existingPost_eq_some h hfound).imp And.left And.left
      exact existingPostRefreshUpdate_eq_iff.mpr (hsame.descriptions e he found.1 hfor)

end

/-- A feed with one post. -/
def morningFeed : Feed := ⟨1,none⟩

def storedPost : Post :=
  ⟨7,"ep-1","https://cdn/1.mp3","Monday",some "News",none,none,none,some ⟨"2025-03-03","06:00:00",rfl⟩,
    true⟩

def entryOf (guid url title : String) (h : strip title = title) : Entry :=
  ⟨guid,title,h,"News",url,some ⟨"2025-03-04","06:00:00",rfl⟩,none,none⟩

def storedEntry : Entry := entryOf "ep-1" "https://cdn/1.mp3" "Monday, corrected" (by decide)

def newEntry : Entry := entryOf "ep-2" "https://cdn/2.mp3" "Tuesday" (by decide)

theorem isFor_storedPost {e : Entry} {p : Post} (h : IsFor [storedPost] e p) : p = storedPost := by
  rcases h with ⟨hp,-⟩ | ⟨-,-,hp,-⟩ <;> exact List.mem_singleton.mp hp

theorem not_byUrl_corrected {e : Entry} (he : e ∈ [storedEntry,newEntry]) {p : Post} :
    ¬ByUrl [storedPost] e p := by
  rintro ⟨hguid,-,hp,hurl⟩
  obtain rfl := List.mem_singleton.mp hp
  simp only [List.mem_cons,List.not_mem_nil,or_false] at he
  rcases he with rfl | rfl
  · exact hguid storedPost hp rfl
  · exact absurd hurl (by decide)

theorem isFor_corrected {e : Entry} (he : e ∈ [storedEntry,newEntry]) {p : Post}
    (h : IsFor [storedPost] e p) : e = storedEntry := by
  rcases h with ⟨hp,hguid⟩ | hurl
  · obtain rfl := List.mem_singleton.mp hp
    simp only [List.mem_cons,List.not_mem_nil,or_false] at he
    rcases he with rfl | rfl
    · rfl
    · exact absurd hguid (by decide)
  · exact absurd hurl (not_byUrl_corrected he)

theorem isNew_corrected {e : Entry} (he : e ∈ [storedEntry,newEntry])
    (h : IsNew [storedPost] e) : e = newEntry := by
  simp only [List.mem_cons,List.not_mem_nil,or_false] at he
  rcases he with rfl | rfl
  · exact absurd rfl (h.1 storedPost (List.mem_singleton_self _))
  · rfl

end Podly.Refresh
