import Podly.Lists.Bisect
import Podly.Lists.Buckets
import Podly.Serde.Scalar

/-! `GroqWhisperTranscriber._assign_top_level_words`: words that come in one list beside the segments
are distributed by their start times. -/
namespace Podly.Transcription
open Floats Lists Serde

/-- A word as a provider sends it; what it does not have is none. -/
structure WordEntry where
  word : Option String
  start : Scalar
  stop : Scalar
  score : Scalar
deriving DecidableEq

structure WordTimestamp where
  word : String
  start : Option ℚ
  stop : Option ℚ
  score : Option ℚ
deriving DecidableEq

/-- A segment of the answer: when it starts, and the words nested in it. -/
structure AnsweredSegment where
  start : ℚ
  words : List WordEntry

/-- `_finite_or_none`; nothing at all where `float` raises. -/
def finiteOrNone (value : Scalar) : Option (Option ℚ) :=
  if value = .none then some none else value.toFloat.map Extended.toRat

/-- `_parse_word`; nothing at all where a conversion raises. -/
def parseWord (entry : WordEntry) : Option (Option WordTimestamp) :=
  match entry.word with
  | none => some none
  | some word =>
    match finiteOrNone entry.start, finiteOrNone entry.stop, finiteOrNone entry.score with
    | some start, some stop, some score => some (some ⟨word,start,stop,score⟩)
    | _, _, _ => none

/-- The words nested in a segment. -/
def nestedWords (segment : AnsweredSegment) : Option (List WordTimestamp) :=
  (segment.words.mapM parseWord).map (fun words => words.filterMap id)

/-- The loop over the words beside the segments. -/
def placeWords (order : List ℕ) (starts : List ℚ) :
    List WordEntry → ℕ → List (List WordTimestamp) → Option (List (List WordTimestamp))
  | [],_,grouped => some grouped
  | entry::entries,target,grouped =>
    match parseWord entry with
    | none => none
    | some none => placeWords order starts entries target grouped
    | some (some word) =>
      let target := match word.start with
        | some start => (order[bisectRight starts start - 1]?).getD 0
        | none => target
      placeWords order starts entries target (grouped.modify target (· ++ [word]))

def startAt (segments : List AnsweredSegment) (i : ℕ) : ℚ :=
  ((segments[i]?).map AnsweredSegment.start).getD 0

/-- The places of the segments by their starts. -/
def startOrder (segments : List AnsweredSegment) : List ℕ :=
  (List.range segments.length).mergeSort (fun i j => startAt segments i ≤ startAt segments j)

/-- `_assign_top_level_words`; nothing where a conversion raises. -/
def assignTopLevelWords (segments : List AnsweredSegment) (topLevelWords : List WordEntry) :
    Option (List (List WordTimestamp)) :=
  match segments.mapM nestedWords with
  | none => none
  | some grouped =>
    if topLevelWords = [] ∨ grouped.any (fun words => words ≠ []) then some grouped
    else if segments = [] then some grouped
    else
      let order := startOrder segments
      let starts := order.map (startAt segments)
      placeWords order starts topLevelWords 0 grouped

/-- An entry that can be read: it is no word, or `float` takes all of its numbers. -/
def WordEntry.Readable (entry : WordEntry) : Prop :=
  entry.word = none ∨ ∀ value ∈ [entry.start,entry.stop,entry.score],
    value = .none ∨ value.toFloat.isSome

instance (entry : WordEntry) : Decidable entry.Readable := inferInstanceAs (Decidable (_ ∨ _))

/-- The words of the entries that are words. -/
def parsedWords (entries : List WordEntry) : List WordTimestamp :=
  entries.filterMap (fun entry => (parseWord entry).join)

/-- A segment with the greatest start not after a time, or with the least start if all are after it. -/
def Holds (segments : List AnsweredSegment) (time : ℚ) (place : ℕ) : Prop :=
  ∃ segment, segments[place]? = some segment ∧
    (segment.start ≤ time ∧ (∀ other ∈ segments, other.start ≤ time → other.start ≤ segment.start) ∨
      (∀ other ∈ segments, time < other.start) ∧ ∀ other ∈ segments, segment.start ≤ other.start)

/-- The words are in the segments they are placed in, in their order: a word with a time in one that
holds it, any other in the one of the word before it. -/
structure Distributed (segments : List AnsweredSegment) (words : List WordTimestamp)
    (grouped : List (List WordTimestamp)) (placed : List (ℕ × WordTimestamp)) : Prop where
  inOrder : placed.map Prod.snd = words
  collected : grouped = buckets segments.length placed
  conserved : grouped.flatten.Perm words
  timed : ∀ p ∈ placed, ∀ time, p.2.start = some time → Holds segments time p.1
  untimed : ∀ before p q after, placed = before ++ [p,q] ++ after → q.2.start = none → q.1 = p.1

section Words
variable {segments : List AnsweredSegment} {entries : List WordEntry}

theorem finiteOrNone_isSome {value : Scalar} :
    (finiteOrNone value).isSome ↔ value = .none ∨ value.toFloat.isSome := by
  unfold finiteOrNone
  split
  · simp [*]
  · simp [*]

/-- An entry is read without an error exactly if it can be. -/
theorem parseWord_isSome {entry : WordEntry} : (parseWord entry).isSome ↔ entry.Readable := by
  unfold parseWord WordEntry.Readable
  cases hword : entry.word with
  | none => simp
  | some word =>
    simp only [reduceCtorEq,false_or,List.mem_cons,List.not_mem_nil,or_false,forall_eq_or_imp,
      forall_eq,← finiteOrNone_isSome]
    cases finiteOrNone entry.start with
    | none => simp
    | some start =>
      cases finiteOrNone entry.stop with
      | none => simp
      | some stop => cases finiteOrNone entry.score <;> simp

/-- Every word without a time has the place of the word before it. -/
def Follows : ℕ → List (ℕ × WordTimestamp) → Prop
  | _,[] => True
  | target,p::placed => (p.2.start = none → p.1 = target) ∧ Follows p.1 placed

theorem Follows.untimed {target : ℕ} {before after : List (ℕ × WordTimestamp)}
    {p q : ℕ × WordTimestamp} (h : Follows target (before ++ [p,q] ++ after))
    (hq : q.2.start = none) : q.1 = p.1 := by
  induction before generalizing target with
  | nil => exact h.2.1 hq
  | cons b before ih => exact ih h.2

theorem placeWords_eq_none {order : List ℕ} {starts : List ℚ} {target : ℕ}
    {grouped : List (List WordTimestamp)} (h : ∃ entry ∈ entries, ¬entry.Readable) :
    placeWords order starts entries target grouped = none := by
  induction entries generalizing target grouped with
  | nil => simp at h
  | cons entry entries ih =>
    rw [placeWords]
    split
    · rfl
    · rename_i hnone
      apply ih
      have hread : entry.Readable := parseWord_isSome.mp (by rw [hnone]; rfl)
      simpa [hread] using h
    · rename_i word hword
      apply ih
      have hread : entry.Readable := parseWord_isSome.mp (by rw [hword]; rfl)
      simpa [hread] using h

/-- One word after the other is put where it belongs. -/
theorem placeWords_spec {order : List ℕ} {starts : List ℚ} (target : ℕ)
    (placed : List (ℕ × WordTimestamp)) (hread : ∀ entry ∈ entries, entry.Readable)
    (horder : ∀ time, ∃ place, order[bisectRight starts time - 1]? = some place ∧
      Holds segments time place) :
    ∃ more, placeWords order starts entries target (buckets segments.length placed) =
        some (buckets segments.length (placed ++ more)) ∧
      more.map Prod.snd = parsedWords entries ∧ Follows target more ∧
      ∀ p ∈ more, ∀ time, p.2.start = some time → Holds segments time p.1 := by
  induction entries generalizing target placed with
  | nil => exact ⟨[],by simp [placeWords],rfl,trivial,by simp⟩
  | cons entry entries ih =>
    have hsome := parseWord_isSome.mpr (hread entry List.mem_cons_self)
    have hrest : ∀ entry ∈ entries, entry.Readable := fun e he => hread e (List.mem_cons_of_mem _ he)
    rw [placeWords,parsedWords,List.filterMap_cons]
    cases hparse : parseWord entry with
    | none =>
      rw [hparse] at hsome
      cases hsome
    | some parsed =>
      cases parsed with
      | none => exact ih target placed hrest
      | some word =>
        dsimp only
        generalize htarget : (match word.start with
          | some start => (order[bisectRight starts start - 1]?).getD 0
          | none => target) = place
        obtain ⟨more,hplace,hwords,hfollows,htimed⟩ :=
          ih place (placed ++ [(place,word)]) hrest
        rw [← buckets_concat,hplace]
        refine ⟨(place,word)::more,by simp,?_,⟨?_,hfollows⟩,?_⟩
        · rw [List.map_cons,hwords]
          rfl
        · intro hnone
          rw [hnone] at htarget
          exact htarget.symm
        · intro p hp time htime
          rcases List.mem_cons.mp hp with rfl | hp
          · rw [htime] at htarget
            obtain ⟨holder,hholder,hholds⟩ := horder time
            have hplace : holder = place := by
              simpa [hholder] using htarget
            exact hplace ▸ hholds
          · exact htimed p hp time htime

theorem startOrder_holds (hne : segments ≠ []) (time : ℚ) :
    ∃ place, (startOrder segments)[bisectRight ((startOrder segments).map (startAt segments))
        time - 1]? = some place ∧ Holds segments time place := by
  have hsorted : (startOrder segments).Pairwise (fun i j => startAt segments i ≤ startAt segments j) := by
    have h := @List.pairwise_mergeSort _
      (fun i j => decide (startAt segments i ≤ startAt segments j))
      (fun i j k hij hjk => by simpa using le_trans (of_decide_eq_true hij) (of_decide_eq_true hjk))
      (fun i j => by simpa using le_total (startAt segments i) (startAt segments j))
      (List.range segments.length)
    exact h.imp (fun h => of_decide_eq_true h)
  have hmem : ∀ i, i ∈ startOrder segments ↔ i < segments.length := by
    intro i
    rw [startOrder,List.mem_mergeSort,List.mem_range]
  have hne' : startOrder segments ≠ [] := by
    intro hnil
    have hzero := (hmem 0).mpr (List.length_pos_iff.mpr hne)
    rw [hnil] at hzero
    cases hzero
  obtain ⟨place,hplace,hholds⟩ := @bisectRight_pred _ _ _ (startAt segments) _ time hsorted hne'
  have hlt := (hmem place).mp (List.mem_of_getElem? hplace)
  have hstart : ∀ (i : ℕ) (hi : i < segments.length), startAt segments i = segments[i].start := by
    intro i hi
    simp only [startAt,List.getElem?_eq_getElem hi,Option.map_some,Option.getD_some]
  refine ⟨place,hplace,segments[place],List.getElem?_eq_getElem hlt,?_⟩
  rw [hstart place hlt] at hholds
  have hother : ∀ {P : ℚ → Prop}, (∀ i ∈ startOrder segments, P (startAt segments i)) →
      ∀ other ∈ segments, P other.start := by
    intro P hall other hmember
    obtain ⟨i,hi,rfl⟩ := List.mem_iff_getElem.mp hmember
    rw [← hstart i hi]
    exact hall i ((hmem i).mpr hi)
  rcases hholds with ⟨hle,hgreatest⟩ | ⟨hlate,hleast⟩
  · exact .inl ⟨hle,hother (P := fun s => s ≤ time → s ≤ segments[place].start) hgreatest⟩
  · exact .inr ⟨hother (P := fun s => time < s) hlate,
      hother (P := fun s => segments[place].start ≤ s) hleast⟩

theorem mapM_nestedWords (hnested : ∀ segment ∈ segments, ∀ entry ∈ segment.words, entry.word = none) :
    segments.mapM nestedWords = some (buckets segments.length []) := by
  rw [buckets_nil]
  induction segments with
  | nil => rfl
  | cons segment segments ih =>
    have hwords : ∀ entries : List WordEntry, (∀ entry ∈ entries, entry.word = none) →
        (entries.mapM parseWord).map (fun words => words.filterMap id) = some [] := by
      intro entries hentries
      induction entries with
      | nil => rfl
      | cons entry entries ih =>
        obtain ⟨parsed,hparsed,hnil⟩ := Option.map_eq_some_iff.mp
          (ih (fun e he => hentries e (List.mem_cons_of_mem _ he)))
        have hnone : parseWord entry = some none := by
          rw [parseWord,hentries entry List.mem_cons_self]
        rw [List.mapM_cons,hnone,hparsed]
        simpa using hnil
    have hfirst : nestedWords segment = some [] :=
      hwords segment.words (hnested segment List.mem_cons_self)
    rw [List.mapM_cons,hfirst,ih (fun s hs => hnested s (List.mem_cons_of_mem _ hs))]
    rfl

theorem Follows.lt {target : ℕ} {placed : List (ℕ × WordTimestamp)} (h : Follows target placed)
    (htarget : target < segments.length)
    (htimed : ∀ p ∈ placed, ∀ time, p.2.start = some time → Holds segments time p.1) :
    ∀ p ∈ placed, p.1 < segments.length := by
  induction placed generalizing target with
  | nil => simp
  | cons q placed ih =>
    have hq : q.1 < segments.length := by
      cases hstart : q.2.start with
      | none => exact h.1 hstart ▸ htarget
      | some time =>
        obtain ⟨segment,hsegment,-⟩ := htimed q List.mem_cons_self time hstart
        exact (List.getElem?_eq_some_iff.mp hsegment).1
    intro p hp
    rcases List.mem_cons.mp hp with rfl | hp
    · exact hq
    · exact ih h.2 hq (fun p hp => htimed p (List.mem_cons_of_mem _ hp)) p hp

theorem any_buckets_nil (n : ℕ) :
    (buckets n ([] : List (ℕ × WordTimestamp))).any (fun words => words ≠ []) = false := by
  rw [buckets_nil,List.any_replicate]
  simp

/-- One entry that cannot be read is enough for nothing to be distributed. -/
theorem assignTopLevelWords_eq_none (hne : segments ≠ [])
    (hnested : ∀ segment ∈ segments, ∀ entry ∈ segment.words, entry.word = none)
    {entry : WordEntry} (hentry : entry ∈ entries) (hread : ¬entry.Readable) :
    assignTopLevelWords segments entries = none := by
  have hentries : entries ≠ [] := List.ne_nil_of_mem hentry
  rw [assignTopLevelWords,mapM_nestedWords hnested]
  dsimp only
  rw [if_neg (by simp only [any_buckets_nil,hentries]; decide),if_neg hne,
    placeWords_eq_none ⟨entry,hentry,hread⟩]

theorem assignTopLevelWords_distributed (hne : segments ≠ [])
    (hnested : ∀ segment ∈ segments, ∀ entry ∈ segment.words, entry.word = none)
    (hread : ∀ entry ∈ entries, entry.Readable) :
    ∃ grouped placed, assignTopLevelWords segments entries = some grouped ∧
      Distributed segments (parsedWords entries) grouped placed := by
  obtain ⟨more,hplace,hwords,hfollows,htimed⟩ := placeWords_spec 0 []
    hread (startOrder_holds hne)
  rw [List.nil_append] at hplace
  have hresult : assignTopLevelWords segments entries = some (buckets segments.length more) := by
    rw [assignTopLevelWords,mapM_nestedWords hnested]
    dsimp only
    cases entries with
    | nil => rw [if_pos (.inl rfl),List.map_eq_nil_iff.mp hwords]
    | cons entry entries =>
      rw [if_neg (by simp only [any_buckets_nil]; simp),if_neg hne]
      exact hplace
  refine ⟨_,more,hresult,hwords,rfl,?_,htimed,?_⟩
  · rw [← hwords]
    exact flatten_buckets_perm (hfollows.lt (List.length_pos_iff.mpr hne) htimed)
  · intro before p q after hmore hq
    rw [hmore] at hfollows
    exact hfollows.untimed hq

/-- Words beside segments without words of their own are distributed exactly if all of them can be
read. -/
theorem assignTopLevelWords_distributes_iff (segments : List AnsweredSegment)
    (entries : List WordEntry) (hne : segments ≠ [])
    (hnested : ∀ segment ∈ segments, ∀ entry ∈ segment.words, entry.word = none) :
    (∃ grouped placed, assignTopLevelWords segments entries = some grouped ∧
      Distributed segments (parsedWords entries) grouped placed) ↔
      ∀ entry ∈ entries, entry.Readable := by
  constructor
  · rintro ⟨grouped,placed,hgrouped,-⟩ entry hentry
    by_contra hread
    rw [assignTopLevelWords_eq_none hne hnested hentry hread] at hgrouped
    cases hgrouped
  · exact assignTopLevelWords_distributed hne hnested

/-- A word before its segment, one without a time, and one in a gap. -/
def spokenWords : List WordEntry :=
  [⟨some "well",.int 1,.int 2,.none⟩,⟨some "then",.none,.none,.none⟩,
    ⟨some "go",.float (Extended.ofRat 7),.str "8.5".toList,.none⟩]

theorem spokenWords_distributed : ∃ grouped placed,
    assignTopLevelWords [⟨5,[]⟩,⟨2,[]⟩] spokenWords = some grouped ∧
      Distributed [⟨5,[]⟩,⟨2,[]⟩] (parsedWords spokenWords) grouped placed :=
  (assignTopLevelWords_distributes_iff [⟨5,[]⟩,⟨2,[]⟩] spokenWords (by decide) (by simp)).mpr
    (by decide +kernel)

/-- A word whose time is no number. -/
def unreadableWord : WordEntry := ⟨some "no",.str "n/a".toList,.int 3,.none⟩

/-- The whole call fails, and the words around the one that cannot be read are lost with it. -/
theorem unreadableWord_not_distributed : ¬∃ grouped placed,
    assignTopLevelWords [⟨0,[]⟩] [⟨some "yes",.int 1,.int 2,.none⟩,unreadableWord] = some grouped ∧
      Distributed [⟨0,[]⟩]
        (parsedWords [⟨some "yes",.int 1,.int 2,.none⟩,unreadableWord]) grouped placed := by
  rintro ⟨grouped,placed,hgrouped,-⟩
  rw [assignTopLevelWords_eq_none (by decide) (by simp) (List.mem_cons_of_mem _ (List.mem_singleton_self unreadableWord))
    (by decide +kernel)] at hgrouped
  cases hgrouped

end Words

end Podly.Transcription
