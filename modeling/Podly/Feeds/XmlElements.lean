import Podly.Feeds.XmlRoundTrip

/-! Which descriptions are read back from the character data they are written as. -/
namespace Podly.Feeds
open Strings WordBoundary

/-- Some end of the text begins with the pattern, in any case. -/
def ContainsAnyCase (pattern text : List Char) : Prop :=
  ∃ rest, rest <:+ text ∧ startsAnyCase pattern rest = true

/-- The element that is written for a text gives the text back, up to the white space around it. -/
def ReadsBack (isWord : Char → Bool) (name s : List Char) : Prop :=
  ∃ text, xmlText isWord (pushCdataElement [] name s) name = some text ∧ trimText text = trimText s

/-- A text that character data holds as it is: it neither begins with its start nor holds its end,
an entity or the tag that closes the element. -/
structure CdataSafe (name s : List Char) : Prop where
  start : ¬cdataStart <+: s
  stop : ¬cdataEnd <:+: s
  entities : ∀ e ∈ xmlEntities, ¬e.1 <:+: s
  closing : ¬ContainsAnyCase (closingTag name) s

/-- Two sections of character data with the end between them. -/
def cdataJoined : List Char := ("]]".toList ++ cdataEnd) ++ cdataStart ++ ['>']

/-- The character data of an element. -/
def cdataBody (s : List Char) : List Char :=
  cdataStart ++ replaceAll cdataEnd cdataJoined s ++ cdataEnd

section Matching
variable {pattern text rest : List Char} {c x : Char}

/-- A sign matches itself only. -/
theorem eq_of_toLower (hc : c.isLower = false) (h : x.toLower = c) : x = c := by
  unfold Char.toLower at h
  split at h
  · rename_i hupper
    obtain ⟨hlow,hhigh⟩ := hupper
    have hlower : (decide (c.val ≥ 'a'.val) && decide (c.val ≤ 'z'.val)) = true := by
      rw [← h]
      simp only [Bool.and_eq_true,decide_eq_true_eq,ge_iff_le,
        UInt32.le_iff_toNat_le,UInt32.toNat_add] at hlow hhigh ⊢
      simp only [Char.reduceVal,UInt32.reduceSub,UInt32.reduceToNat] at hlow hhigh ⊢
      omega
    exact absurd (hlower.symm.trans hc) (by decide)
  · exact h

theorem matchesAnyCase_sign (hc : c ∈ ['<','/','>']) (h : matchesAnyCase c x = true) : x = c := by
  have hsign : c.isLower = false ∧ c ≠ 's' ∧ c ≠ 'k' := by
    simp only [List.mem_cons,List.not_mem_nil,or_false] at hc
    rcases hc with rfl | rfl | rfl
    · exact ⟨rfl,by simp,by simp⟩
    · exact ⟨rfl,by simp,by simp⟩
    · exact ⟨rfl,by simp,by simp⟩
  obtain ⟨hlower,hs,hk⟩ := hsign
  simp only [matchesAnyCase,hs,hk,decide_false,Bool.false_and,Bool.or_false,
    decide_eq_true_eq] at h
  exact eq_of_toLower hlower h

theorem startsAnyCase_append (h : startsAnyCase pattern text = true) (rest : List Char) :
    startsAnyCase pattern (text ++ rest) = true := by
  induction pattern generalizing text with
  | nil => rfl
  | cons c pattern ih =>
    cases text with
    | nil => exact absurd h Bool.false_ne_true
    | cons x text =>
      rw [startsAnyCase,Bool.and_eq_true] at h
      rw [List.cons_append,startsAnyCase,Bool.and_eq_true]
      exact ⟨h.1,ih h.2⟩

/-- A character that matches nothing of the pattern parts the text. -/
theorem startsAnyCase_of_append (hx : ∀ c ∈ pattern, matchesAnyCase c x = false)
    (h : startsAnyCase pattern (text ++ x::rest) = true) : startsAnyCase pattern text = true := by
  induction pattern generalizing text with
  | nil => rfl
  | cons c pattern ih =>
    obtain ⟨hc,hpattern⟩ := List.forall_mem_cons.mp hx
    cases text with
    | nil =>
      rw [List.nil_append,startsAnyCase,hc] at h
      exact absurd h Bool.false_ne_true
    | cons y text =>
      rw [List.cons_append,startsAnyCase,Bool.and_eq_true] at h
      rw [startsAnyCase,Bool.and_eq_true]
      exact ⟨h.1,ih hpattern h.2⟩

theorem startsAnyCase_self (h : ∀ c ∈ pattern, matchesAnyCase c c = true) :
    startsAnyCase pattern pattern = true := by
  induction pattern with
  | nil => rfl
  | cons c pattern ih =>
    obtain ⟨hc,hpattern⟩ := List.forall_mem_cons.mp h
    rw [startsAnyCase,hc,ih hpattern]
    rfl

end Matching

section Capture
variable {isWord : Char → Bool} {name text body c : List Char}

/-- The content ends where a closing tag first begins. -/
theorem upToClosing_spec (hclosing : ∃ before rest, text = before ++ rest ∧
    startsAnyCase (closingTag name) rest = true) : ∃ content rest,
      upToClosing name text = some content ∧ text = content ++ rest ∧
      startsAnyCase (closingTag name) rest = true ∧
      ∀ before rest', text = before ++ rest' → startsAnyCase (closingTag name) rest' = true →
        content.length ≤ before.length := by
  induction text with
  | nil =>
    obtain ⟨before,rest,heq,hstarts⟩ := hclosing
    obtain ⟨-,rfl⟩ := List.nil_eq_append_iff.mp heq
    exact absurd hstarts Bool.false_ne_true
  | cons x text ih =>
    by_cases hhere : startsAnyCase (closingTag name) (x::text) = true
    · exact ⟨[],x::text,by rw [upToClosing,if_pos hhere],rfl,hhere,fun _ _ _ _ => Nat.zero_le _⟩
    · obtain ⟨before,rest,heq,hstarts⟩ := hclosing
      cases before with
      | nil => exact absurd (heq ▸ hstarts) hhere
      | cons y before =>
        obtain ⟨rfl,htail⟩ := List.cons_eq_cons.mp heq
        obtain ⟨content,rest',hcontent,htext,hrest,hfirst⟩ := ih ⟨before,rest,htail,hstarts⟩
        refine ⟨x::content,rest',?_,by rw [htext,List.cons_append],hrest,?_⟩
        · rw [upToClosing,if_neg hhere,hcontent]
          rfl
        · intro before' rest'' heq' hstarts'
          cases before' with
          | nil => exact absurd (heq' ▸ hstarts') hhere
          | cons z before' =>
            obtain ⟨-,heq'⟩ := List.cons_eq_cons.mp heq'
            exact Nat.succ_le_succ (hfirst before' rest'' heq' hstarts')

/-- The names of the elements are matched by themselves, and by no bracket. -/
theorem descriptionElements_spec (hname : name ∈ descriptionElements) :
    (∀ c ∈ name, matchesAnyCase c c = true) ∧
      ∀ c ∈ closingTag name, matchesAnyCase c ']' = false := by
  have hall : name.all (fun c => matchesAnyCase c c) = true ∧
      (closingTag name).all (fun c => !matchesAnyCase c ']') = true := by
    simp only [descriptionElements,List.mem_cons,List.not_mem_nil,or_false] at hname
    rcases hname with rfl | rfl
    · exact ⟨rfl,rfl⟩
    · exact ⟨rfl,rfl⟩
  simpa [List.all_eq_true] using hall

theorem startsAnyCase_closingTag (hname : name ∈ descriptionElements) :
    startsAnyCase (closingTag name) (closingTag name) = true := by
  refine startsAnyCase_self ?_
  intro c hc
  simp only [closingTag,List.cons_append,List.mem_cons,List.mem_append,List.not_mem_nil,
    or_false] at hc
  rcases hc with rfl | rfl | hc | rfl
  · decide
  · decide
  · exact (descriptionElements_spec hname).1 c hc
  · decide

/-- The first element of the text is the one at its beginning. -/
theorem captureBlock_element (hname : name ∈ descriptionElements) (hword : isWord '>' = false)
    {content : List Char} (h : upToClosing name text = some content) :
    captureBlock isWord name (openingTag name ++ text) = some content := by
  have hopening : afterOpening isWord name (openingTag name ++ text) = some text := by
    have hstarts : startsAnyCase ('<'::name) (openingTag name ++ text) = true := by
      have hself : startsAnyCase ('<'::name) ('<'::name) = true := by
        refine startsAnyCase_self (List.forall_mem_cons.mpr ⟨by decide,?_⟩)
        exact (descriptionElements_spec hname).1
      rw [openingTag,List.append_assoc]
      exact startsAnyCase_append hself _
    have hdrop : (openingTag name ++ text).drop (name.length + 1) = '>'::text := by
      rw [openingTag,List.append_assoc]
      exact List.drop_left' rfl
    rw [afterOpening,if_pos hstarts,hdrop]
    simp [hword]
  rw [openingTag,List.cons_append,List.cons_append] at hopening ⊢
  rw [captureBlock,hopening,Option.bind_some,h]

end Capture

section Body
variable {name s : List Char}

theorem trimText_of_ends {first last : Char} {middle : List Char}
    (hfirst : isWhitespace first = false) (hlast : isWhitespace last = false) :
    trimText (first::middle ++ [last]) = first::middle ++ [last] := by
  have hstart : (first::middle ++ [last]).dropWhile isWhitespace = first::middle ++ [last] := by
    rw [List.cons_append,List.dropWhile_cons_of_neg (by simp [hfirst])]
  rw [trimText,hstart,List.reverse_append,List.reverse_singleton,List.singleton_append,
    List.dropWhile_cons_of_neg (by simp [hlast]),List.reverse_cons,List.reverse_reverse]

theorem trimText_cdataBody (s : List Char) : trimText (cdataBody s) = cdataBody s := by
  have hstart : cdataStart = '<'::['!','[','C','D','A','T','A','['] := by decide
  have hend : cdataEnd = [']',']'] ++ ['>'] := by decide
  have hfirst : isWhitespace '<' = false := by decide
  have hlast : isWhitespace '>' = false := by decide
  unfold cdataBody
  generalize replaceAll cdataEnd cdataJoined s = middle
  rw [hstart,hend,← List.append_assoc,List.cons_append,List.cons_append,
    trimText_of_ends hfirst hlast]

/-- Character data that is written never ends with its end, before that is added. -/
theorem not_suffix_replaceAll (s : List Char) : ¬cdataEnd <:+ replaceAll cdataEnd cdataJoined s := by
  have hpat : cdataEnd ≠ [] := by decide
  induction s using replaceAll_induction hpat with
  | hnil => decide
  | hmatch xs ih =>
    rw [replaceAll_append_left hpat]
    intro hsuf
    rcases List.suffix_or_suffix_of_suffix hsuf (List.suffix_append cdataJoined _) with h | h
    · exact ih h
    · -- What follows the joined sections is then a part of the end.
      have htails : replaceAll cdataEnd cdataJoined xs ∈
          [[']',']','>'],[']','>'],['>'],[]] := (List.mem_tails _ _).mpr h
      simp only [List.mem_cons,List.not_mem_nil,or_false] at htails
      rcases htails with hrest | hrest | hrest | hrest <;> rw [hrest] at hsuf ih
      · exact ih (List.suffix_refl _)
      · exact absurd hsuf (by decide)
      · exact absurd hsuf (by decide)
      · exact absurd hsuf (by decide)
  | hcons x xs hne ih =>
    rw [replaceAll_cons hne]
    intro hsuf
    rcases List.suffix_cons_iff.mp hsuf with heq | hsuf
    · -- Then the rest is too short to hold an end itself.
      obtain ⟨hx,htail⟩ := List.cons_eq_cons.mp heq
      have hmore : cdataEnd.count '[' < cdataJoined.count '[' := by decide
      have hnone : ¬cdataEnd <:+: xs := by
        refine not_infix_of_le_count hpat hmore ?_
        rw [← htail]
        exact Nat.zero_le _
      rw [replaceAll_eq_self hnone] at htail
      refine hne ?_
      rw [← hx,← htail]
      exact List.prefix_refl _
    · exact ih hsuf

/-- A closing tag begins with these two signs. -/
theorem head_of_startsAnyCase {x : Char} {text : List Char}
    (h : startsAnyCase (closingTag name) (x::text) = true) :
    x = '<' ∧ ∀ y ∈ text.head?, y = '/' := by
  rw [closingTag,List.cons_append,startsAnyCase,Bool.and_eq_true] at h
  refine ⟨matchesAnyCase_sign (by decide) h.1,?_⟩
  intro y hy
  obtain ⟨rest,rfl⟩ := List.head?_eq_some_iff.mp hy
  rw [List.cons_append,startsAnyCase,Bool.and_eq_true] at h
  exact matchesAnyCase_sign (by decide) h.2.1

/-- The content of the element reaches to the end of the character data or to a closing tag in
it. -/
theorem upToClosing_cdataBody (hname : name ∈ descriptionElements) (s : List Char) :
    ∃ content d, upToClosing name (cdataBody s ++ closingTag name) = some content ∧
      cdataBody s = content ++ d ∧ startsAnyCase (closingTag name) (d ++ closingTag name) = true ∧
      ∀ before rest, cdataBody s ++ closingTag name = before ++ rest →
        startsAnyCase (closingTag name) rest = true → content.length ≤ before.length := by
  have hself := startsAnyCase_closingTag hname
  obtain ⟨content,rest,hcontent,heq,hstarts,hfirst⟩ :=
    upToClosing_spec ⟨cdataBody s,closingTag name,rfl,hself⟩
  have hle := hfirst _ _ rfl hself
  obtain ⟨d,hbody,rfl⟩ : ∃ d, cdataBody s = content ++ d ∧ rest = d ++ closingTag name := by
    rcases List.append_eq_append_iff.mp heq with ⟨d,rfl,hclosing⟩ | ⟨d,hbody,hrest⟩
    · have hnil : d = [] := by
        rw [List.length_append] at hle
        exact List.length_eq_zero_iff.mp (by omega)
      subst hnil
      exact ⟨[],by simp,by simpa using hclosing.symm⟩
    · exact ⟨d,hbody,hrest⟩
  exact ⟨content,d,hcontent,hbody,hstarts,hfirst⟩

/-- No closing tag begins in the character data of a text without one. -/
theorem eq_nil_of_safe (hname : name ∈ descriptionElements) (hstop : ¬cdataEnd <:+: s)
    (hclosing : ¬ContainsAnyCase (closingTag name) s) {d : List Char} (hd : d <:+ cdataBody s)
    (hstarts : startsAnyCase (closingTag name) (d ++ closingTag name) = true) : d = [] := by
  by_contra hne
  obtain ⟨x,d',rfl⟩ := List.exists_cons_of_ne_nil hne
  obtain ⟨rfl,hsecond⟩ := head_of_startsAnyCase hstarts
  rw [cdataBody,replaceAll_eq_self hstop] at hd
  rcases List.suffix_or_suffix_of_suffix hd (List.suffix_append _ cdataEnd) with h | ⟨inner,h⟩
  · have htails : '<'::d' ∈ [[']',']','>'],[']','>'],['>'],[]] := (List.mem_tails _ _).mpr h
    simp at htails
  · rw [← h,append_suffix_append_iff] at hd
    have hinner : startsAnyCase (closingTag name) inner = true := by
      rw [← h,List.append_assoc] at hstarts
      exact startsAnyCase_of_append (descriptionElements_spec hname).2 hstarts
    rcases List.suffix_or_suffix_of_suffix hd (List.suffix_append cdataStart s) with h' | ⟨init,h'⟩
    · exact hclosing ⟨inner,h',hinner⟩
    · rw [← h',append_suffix_append_iff] at hd
      cases init with
      | nil => exact hclosing ⟨inner,h' ▸ List.suffix_refl _,hinner⟩
      | cons y init =>
        rw [← h',List.cons_append] at hinner
        obtain ⟨rfl,hslash⟩ := head_of_startsAnyCase hinner
        -- Only the whole start of character data begins with the bracket.
        have htails : ∀ t ∈ cdataStart.tails, t.head? = some '<' →
            t = ['<','!','[','C','D','A','T','A','['] := by
          decide
        have hwhole := htails _ ((List.mem_tails _ _).mpr hd) rfl
        rw [(List.cons_eq_cons.mp hwhole).2] at hslash
        exact absurd (hslash '!' rfl) (by decide)

/-- Where the content is not all of the character data a slash is missing. -/
theorem count_content_lt {content d : List Char} (hbody : cdataBody s = content ++ d) (hd : d ≠ [])
    (hstarts : startsAnyCase (closingTag name) (d ++ closingTag name) = true) :
    content.count '/' < s.count '/' := by
  have hcount : (cdataBody s).count '/' = s.count '/' := by
    have hsame : cdataEnd.count '/' = cdataJoined.count '/' := by decide
    have hzero : cdataStart.count '/' = 0 ∧ cdataEnd.count '/' = 0 := by decide
    rw [cdataBody,List.count_append,List.count_append,count_replaceAll (by decide) hsame,hzero.1,
      hzero.2,Nat.zero_add,Nat.add_zero]
  obtain ⟨x,d,rfl⟩ := List.exists_cons_of_ne_nil hd
  obtain ⟨rfl,hsecond⟩ := head_of_startsAnyCase hstarts
  cases d with
  | nil =>
    have hend : cdataEnd = [']',']'] ++ ['>'] := by decide
    rw [cdataBody] at hbody
    generalize replaceAll cdataEnd cdataJoined s = middle at hbody
    rw [hend,← List.append_assoc] at hbody
    exact absurd (List.append_inj' hbody rfl).2 (by decide)
  | cons y d =>
    obtain rfl := hsecond y rfl
    have hmem : 0 < ('<':: '/'::d).count '/' := List.count_pos_iff.mpr (by simp)
    rw [← hcount,hbody,List.count_append]
    omega

/-- Stripping leaves what was between, but for beginnings of character data in the text. -/
theorem stripCdata_cdataBody (s : List Char) :
    stripCdata (cdataBody s) =
      trimStartMatches cdataStart (replaceAll cdataEnd cdataJoined s) := by
  have hends : cdataStart <+: cdataBody s ∧ cdataEnd <:+ cdataBody s := by
    refine ⟨?_,List.suffix_append _ _⟩
    rw [cdataBody,List.append_assoc]
    exact List.prefix_append _ _
  have hbracket : ']' ∉ cdataStart := by decide
  have hstart : cdataStart ≠ [] := by decide
  have hstop : cdataEnd ≠ [] := by decide
  have hend : cdataEnd = ']'::[']','>'] := by decide
  rw [stripCdata,trimText_cdataBody]
  rw [if_pos hends,cdataBody,List.append_assoc,trimStartMatches_append hstart]
  have hstrip : trimStartMatches cdataStart (replaceAll cdataEnd cdataJoined s ++ cdataEnd) =
      trimStartMatches cdataStart (replaceAll cdataEnd cdataJoined s) ++ cdataEnd := by
    generalize replaceAll cdataEnd cdataJoined s = middle
    rw [hend]
    exact trimStartMatches_append_cons hbracket _ _
  rw [hstrip,trimEndMatches_append hstop]
  refine trimEndMatches_eq_self ?_
  intro hsuf
  exact not_suffix_replaceAll s (hsuf.trans (trimStartMatches_suffix _ _))

/-- Trimming leaves the signs that are no white space. -/
theorem count_trimText {c : Char} (hc : isWhitespace c = false) (s : List Char) :
    (trimText s).count c = s.count c := by
  have hdrop : ∀ text : List Char, (text.dropWhile isWhitespace).count c = text.count c := by
    intro text
    induction text with
    | nil => rfl
    | cons x text ih =>
      by_cases hx : isWhitespace x = true
      · have hne : x ≠ c := by
          rintro rfl
          rw [hc] at hx
          exact Bool.false_ne_true hx
        rw [List.dropWhile_cons_of_pos hx,ih,List.count_cons_of_ne hne]
      · rw [List.dropWhile_cons_of_neg hx]
  rw [trimText,List.count_reverse,hdrop,List.count_reverse,hdrop]

end Body

section ReadBack
variable {isWord : Char → Bool} {name s : List Char}

/-- What is read back is the decoded content of the element. -/
theorem xmlText_pushCdataElement (hname : name ∈ descriptionElements)
    (hword : isWord '>' = false) {content : List Char}
    (h : upToClosing name (cdataBody s ++ closingTag name) = some content) :
    xmlText isWord (pushCdataElement [] name s) name =
      some (decodeXmlText (stripCdata (trimText content))) := by
  have helement : pushCdataElement [] name s =
      openingTag name ++ (cdataBody s ++ closingTag name) := by
    simp only [pushCdataElement,cdataBody,cdataJoined,List.nil_append,List.append_assoc]
  rw [xmlText,helement,captureBlock_element hname hword h]
  rfl

/-- Reading back adds no slash. -/
theorem count_slash_le (content : List Char) :
    (decodeXmlText (stripCdata (trimText content))).count '/' ≤ content.count '/' := by
  have hslash : isWhitespace '/' = false := by decide
  have hall : ∀ e ∈ xmlEntities, e.1 ≠ [] ∧ [e.2].count '/' ≤ e.1.count '/' := by decide
  have hstrip : ∀ text, (stripCdata text).count '/' ≤ text.count '/' := by
    intro text
    unfold stripCdata
    rw [← count_trimText hslash text]
    dsimp only
    split
    · exact ((trimEndMatches_begins _ _).sublist.trans
        (trimStartMatches_suffix _ _).sublist).count_le '/'
    · exact le_rfl
  rw [decodeXmlText_eq]
  refine (count_decodeEntities_le hall _).trans ((hstrip _).trans ?_)
  rw [count_trimText hslash]

theorem readsBack_of_safe (hname : name ∈ descriptionElements) (hword : isWord '>' = false)
    (hsafe : CdataSafe name s) : ReadsBack isWord name s := by
  obtain ⟨content,d,hcontent,hbody,hstarts,-⟩ := upToClosing_cdataBody hname s
  have hd : d <:+ cdataBody s := hbody ▸ List.suffix_append content d
  obtain rfl := eq_nil_of_safe hname hsafe.stop hsafe.closing hd hstarts
  rw [List.append_nil] at hbody
  refine ⟨s,?_,rfl⟩
  rw [xmlText_pushCdataElement hname hword hcontent,← hbody,trimText_cdataBody,
    stripCdata_cdataBody,replaceAll_eq_self hsafe.stop,
    trimStartMatches_eq_self hsafe.start,decodeXmlText_eq,
    decodeEntities_eq_self hsafe.entities]

/-- A text that is read back has kept its signs: its slashes show that all of it was read, its
semicolons that nothing was decoded, its brackets that nothing was joined or stripped. -/
theorem safe_of_readsBack (hname : name ∈ descriptionElements) (hword : isWord '>' = false)
    (h : ReadsBack isWord name s) : CdataSafe name s := by
  obtain ⟨content,d,hcontent,hbody,hstarts,hfirst⟩ := upToClosing_cdataBody hname s
  obtain ⟨text,htext,htrim⟩ := h
  rw [xmlText_pushCdataElement hname hword hcontent,Option.some_inj] at htext
  have hsigns : ∀ c, isWhitespace c = false → text.count c = s.count c := by
    intro c hc
    rw [← count_trimText hc text,htrim,count_trimText hc]
  have hall : d = [] := by
    by_contra hne
    have hlt := count_content_lt hbody hne hstarts
    have hle := count_slash_le content
    rw [htext,hsigns '/' (by decide)] at hle
    omega
  subst hall
  rw [List.append_nil] at hbody
  rw [← hbody,trimText_cdataBody,stripCdata_cdataBody,decodeXmlText_eq] at htext
  have hpat : cdataEnd ≠ [] := by decide
  have hstart : ';' ∉ cdataStart ∧ '>' ∉ cdataStart := by decide
  have hsemicolon : cdataEnd.count ';' = cdataJoined.count ';' := by decide
  have hbracket : cdataEnd.count '>' < cdataJoined.count '>' := by decide
  have hcount : (trimStartMatches cdataStart (replaceAll cdataEnd cdataJoined s)).count ';' ≤
      (decodeEntities xmlEntities
        (trimStartMatches cdataStart (replaceAll cdataEnd cdataJoined s))).count ';' := by
    rw [htext,hsigns ';' (by decide),count_trimStartMatches hstart.1,
      count_replaceAll hpat hsemicolon]
  have hentities := decodeEntities_of_count (fun e he => semicolon_of_mem he) hcount
  rw [hentities.2] at htext
  have hstop : ¬cdataEnd <:+: s := by
    refine not_infix_of_le_count hpat hbracket ?_
    rw [← count_trimStartMatches hstart.2,htext,hsigns '>' (by decide)]
  rw [replaceAll_eq_self hstop] at htext hentities
  have hbegin : ¬cdataStart <+: s := by
    rintro ⟨rest,rfl⟩
    have hle := (trimStartMatches_suffix cdataStart rest).sublist.count_le '['
    have hsame := hsigns '[' (by decide)
    have hpos : 0 < cdataStart.count '[' := by decide
    rw [← htext,trimStartMatches_append (by decide),List.count_append] at hsame
    omega
  rw [trimStartMatches_eq_self hbegin] at hentities
  refine ⟨hbegin,hstop,hentities.1,?_⟩
  rintro ⟨rest,⟨before,rfl⟩,hrest⟩
  have hle := hfirst (cdataStart ++ before) (rest ++ (cdataEnd ++ closingTag name)) (by
    rw [cdataBody,replaceAll_eq_self hstop]
    simp only [List.append_assoc]) (startsAnyCase_append hrest _)
  rw [← hbody,cdataBody,replaceAll_eq_self hstop] at hle
  have hlong : 0 < cdataEnd.length := by decide
  simp only [List.length_append] at hle
  omega

/-- Which texts survive: escaped ones without an entity but the ampersand, and descriptions that
character data holds as they are. -/
theorem feedText_survives_iff (hword : isWord '>' = false) (s : List Char) :
    (decodeXmlText (xmlEscape s) = s ↔ ∀ e ∈ xmlEntities.tail, ¬e.1 <:+: s) ∧
      ∀ name ∈ descriptionElements, (ReadsBack isWord name s ↔ CdataSafe name s) :=
  ⟨decodeXmlText_xmlEscape_iff s,fun _ hname =>
    ⟨safe_of_readsBack hname hword,readsBack_of_safe hname hword⟩⟩

/-- A paragraph with an ampersand survives both ways. -/
theorem feedText_survives_paragraph :
    (fun c : Char => c.isAlphanum) '>' = false ∧
      decodeXmlText (xmlEscape "<p>Q & A</p>".toList) = "<p>Q & A</p>".toList ∧
      ∀ name ∈ descriptionElements,
        ReadsBack (fun c : Char => c.isAlphanum) name "<p>Q & A</p>".toList := by
  have hword : (fun c : Char => c.isAlphanum) '>' = false := by decide
  have hsurvives := feedText_survives_iff hword "<p>Q & A</p>".toList
  refine ⟨hword,hsurvives.1.mpr (by decide),fun name hname => (hsurvives.2 name hname).mpr ?_⟩
  refine ⟨by decide,by decide,by decide,?_⟩
  rintro ⟨rest,hsuf,hstarts⟩
  have hnone : ∀ name ∈ descriptionElements, ∀ rest ∈ "<p>Q & A</p>".toList.tails,
      startsAnyCase (closingTag name) rest = false := by
    decide
  rw [hnone name hname rest ((List.mem_tails _ _).mpr hsuf)] at hstarts
  exact Bool.false_ne_true hstarts

/-- A text that looks escaped is decoded, and the end of character data does not come back. -/
theorem not_feedText_survives :
    decodeXmlText (xmlEscape "&lt;".toList) ≠ "&lt;".toList ∧
      ¬ReadsBack (fun c : Char => c.isAlphanum) "description".toList "]]>".toList := by
  refine ⟨by decide,fun h => ?_⟩
  exact (safe_of_readsBack (by decide) (by decide) h).stop (List.infix_refl _)

end ReadBack

end Podly.Feeds
