import Podly.Feeds.XmlText

/-! Which texts survive being written and read back: an escaped text is decoded once too often, and
character data is neither joined nor left undecoded. -/
namespace Podly.Feeds
open Strings WordBoundary

/-- The entities, in the order in which they are decoded. -/
def xmlEntities : List (List Char × Char) :=
  [("&amp;".toList,'&'),("&lt;".toList,'<'),("&gt;".toList,'>'),("&quot;".toList,'"'),
    ("&apos;".toList,'\'')]

/-- Decode some entities, one after the other. -/
def decodeEntities (entities : List (List Char × Char)) (text : List Char) : List Char :=
  entities.foldl (fun text entity => replaceAll entity.1 [entity.2] text) text

section Decode
variable {entities : List (List Char × Char)} {text s : List Char}

theorem decodeXmlText_eq (text : List Char) :
    decodeXmlText text = decodeEntities xmlEntities text := rfl

/-- Each entity ends with a semicolon that is gone once it is decoded. -/
theorem semicolon_of_mem {e : List Char × Char} (he : e ∈ xmlEntities) :
    e.1 ≠ [] ∧ [e.2].count ';' < e.1.count ';' := by
  have hall : ∀ e ∈ xmlEntities, e.1 ≠ [] ∧ [e.2].count ';' < e.1.count ';' := by decide
  exact hall e he

/-- Decoding adds no character but those that entities stand for. -/
theorem count_decodeEntities_le {c : Char}
    (h : ∀ e ∈ entities, e.1 ≠ [] ∧ [e.2].count c ≤ e.1.count c) (text : List Char) :
    (decodeEntities entities text).count c ≤ text.count c := by
  induction entities generalizing text with
  | nil => exact le_rfl
  | cons e entities ih =>
    obtain ⟨he,hrest⟩ := List.forall_mem_cons.mp h
    exact (ih hrest _).trans (count_replaceAll_le he.1 he.2 text)

/-- A text that keeps its semicolons holds no entity and is left as it is. -/
theorem decodeEntities_of_count
    (h : ∀ e ∈ entities, e.1 ≠ [] ∧ [e.2].count ';' < e.1.count ';')
    (hcount : text.count ';' ≤ (decodeEntities entities text).count ';') :
    (∀ e ∈ entities, ¬e.1 <:+: text) ∧ decodeEntities entities text = text := by
  induction entities generalizing text with
  | nil => exact ⟨by simp,rfl⟩
  | cons e entities ih =>
    obtain ⟨he,hrest⟩ := List.forall_mem_cons.mp h
    have hle := count_decodeEntities_le (fun e he => ⟨(hrest e he).1,(hrest e he).2.le⟩)
      (replaceAll e.1 [e.2] text)
    have hnone : ¬e.1 <:+: text := not_infix_of_count_le he.1 he.2 (hcount.trans hle)
    have heq : replaceAll e.1 [e.2] text = text := replaceAll_eq_self hnone
    rw [decodeEntities,List.foldl_cons,heq] at hcount ⊢
    obtain ⟨hnone',heq'⟩ := ih hrest hcount
    exact ⟨List.forall_mem_cons.mpr ⟨hnone,hnone'⟩,heq'⟩

theorem decodeEntities_eq_self (h : ∀ e ∈ entities, ¬e.1 <:+: text) :
    decodeEntities entities text = text := by
  induction entities with
  | nil => rfl
  | cons e entities ih =>
    obtain ⟨he,hrest⟩ := List.forall_mem_cons.mp h
    rw [decodeEntities,List.foldl_cons,replaceAll_eq_self he]
    exact ih hrest

end Decode

section Escape
variable {c : Char} {body : List Char} {escape escape' : Char → List Char}

/-- A pattern without an ampersand is found only in what was not escaped. -/
theorem prefix_of_prefix_flatMap {pat xs : List Char} (hpat : '&' ∉ pat)
    (hescape : ∀ x, escape x = [x] ∨ ∃ rest, escape x = '&'::rest)
    (h : pat <+: xs.flatMap escape) : pat <+: xs := by
  induction xs generalizing pat with
  | nil => exact h
  | cons x xs ih =>
    cases pat with
    | nil => exact List.nil_prefix
    | cons p pat =>
      rw [List.flatMap_cons] at h
      rcases hescape x with hx | ⟨rest,hx⟩
      · rw [hx,List.singleton_append,List.cons_prefix_cons] at h
        exact List.cons_prefix_cons.mpr
          ⟨h.1,ih (fun hmem => hpat (List.mem_cons_of_mem p hmem)) h.2⟩
      · rw [hx,List.cons_append,List.cons_prefix_cons] at h
        exact absurd (h.1 ▸ List.mem_cons_self) hpat

/-- Decoding an entity other than the ampersand undoes its escape, and decodes what looked like it
before. -/
theorem replaceAll_flatMap (hbody : '&' ∉ body) (hc : escape c = '&'::body) (hc' : escape' c = [c])
    (hsame : ∀ x ≠ c, escape' x = escape x)
    (hother : ∀ x ≠ c, escape x = [x] ∨
      ∃ b, escape x = '&'::b ∧ '&' ∉ b ∧ ∀ ys, ¬ '&'::body <+: '&'::(b ++ ys))
    (hplain : ∀ x ∈ '&'::body, escape x = [x]) (xs : List Char) :
    replaceAll ('&'::body) [c] (xs.flatMap escape) =
      (replaceAll ('&'::body) [c] xs).flatMap escape' := by
  have hpat : '&'::body ≠ [] := List.cons_ne_nil '&' body
  have hescape : ∀ x, escape x = [x] ∨ ∃ rest, escape x = '&'::rest := by
    intro x
    by_cases hx : x = c
    · exact Or.inr ⟨body,hx ▸ hc⟩
    · exact (hother x hx).imp_right (fun ⟨b,hb,_⟩ => ⟨b,hb⟩)
  have hflat : ('&'::body).flatMap escape = '&'::body := by
    have hmap := List.flatMap_congr hplain
    rw [hmap,List.flatMap_singleton']
  induction xs using replaceAll_induction hpat with
  | hnil => rfl
  | hmatch xs ih =>
    rw [List.flatMap_append,hflat,replaceAll_append_left hpat,replaceAll_append_left hpat,
      List.flatMap_append,ih,List.flatMap_singleton,hc']
  | hcons x xs hne ih =>
    rw [replaceAll_cons hne,List.flatMap_cons,List.flatMap_cons,← ih]
    by_cases hx : x = c
    · rw [hx,hc,hc',replaceAll_append_left hpat]
    · rw [hsame x hx]
      rcases hother x hx with hx' | ⟨b,hb,hamp,hdiffer⟩
      · rw [hx']
        refine replaceAll_cons ?_
        intro hpre
        obtain ⟨heq,hrest⟩ := List.cons_prefix_cons.mp hpre
        exact hne (List.cons_prefix_cons.mpr ⟨heq,prefix_of_prefix_flatMap hbody hescape hrest⟩)
      · rw [hb,List.cons_append,replaceAll_cons (hdiffer _),replaceAll_append_of_not_mem hamp,
          List.cons_append]

/-- Decoding the ampersand undoes its escape. -/
theorem replaceAll_ampersand (hc : escape '&' = '&'::body) (hc' : escape' '&' = ['&'])
    (hsame : ∀ x ≠ '&', escape' x = escape x)
    (hother : ∀ x ≠ '&', escape x = [x] ∨
      ∃ b, escape x = '&'::b ∧ '&' ∉ b ∧ ∀ ys, ¬ '&'::body <+: '&'::(b ++ ys)) (xs : List Char) :
    replaceAll ('&'::body) ['&'] (xs.flatMap escape) = xs.flatMap escape' := by
  have hpat : '&'::body ≠ [] := List.cons_ne_nil '&' body
  induction xs with
  | nil => rfl
  | cons x xs ih =>
    rw [List.flatMap_cons,List.flatMap_cons,← ih]
    by_cases hx : x = '&'
    · rw [hx,hc,hc',replaceAll_append_left hpat]
    · rw [hsame x hx]
      rcases hother x hx with hx' | ⟨b,hb,hamp,hdiffer⟩
      · rw [hx']
        refine replaceAll_cons ?_
        intro hpre
        exact hx (List.cons_prefix_cons.mp hpre).1.symm
      · rw [hb,List.cons_append,replaceAll_cons (hdiffer _),replaceAll_append_of_not_mem hamp,
          List.cons_append]

end Escape

/-- What a character is escaped to. -/
def entityOf : Char → List Char
  | '&' => ['&','a','m','p',';']
  | '<' => ['&','l','t',';']
  | '>' => ['&','g','t',';']
  | '"' => ['&','q','u','o','t',';']
  | c => [c]

/-- Escape some of the characters. -/
def escapeOnly (escaped : List Char) (c : Char) : List Char :=
  if c ∈ escaped then entityOf c else [c]

section Chain
variable {escaped : List Char} {c : Char} {s : List Char}

theorem xmlEscape_eq (s : List Char) :
    xmlEscape s = s.flatMap (escapeOnly ['&','<','>','"']) := by
  simp only [xmlEscape,List.flatMap_assoc]
  congr 1
  funext x
  by_cases hamp : x = '&'
  · subst hamp
    decide
  by_cases hlt : x = '<'
  · subst hlt
    decide
  by_cases hgt : x = '>'
  · subst hgt
    decide
  by_cases hquot : x = '"'
  · subst hquot
    decide
  · have hmem : x ∉ ['&','<','>','"'] := by
      simp only [List.mem_cons,List.not_mem_nil,hamp,hlt,hgt,hquot,or_false,not_false_eq_true]
    simp only [if_neg hamp,List.flatMap_singleton,if_neg hlt,if_neg hgt,if_neg hquot,
      escapeOnly,if_neg hmem]

/-- The entity of a character is not found at the one of another character. -/
theorem escapeOnly_other (hescaped : ∀ x ∈ escaped, x ∈ ['&','<','>','"'])
    (hc : c ∈ ['&','<','>','"']) {x : Char} (hx : x ≠ c) : escapeOnly escaped x = [x] ∨
      ∃ b, escapeOnly escaped x = '&'::b ∧ '&' ∉ b ∧ ∀ ys, ¬entityOf c <+: '&'::(b ++ ys) := by
  by_cases hmem : x ∈ escaped
  · right
    rw [escapeOnly,if_pos hmem]
    have hx' := hescaped x hmem
    simp only [List.mem_cons,List.not_mem_nil,or_false] at hx' hc
    rcases hx' with rfl | rfl | rfl | rfl <;> rcases hc with rfl | rfl | rfl | rfl <;>
      first
      | exact absurd rfl hx
      | exact ⟨_,rfl,by decide,by simp [entityOf,List.cons_prefix_cons]⟩
  · exact Or.inl (if_neg hmem)

theorem entityOf_eq (hc : c ∈ ['<','>','"']) :
    ∃ body, entityOf c = '&'::body ∧ '&' ∉ body ∧ ∀ x ∈ '&'::body, x ∉ ['<','>','"'] := by
  simp only [List.mem_cons,List.not_mem_nil,or_false] at hc
  rcases hc with rfl | rfl | rfl
  · exact ⟨_,rfl,by simp,by simp⟩
  · exact ⟨_,rfl,by simp,by simp⟩
  · exact ⟨_,rfl,by simp,by simp⟩

/-- One more entity is decoded: of the escaped characters, and of the text. -/
theorem replaceAll_escapeOnly (c : Char) (escaped : List Char)
    (hescaped : ∀ x ∈ escaped, x ∈ ['<','>','"']) (hc : c ∈ ['<','>','"']) (hmem : c ∈ escaped)
    (s : List Char) : replaceAll (entityOf c) [c] (s.flatMap (escapeOnly escaped)) =
      (replaceAll (entityOf c) [c] s).flatMap (escapeOnly (escaped.filter (· ≠ c))) := by
  obtain ⟨body,hbody,hamp,hplain⟩ := entityOf_eq hc
  have hother : ∀ x ≠ c, escapeOnly escaped x = [x] ∨ ∃ b, escapeOnly escaped x = '&'::b ∧
      '&' ∉ b ∧ ∀ ys, ¬ '&'::body <+: '&'::(b ++ ys) := by
    intro x hx
    rw [← hbody]
    exact escapeOnly_other (fun x hx => List.mem_cons_of_mem '&' (hescaped x hx))
      (List.mem_cons_of_mem '&' hc) hx
  rw [hbody]
  refine replaceAll_flatMap hamp ?_ ?_ ?_ hother ?_ s
  · rw [escapeOnly,if_pos hmem,hbody]
  · rw [escapeOnly,if_neg (by simp)]
  · intro x hx
    simp [escapeOnly,hx]
  · intro x hx
    exact if_neg (fun hin => hplain x hx (hescaped x hin))

/-- Reading back decodes the entities that the text held, but for the ampersand. -/
theorem decodeXmlText_xmlEscape (s : List Char) :
    decodeXmlText (xmlEscape s) = decodeEntities xmlEntities.tail s := by
  have hamp : replaceAll ['&','a','m','p',';'] ['&'] (xmlEscape s) =
      s.flatMap (escapeOnly ['<','>','"']) := by
    rw [xmlEscape_eq]
    refine replaceAll_ampersand (by decide) (by decide) ?_ ?_ s
    · intro x hx
      simp [escapeOnly,hx]
    · intro x hx
      exact escapeOnly_other (fun x hx => hx) List.mem_cons_self hx
  have hlt : ∀ text : List Char, replaceAll ['&','l','t',';'] ['<']
      (text.flatMap (escapeOnly ['<','>','"'])) =
      (replaceAll ['&','l','t',';'] ['<'] text).flatMap (escapeOnly ['>','"']) :=
    replaceAll_escapeOnly '<' ['<','>','"'] (fun x hx => hx) (by simp) (by simp)
  have hgt : ∀ text : List Char, replaceAll ['&','g','t',';'] ['>']
      (text.flatMap (escapeOnly ['>','"'])) =
      (replaceAll ['&','g','t',';'] ['>'] text).flatMap (escapeOnly ['"']) :=
    replaceAll_escapeOnly '>' ['>','"'] (by simp) (by simp) (by simp)
  have hquot : ∀ text : List Char, replaceAll ['&','q','u','o','t',';'] ['"']
      (text.flatMap (escapeOnly ['"'])) =
      (replaceAll ['&','q','u','o','t',';'] ['"'] text).flatMap (escapeOnly []) :=
    replaceAll_escapeOnly '"' ['"'] (by simp) (by simp) (by simp)
  have hnone : ∀ text : List Char, text.flatMap (escapeOnly []) = text := List.flatMap_singleton'
  change replaceAll ['&','a','p','o','s',';'] ['\''] (replaceAll ['&','q','u','o','t',';'] ['"']
    (replaceAll ['&','g','t',';'] ['>'] (replaceAll ['&','l','t',';'] ['<']
      (replaceAll ['&','a','m','p',';'] ['&'] (xmlEscape s))))) = _
  rw [hamp,hlt,hgt,hquot,hnone]
  rfl

/-- An escaped text is read back as it was when it holds no entity but the ampersand. -/
theorem decodeXmlText_xmlEscape_iff (s : List Char) :
    decodeXmlText (xmlEscape s) = s ↔ ∀ e ∈ xmlEntities.tail, ¬e.1 <:+: s := by
  rw [decodeXmlText_xmlEscape]
  constructor
  · intro h
    refine (decodeEntities_of_count ?_ ?_).1
    · exact fun e he => semicolon_of_mem (List.mem_of_mem_tail he)
    · rw [h]
  · exact decodeEntities_eq_self

end Chain

end Podly.Feeds
