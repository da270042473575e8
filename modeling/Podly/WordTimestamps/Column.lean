import Mathlib.Data.List.DropRight
import Mathlib.Data.Option.Defs
import Mathlib.Data.String.Basic
import Podly.Store.Run
import Podly.Store.Table
import Podly.Strings.Trimmed

/-! The column of word timestamps, which is stored in several forms by two writers and a job: what
its readers make of each form, and that they read what was last written. -/
namespace Podly.WordTimestamps
open Store Strings

/-! What SQLite stores -/

def isSqlSpace (c : Char) : Bool := c = ' ' || (9 ≤ c.toNat && c.toNat ≤ 13)

def unsigned : List Char → List Char
  | '+'::cs | '-'::cs | cs => cs

/-- The text is a literal of a number, which a column of the declared type JSON stores as one. -/
def looksNumeric (s : String) : Bool :=
  let literal := unsigned (trimmed isSqlSpace s.toList)
  let whole := literal.takeWhile Char.isDigit
  let behind := literal.dropWhile Char.isDigit
  let fraction := match behind with
    | '.'::cs => cs.takeWhile Char.isDigit
    | _ => []
  let rest := match behind with
    | '.'::cs => cs.dropWhile Char.isDigit
    | cs => cs
  (whole ≠ [] || fraction ≠ []) && match rest with
    | [] => true
    | c::exponent => (c = 'e' || c = 'E') &&
      unsigned exponent ≠ [] && (unsigned exponent).all Char.isDigit

/-- What the column holds in a row. -/
inductive Stored
  | null
  | number (literal : String)
  | text (json : String)
  | blob (bytes : ByteArray)

/-- A text as the column takes it. -/
def Stored.ofText (json : String) : Stored :=
  if looksNumeric json then .number json else .text json

/-! The format -/

/-- `_GZIP_MAGIC`, and `GZIP_MAGIC` of the sidecar. -/
def gzipMagic : List UInt8 := [0x1f,0x8b]

def startsWithMagic (bytes : ByteArray) : Bool := gzipMagic.isPrefixOf bytes.data.toList

/-- The compressors of the two languages. Each starts with the magic bytes, and what one of them
writes both of them read. -/
structure Gzip where
  compress : ByteArray → ByteArray
  encoder : ByteArray → ByteArray
  decompress : ByteArray → Option ByteArray
  decoder : ByteArray → Option ByteArray
  startsWithMagic_compress : ∀ bytes, startsWithMagic (compress bytes)
  startsWithMagic_encoder : ∀ bytes, startsWithMagic (encoder bytes)
  decompress_compress : ∀ bytes, decompress (compress bytes) = some bytes
  decompress_encoder : ∀ bytes, decompress (encoder bytes) = some bytes
  decoder_compress : ∀ bytes, decoder (compress bytes) = some bytes
  decoder_encoder : ∀ bytes, decoder (encoder bytes) = some bytes

/-- `_COMPRESS_MIN_BYTES` and `MIN_COMPRESS_BYTES`, and `MIN_TEXT_BYTES` of the job. -/
def minCompressBytes : ℕ := 1024

variable (G : Gzip)

/-- `compress_json_text`, which counts characters. -/
def compressJsonText (text : String) : Stored :=
  if text.length < minCompressBytes then .ofText text else .blob (G.compress text.toByteArray)

/-- `word_blob::encode`, which counts bytes. -/
def encode (json : String) : Stored :=
  if json.utf8ByteSize < minCompressBytes then .ofText json else .blob (G.encoder json.toByteArray)

/-- A blob is decompressed if it starts with the magic bytes; it is UTF-8 then. -/
def decodeBlob (decompress : ByteArray → Option ByteArray) (bytes : ByteArray) : Option String :=
  (if startsWithMagic bytes then decompress bytes else some bytes).bind String.fromUTF8?

/-- `CompressedJSON.result_processor` as far as the text it parses; it raises on a number. -/
def resultProcessor : Stored → Option (Option String)
  | .null => some none
  | .number _ => none
  | .text json => some (some json)
  | .blob bytes => (decodeBlob G.decompress bytes).map some

/-- `word_blob::decode`, which fails on a number. -/
def decode : Stored → Option (Option String)
  | .null => some none
  | .number _ => none
  | .text json => some (some json)
  | .blob bytes => (decodeBlob G.decoder bytes).map some

/-- What the reader of each language makes of a column. -/
def reading (stored : Stored) : Option (Option String) × Option (Option String) :=
  (resultProcessor G stored,decode G stored)

/-- Both readers read the same. -/
def Reads (stored : Stored) (words : Option String) : Prop :=
  resultProcessor G stored = some words ∧ decode G stored = some words

/-! The compression of a row -/

/-- The stored text as an encoder stores it, if that is a blob. -/
def compressStored (enc : String → Stored) : Stored → Option ByteArray
  | .text json =>
    if json = "null" then none
    else match enc json with
      | .blob bytes => some bytes
      | _ => none
  | _ => none

/-- `compress_post_word_timestamps_action` -/
def compressPostWordTimestampsAction : Stored → Option ByteArray :=
  compressStored (compressJsonText G)

/-- `compress_post_word_timestamps` of the Rust writer. -/
def compressPostWordTimestamps : Stored → Option ByteArray := compressStored (encode G)

/-! The writers -/

/-- A row of `post`: what is looked at here. -/
structure Post where
  id : ℤ
  words : Stored

abbrev Posts := Table Post.id

/-- What Python makes of JSON texts: the values they parse to, and when two of those are equal. -/
structure Python (V : Type) where
  loads : String → Option V
  equal : V → V → Bool
  loads_null : (loads "null").isSome

inductive Side
  | python
  | rust
deriving DecidableEq

/-- What is done to the column. An assignment is a finished transcription, a new start of one, a
cleared post or an update by name; `none` in a new row leaves the column out. -/
inductive Command
  | create (side : Side) (postId : ℤ) (words : Option String)
  | assign (side : Side) (postId : ℤ) (text : String)
  | compress (side : Side) (postId : ℤ)
  | delete (postId : ℤ)

def Side.enc : Side → String → Stored
  | python => compressJsonText G
  | rust => encode G

def Side.compressed : Side → Stored → Option ByteArray
  | python => compressPostWordTimestampsAction G
  | rust => compressPostWordTimestamps G

variable {V : Type} (P : Python V)

/-- The value of a column that was read; SQL NULL is the value of the text `null`. -/
def Python.value (words : Option String) : Option V := P.loads (words.getD "null")

/-- The attribute gets a value that equals the one that was loaded, so nothing is written. -/
def Python.unchanged (words : Option String) (text : String) : Bool :=
  match P.value words, P.loads text with
  | some old, some new => P.equal old new
  | _, _ => false

/-- An assignment in Python loads the row first, and fails if it cannot. -/
def assignPython (text : String) (stored : Stored) : Stored :=
  match resultProcessor G stored with
  | none => stored
  | some words =>
    if (P.value words).isNone || P.unchanged words text then stored else compressJsonText G text

def assign (side : Side) (text : String) (stored : Stored) : Stored :=
  match side with
  | .python => assignPython G P text stored
  | .rust => encode G text

def compress (side : Side) (stored : Stored) : Stored :=
  match side.compressed G stored with
  | some bytes => .blob bytes
  | none => stored

def setWords (posts : Posts) (postId : ℤ) (f : Stored → Stored) : Posts :=
  posts.modify postId (fun post => { post with words := f post.words }) (fun _ => rfl)

/-- One command in its transaction, which is committed or not. -/
def step (posts : Posts) : Command × Bool → Posts
  | (_,false) => posts
  | (.create side postId words,true) =>
    (posts.insert ⟨postId,(words.map (side.enc G)).getD .null⟩).getD posts
  | (.assign side postId text,true) => setWords posts postId (assign G P side text)
  | (.compress side postId,true) => setWords posts postId (compress G side)
  | (.delete postId,true) => posts.deleteWhere (fun post => post.id = postId)

/-! Every form is read as the text it was made of -/

section
variable {G} {P} {stored : Stored} {text : String} {words words' : Option String} {side : Side}

theorem length_le_utf8ByteSize (s : String) : s.length ≤ s.utf8ByteSize := by
  have hlist : ∀ cs : List Char, cs.length ≤ (String.ofList cs).utf8ByteSize := by
    intro cs
    induction cs with
    | nil => simp
    | cons c cs ih =>
      have hpos : 0 < c.utf8Size := Char.utf8Size_pos c
      rw [String.ofList_cons,List.length_cons]
      simp only [String.utf8ByteSize_append,String.utf8ByteSize_singleton]
      omega
  have h := hlist s.toList
  rw [String.ofList_toList,String.length_toList] at h
  exact h

theorem fromUTF8?_toByteArray (s : String) : String.fromUTF8? s.toByteArray = some s := by
  rw [String.fromUTF8?,dif_pos s.isValidUTF8]
  rfl

theorem decodeBlob_eq {decompress : ByteArray → Option ByteArray} {bytes : ByteArray}
    (hmagic : startsWithMagic bytes) (h : decompress bytes = some text.toByteArray) :
    decodeBlob decompress bytes = some text := by
  rw [decodeBlob,if_pos hmagic,h]
  exact fromUTF8?_toByteArray text

theorem ofText_of_not_looksNumeric (h : looksNumeric text = false) :
    Stored.ofText text = .text text := by
  simp [Stored.ofText,h]

theorem reads_null : Reads G .null none := ⟨rfl,rfl⟩

theorem reads_text (json : String) : Reads G (.text json) (some json) := ⟨rfl,rfl⟩

/-- What one language compresses, both read. -/
theorem reads_compress (text : String) :
    Reads G (.blob (G.compress text.toByteArray)) (some text) := by
  have hmagic := G.startsWithMagic_compress text.toByteArray
  constructor
  · rw [resultProcessor,decodeBlob_eq hmagic (G.decompress_compress _),Option.map_some]
  · rw [decode,decodeBlob_eq hmagic (G.decoder_compress _),Option.map_some]

theorem reads_encoder (text : String) : Reads G (.blob (G.encoder text.toByteArray)) (some text) := by
  have hmagic := G.startsWithMagic_encoder text.toByteArray
  constructor
  · rw [resultProcessor,decodeBlob_eq hmagic (G.decompress_encoder _),Option.map_some]
  · rw [decode,decodeBlob_eq hmagic (G.decoder_encoder _),Option.map_some]

/-- An encoder leaves a text or makes a blob that both languages read. -/
theorem enc_cases (G : Gzip) (side : Side) (text : String) :
    (text.length < minCompressBytes ∧ side.enc G text = .ofText text) ∨
      ∃ bytes, side.enc G text = .blob bytes ∧ Reads G (.blob bytes) (some text) := by
  cases side with
  | python =>
    change _ ∧ compressJsonText G text = _ ∨ ∃ bytes, compressJsonText G text = _ ∧ _
    rw [compressJsonText]
    split
    · rename_i hshort
      exact .inl ⟨hshort,rfl⟩
    · exact .inr ⟨_,rfl,reads_compress text⟩
  | rust =>
    change _ ∧ encode G text = _ ∨ ∃ bytes, encode G text = _ ∧ _
    rw [encode]
    split
    · rename_i hshort
      exact .inl ⟨(length_le_utf8ByteSize text).trans_lt hshort,rfl⟩
    · exact .inr ⟨_,rfl,reads_encoder text⟩

theorem reads_enc (side : Side) (h : looksNumeric text = false) :
    Reads G (side.enc G text) (some text) := by
  rcases enc_cases G side text with ⟨-,henc⟩ | ⟨bytes,henc,hreads⟩
  · rw [henc,ofText_of_not_looksNumeric h]
    exact reads_text text
  · rw [henc]
    exact hreads

theorem ofText_ne_blob (text : String) (bytes : ByteArray) : Stored.ofText text ≠ .blob bytes := by
  unfold Stored.ofText
  split
  all_goals simp

/-- A text that looks like a number is stored as one, which neither language reads back. -/
theorem not_reads_number (literal : String) : ¬Reads G (.number literal) words := by
  rintro ⟨h,-⟩
  cases h

theorem compressStored_eq_some {enc : String → Stored} {bytes : ByteArray} :
    compressStored enc stored = some bytes ↔
      ∃ json, stored = .text json ∧ json ≠ "null" ∧ enc json = .blob bytes := by
  unfold compressStored
  split
  · rename_i json
    split_ifs with hnull
    · simp [hnull]
    · simp only [Stored.text.injEq,exists_eq_left',ne_eq,hnull,not_false_eq_true,true_and]
      cases enc json <;> simp
  · simpa using fun json h => absurd h (by simp_all)

theorem compressed_eq (G : Gzip) (side : Side) : side.compressed G = compressStored (side.enc G) := by
  cases side <;> rfl

/-- A compression is seen by no reader. -/
theorem reading_compress (side : Side) (stored : Stored) :
    reading G (compress G side stored) = reading G stored := by
  unfold compress
  split
  · rename_i bytes hbytes
    rw [compressed_eq] at hbytes
    obtain ⟨json,rfl,-,hblob⟩ := compressStored_eq_some.mp hbytes
    rcases enc_cases G side json with ⟨-,henc⟩ | ⟨bytes',henc,hpython,hrust⟩
    · exact absurd (henc.symm.trans hblob) (ofText_ne_blob json bytes)
    · obtain rfl : bytes' = bytes := Stored.blob.inj (henc.symm.trans hblob)
      exact Prod.ext hpython hrust
  · rfl

theorem reads_compress_side (side : Side) (h : Reads G stored words) :
    Reads G (compress G side stored) words := by
  obtain ⟨hpython,hrust⟩ := Prod.mk.inj (reading_compress (G := G) side stored)
  exact ⟨hpython.trans h.1,hrust.trans h.2⟩

end

/-! What the column is for -/

/-- Each post that is there has a text, or none yet. -/
abbrev Contents := ℤ → Option (Option String)

/-- A command on the contents; a compression does nothing to them. -/
def Contents.step (contents : Contents) : Command × Bool → Contents
  | (_,false) => contents
  | (.create _ postId words,true) =>
    if contents postId = none then Function.update contents postId (some words) else contents
  | (.assign _ postId text,true) =>
    Function.update contents postId ((contents postId).map (fun _ => some text))
  | (.compress _ _,true) => contents
  | (.delete postId,true) => Function.update contents postId none

/-- The same text, or one of a value that Python finds equal. -/
def Python.Same (words words' : Option String) : Prop := words = words' ∨
  ∃ x y, P.value words = some x ∧ P.value words' = some y ∧ P.equal x y

/-- Both readers read a text from the column that is as good as this one. -/
def Holds (stored : Stored) (words : Option String) : Prop :=
  ∃ words', Reads G stored words' ∧ (P.value words').isSome ∧ P.Same words' words

/-- The rows hold the contents. -/
structure Refines (posts : Posts) (contents : Contents) : Prop where
  absent : ∀ postId, posts.get postId = none ↔ contents postId = none
  holds : ∀ {postId post words}, posts.get postId = some post → contents postId = some words →
    Holds G P post.words words

def Command.text : Command → Option String
  | .create _ _ words => words
  | .assign _ _ text => some text
  | .compress _ _ => none
  | .delete _ => none

/-- The texts that are written are JSON, and none is a number alone: they are lists or null. -/
def Writable (cmd : Command × Bool) : Prop :=
  ∀ text ∈ cmd.1.text, looksNumeric text = false ∧ (P.loads text).isSome

section
variable {G} {P} {posts : Posts} {contents : Contents} {stored : Stored} {text : String}
  {words : Option String}

theorem holds_null : Holds G P .null none :=
  ⟨none,reads_null,P.loads_null,.inl rfl⟩

theorem holds_enc (side : Side) (h : looksNumeric text = false) (hjson : (P.loads text).isSome) :
    Holds G P (side.enc G text) (some text) :=
  ⟨some text,reads_enc side h,hjson,.inl rfl⟩

/-- After an assignment in either language the column holds the assigned text. -/
theorem holds_assign (side : Side) (hheld : Holds G P stored words)
    (h : looksNumeric text = false) (hjson : (P.loads text).isSome) :
    Holds G P (assign G P side text stored) (some text) := by
  cases side with
  | rust => exact holds_enc .rust h hjson
  | python =>
    obtain ⟨words',hreads,hvalue,-⟩ := hheld
    have hloaded : (P.value words').isNone = false := by
      rw [Option.isNone_eq_false_iff]
      exact hvalue
    change Holds G P (assignPython G P text stored) (some text)
    simp only [assignPython,hreads.1,hloaded,Bool.false_or]
    split
    · rename_i hunchanged
      refine ⟨words',hreads,hvalue,.inr ?_⟩
      unfold Python.unchanged at hunchanged
      split at hunchanged
      · rename_i x y hx hy
        exact ⟨x,y,hx,hy,hunchanged⟩
      · cases hunchanged
    · exact holds_enc .python h hjson

theorem holds_compress (side : Side) (h : Holds G P stored words) :
    Holds G P (compress G side stored) words := by
  obtain ⟨words',hreads,hsame⟩ := h
  exact ⟨words',reads_compress_side side hreads,hsame⟩

/-- A change of one row that answers a change of its content. -/
theorem Refines.modify (h : Refines G P posts contents) {postId : ℤ} {f : Stored → Stored}
    {g : Option String → Option String}
    (hfg : ∀ stored words, Holds G P stored words → Holds G P (f stored) (g words)) :
    Refines G P (setWords posts postId f)
      (Function.update contents postId ((contents postId).map g)) := by
  constructor
  · intro postId'
    rw [setWords,Table.get_modify,Function.update_apply]
    split
    · rw [Option.map_eq_none_iff,Option.map_eq_none_iff,h.absent postId]
    · exact h.absent postId'
  · intro postId' post words hpost hwords
    rw [setWords,Table.get_modify] at hpost
    rw [Function.update_apply] at hwords
    split at hpost
    · rename_i hid
      rw [if_pos hid] at hwords
      obtain ⟨post,hget,rfl⟩ := Option.map_eq_some_iff.mp hpost
      obtain ⟨words,hcontents,rfl⟩ := Option.map_eq_some_iff.mp hwords
      exact hfg _ _ (h.holds hget hcontents)
    · rename_i hid
      rw [if_neg hid] at hwords
      exact h.holds hpost hwords

theorem Refines.create (h : Refines G P posts contents) {side : Side} {postId : ℤ}
    (hwords : ∀ text ∈ words, looksNumeric text = false ∧ (P.loads text).isSome) :
    Refines G P (step G P posts (.create side postId words,true))
      (contents.step (.create side postId words,true)) := by
  simp only [step,Contents.step]
  cases hinsert : posts.insert ⟨postId,(words.map (side.enc G)).getD .null⟩ with
  | none =>
    have hpresent : contents postId ≠ none :=
      fun hnone => Table.insert_eq_none.mp hinsert ((h.absent postId).mpr hnone)
    rw [Option.getD_none,if_neg hpresent]
    exact h
  | some posts' =>
    have hnone : contents postId = none :=
      (h.absent postId).mp (Table.insert_get_ne_none hinsert)
    rw [Option.getD_some,if_pos hnone]
    constructor
    · intro postId'
      rw [Table.get_insert hinsert,Function.update_apply]
      split
      · simp
      · exact h.absent postId'
    · intro postId' post words' hpost hwords'
      rw [Table.get_insert hinsert] at hpost
      rw [Function.update_apply] at hwords'
      split at hpost
      · rename_i hid
        rw [if_pos hid] at hwords'
        cases hpost
        cases hwords'
        cases words with
        | none => exact holds_null
        | some text => exact holds_enc side (hwords text rfl).1 (hwords text rfl).2
      · rename_i hid
        rw [if_neg hid] at hwords'
        exact h.holds hpost hwords'

theorem get_deleteWhere_id (posts : Posts) (postId postId' : ℤ) :
    (posts.deleteWhere (fun post => post.id = postId)).get postId' =
      if postId' = postId then none else posts.get postId' := by
  rw [Table.get_deleteWhere]
  cases hpost : posts.get postId' with
  | none => simp
  | some post =>
    have hid : post.id = postId' := (Table.get_eq_some.mp hpost).2
    simp [Option.filter,hid]

theorem Refines.delete (h : Refines G P posts contents) (postId : ℤ) :
    Refines G P (posts.deleteWhere (fun post => post.id = postId))
      (Function.update contents postId none) := by
  have hget := get_deleteWhere_id posts postId
  constructor
  · intro postId'
    rw [hget,Function.update_apply]
    split
    · simp
    · exact h.absent postId'
  · intro postId' post words' hpost hwords'
    rw [hget] at hpost
    rw [Function.update_apply] at hwords'
    split at hpost
    · cases hpost
    · rename_i hid
      rw [if_neg hid] at hwords'
      exact h.holds hpost hwords'

/-- One command. -/
theorem refines_step (h : Refines G P posts contents) {cmd : Command × Bool} (hcmd : Writable P cmd) :
    Refines G P (step G P posts cmd) (contents.step cmd) := by
  obtain ⟨cmd,commits⟩ := cmd
  cases commits with
  | false => exact h
  | true =>
  cases cmd with
  | create side postId words => exact h.create hcmd
  | assign side postId text =>
    obtain ⟨hnumeric,hjson⟩ := hcmd text rfl
    exact h.modify (fun stored words hheld => holds_assign side hheld hnumeric hjson)
  | compress side postId =>
    have hmodify : Refines G P (setWords posts postId (compress G side))
        (Function.update contents postId ((contents postId).map id)) :=
      h.modify (fun stored words hheld => holds_compress side hheld)
    rw [Option.map_id,id,Function.update_eq_self] at hmodify
    exact hmodify
  | delete postId => exact h.delete postId

/-- A run. -/
theorem refines_run (h : Refines G P posts contents) {cmds : List (Command × Bool)}
    (hcmds : ∀ cmd ∈ cmds, Writable P cmd) :
    Refines G P (run (step G P) posts cmds) (run Contents.step contents cmds) := by
  induction cmds generalizing posts contents with
  | nil => exact h
  | cons cmd cmds ih =>
    rw [run_cons,run_cons]
    exact ih (refines_step h (hcmds cmd (by simp))) (fun cmd hcmd => hcmds cmd (by simp [hcmd]))

/-- What the readers read of a table. -/
def contentsOf (G : Gzip) (posts : Posts) : Contents :=
  fun postId => (posts.get postId).map (fun post => (resultProcessor G post.words).join)

/-- What they make of every row of a table. -/
def readings (G : Gzip) (posts : Posts) :
    ℤ → Option (Option (Option String) × Option (Option String)) :=
  fun postId => (posts.get postId).map (fun post => reading G post.words)

/-- Both readers read the same JSON text, or none, from every row. -/
def Readable (G : Gzip) (P : Python V) (posts : Posts) : Prop :=
  ∀ post ∈ posts.rows, ∃ words, Reads G post.words words ∧ (P.value words).isSome

theorem refines_contentsOf (h : Readable G P posts) : Refines G P posts (contentsOf G posts) := by
  constructor
  · intro postId
    rw [contentsOf,Option.map_eq_none_iff]
  · intro postId post words hpost hwords
    obtain ⟨words',hreads,hvalue⟩ := h post (Table.get_eq_some.mp hpost).1
    rw [contentsOf,hpost,Option.map_some,hreads.1,Option.join_some,Option.some.injEq] at hwords
    subst hwords
    exact ⟨words',hreads,hvalue,.inl rfl⟩

/-- No reader sees how the column is stored: over every run of both writers and of compressions, from
rows in any of the forms, each of them read or written in either language, a post's text is the one
that was last written, or one of a value equal to it. -/
theorem refines_contents (h : Readable G P posts) {cmds : List (Command × Bool)}
    (hcmds : ∀ cmd ∈ cmds, Writable P cmd) :
    Refines G P (run (step G P) posts cmds) (run Contents.step (contentsOf G posts) cmds) :=
  refines_run (refines_contentsOf h) hcmds

/-- What is read after an assignment depends on what was read before it alone. -/
theorem reading_assign {stored' : Stored} (h : reading G stored = reading G stored') (side : Side)
    (text : String) : reading G (assign G P side text stored) =
      reading G (assign G P side text stored') := by
  cases side with
  | rust => rfl
  | python =>
    have hpython : resultProcessor G stored = resultProcessor G stored' := congrArg Prod.fst h
    simp only [assign,assignPython,hpython]
    split
    · exact h
    · split
      · exact h
      · rfl

section Readings
variable {posts' : Posts}

theorem readings_setWords (h : readings G posts = readings G posts') (postId : ℤ)
    {f : Stored → Stored}
    (hf : ∀ stored stored', reading G stored = reading G stored' →
      reading G (f stored) = reading G (f stored')) :
    readings G (setWords posts postId f) = readings G (setWords posts' postId f) := by
  funext postId'
  have hrow := congrFun h postId'
  simp only [readings,setWords,Table.get_modify] at hrow ⊢
  split
  · rename_i hid
    subst hid
    cases hpost : posts.get postId' with
    | none =>
      rw [hpost,Option.map_none,eq_comm,Option.map_eq_none_iff] at hrow
      rw [hrow]
    | some post =>
      rw [hpost,Option.map_some,eq_comm,Option.map_eq_some_iff] at hrow
      obtain ⟨post',hpost',hsame⟩ := hrow
      rw [hpost']
      exact congrArg some (hf _ _ hsame.symm)
  · exact hrow

theorem readings_compress (posts : Posts) (side : Side) (postId : ℤ) (commits : Bool) :
    readings G (step G P posts (.compress side postId,commits)) = readings G posts := by
  cases commits with
  | false => rfl
  | true =>
    funext postId'
    simp only [readings,step,setWords,Table.get_modify]
    split
    · rename_i hid
      subst hid
      cases posts.get postId' with
      | none => rfl
      | some post => exact congrArg some (reading_compress side post.words)
    · rfl

theorem readings_insert (h : readings G posts = readings G posts') (post : Post) :
    readings G ((posts.insert post).getD posts) = readings G ((posts'.insert post).getD posts') := by
  have habsent : posts.get post.id = none ↔ posts'.get post.id = none := by
    have hrow := congrFun h post.id
    simp only [readings] at hrow
    rw [← Option.map_eq_none_iff (f := fun post : Post => reading G post.words),hrow,
      Option.map_eq_none_iff]
  cases hinsert : posts.insert post with
  | none =>
    have hpresent := mt habsent.mpr (Table.insert_eq_none.mp hinsert)
    rw [Table.insert_eq_none.mpr hpresent]
    exact h
  | some inserted =>
    have hnone := habsent.mp (Table.insert_get_ne_none hinsert)
    cases hinsert' : posts'.insert post with
    | none => exact absurd hnone (Table.insert_eq_none.mp hinsert')
    | some inserted' =>
      funext postId
      simp only [readings,Option.getD_some,Table.get_insert hinsert,Table.get_insert hinsert']
      split
      · rfl
      · exact congrFun h postId

theorem readings_deleteWhere (h : readings G posts = readings G posts') (postId : ℤ) :
    readings G (posts.deleteWhere (fun post => post.id = postId)) =
      readings G (posts'.deleteWhere (fun post => post.id = postId)) := by
  have hdeleted : ∀ posts : Posts, readings G (posts.deleteWhere (fun post => post.id = postId)) =
      Function.update (readings G posts) postId none := by
    intro posts
    funext postId'
    rw [Function.update_apply,readings,readings,get_deleteWhere_id]
    split <;> rfl
  rw [hdeleted,hdeleted,h]

/-- What is read after a command depends on what was read before it alone. -/
theorem readings_step (h : readings G posts = readings G posts') (cmd : Command × Bool) :
    readings G (step G P posts cmd) = readings G (step G P posts' cmd) := by
  obtain ⟨cmd,commits⟩ := cmd
  cases commits with
  | false => exact h
  | true =>
  cases cmd with
  | create side postId words => exact readings_insert h _
  | assign side postId text =>
    exact readings_setWords h postId (fun _ _ hsame => reading_assign hsame side text)
  | compress side postId =>
    rw [readings_compress,readings_compress]
    exact h
  | delete postId => exact readings_deleteWhere h postId

theorem readings_run (h : readings G posts = readings G posts') (cmds : List (Command × Bool)) :
    readings G (run (step G P) posts cmds) = readings G (run (step G P) posts' cmds) := by
  induction cmds generalizing posts posts' with
  | nil => exact h
  | cons cmd cmds ih => exact ih (readings_step h cmd)

end Readings

/-- A compressor that only puts the magic bytes in front. -/
def storing : Gzip :=
  let compress : ByteArray → ByteArray := fun bytes => ⟨(gzipMagic ++ bytes.data.toList).toArray⟩
  let decompress : ByteArray → Option ByteArray :=
    fun bytes => some ⟨(bytes.data.toList.drop 2).toArray⟩
  have hmagic : ∀ bytes, startsWithMagic (compress bytes) := by
    intro bytes
    simp [startsWithMagic,compress,gzipMagic,List.isPrefixOf]
  have hdecompress : ∀ bytes, decompress (compress bytes) = some bytes := by
    intro bytes
    simp [decompress,compress,gzipMagic]
  ⟨compress,compress,decompress,decompress,hmagic,hmagic,
    hdecompress,hdecompress,hdecompress,hdecompress⟩

/-- Values that are equal if their texts are. -/
def byText : Python String := ⟨some,fun x y => x = y,rfl⟩

/-- A list is no number. -/
theorem looksNumeric_list (items : List Char) :
    looksNumeric (String.ofList ('['::(items ++ [']']))) = false := by
  have hopen : isSqlSpace '[' = false := by decide
  have hclose : isSqlSpace ']' = false := by decide
  have htrimmed : trimmed isSqlSpace ('['::(items ++ [']'])) = '['::(items ++ [']']) := by
    simp [trimmed,hopen,hclose]
  simp [looksNumeric,htrimmed,unsigned]

/-- White space, of a length that compresses. -/
@[irreducible] def longSpace : List Char := List.replicate 1100 ' '

/-- A list that is long enough to be compressed. -/
def longText : String := String.ofList ('['::(longSpace ++ [']']))

/-- Posts from before the compression. -/
def legacyPosts : Posts := ⟨[⟨1,.text "[]"⟩,⟨2,.text longText⟩],by decide⟩

theorem readable_legacyPosts : Readable storing byText legacyPosts := by
  intro post hpost
  rcases List.mem_cons.mp hpost with rfl | hpost
  · exact ⟨some "[]",reads_text "[]",rfl⟩
  · obtain rfl := List.mem_singleton.mp hpost
    exact ⟨some longText,reads_text longText,rfl⟩

/-- A long text is written, and another one compressed by each of the writers. -/
def legacyCommands : List (Command × Bool) :=
  [(.assign .rust 1 longText,true),(.compress .python 2,true),(.compress .rust 2,true)]

theorem refines_contents_legacy : Refines storing byText
    (run (step storing byText) legacyPosts legacyCommands)
    (run Contents.step (contentsOf storing legacyPosts) legacyCommands) := by
  refine refines_contents readable_legacyPosts ?_
  intro cmd hcmd text htext
  rcases List.mem_cons.mp hcmd with rfl | hcmd
  · obtain rfl := Option.some.inj htext
    exact ⟨looksNumeric_list longSpace,rfl⟩
  · rcases List.mem_cons.mp hcmd with rfl | hcmd
    · cases htext
    · rw [List.mem_singleton.mp hcmd] at htext
      cases htext

end

end Podly.WordTimestamps
