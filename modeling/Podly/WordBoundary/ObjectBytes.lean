import Podly.WordBoundary.ObjectScan

/-! The sidecar's scanner of objects, which walks the bytes of a text and counts in 32 bits: on which
texts it finds the objects that the other scanner finds. -/
namespace Podly.WordBoundary
open Brackets (Marks Matched Outermost)

/-- A build that panics where arithmetic overflows, or one that lets it wrap. -/
inductive Build
  | checked
  | wrapping

/-- `depth += 1` on an `i32`. -/
def Build.increment (build : Build) (depth : ℤ) : Option ℤ :=
  if depth + 1 < 2^31 then some (depth + 1)
  else
    match build with
    | .checked => none
    | .wrapping => some (depth + 1 - 2^32)

/-- `text.as_bytes()`. -/
def bytes (text : List Char) : List UInt8 := text.flatMap String.utf8EncodeChar

/-- The text behind a number of bytes, if a character ends there. -/
def dropBytes : ℕ → List Char → Option (List Char)
  | 0, xs => some xs
  | _+1, [] => none
  | n+1, c::xs => if c.utf8Size ≤ n + 1 then dropBytes (n + 1 - c.utf8Size) xs else none

/-- The first bytes of a text, if a character ends behind them. -/
def takeBytes : ℕ → List Char → Option (List Char)
  | 0, _ => some []
  | _+1, [] => none
  | n+1, c::xs =>
    if c.utf8Size ≤ n + 1 then (takeBytes (n + 1 - c.utf8Size) xs).map (c::·) else none

/-- `text.get(start..=idx)`. -/
def getBytes (text : List Char) (start idx : ℕ) : Option (List Char) :=
  if idx + 1 < start then none else (dropBytes start text).bind (takeBytes (idx + 1 - start))

structure ByteScan where
  depth : ℤ
  startIdx : Option ℕ
  inString : Bool
  escaped : Bool
  objects : List (List Char)

/-- One byte of `wb_extract_json_objects`, if the build does not panic. -/
def scanByte (build : Build) (text : List Char) (s : ByteScan) (byteAt : UInt8 × ℕ) :
    Option ByteScan :=
  if s.inString then
    if s.escaped then some { s with escaped := false }
    else if byteAt.1 = '\\'.toUInt8 then some { s with escaped := true }
    else if byteAt.1 = '"'.toUInt8 then some { s with inString := false }
    else some s
  else if byteAt.1 = '"'.toUInt8 then some { s with inString := true }
  else if byteAt.1 = '\x7b'.toUInt8 then
    (build.increment s.depth).map (fun depth =>
      { s with startIdx := if s.depth = 0 then some byteAt.2 else s.startIdx, depth })
  else if byteAt.1 = '\x7d'.toUInt8 ∧ 0 < s.depth then
    if s.depth - 1 = 0 then
      match s.startIdx with
      | some start => some { s with
          depth := 0
          startIdx := none
          objects := s.objects ++ (getBytes text start byteAt.2).toList }
      | none => some { s with depth := 0 }
    else some { s with depth := s.depth - 1 }
  else some s

/-- `wb_extract_json_objects`. -/
def wbExtractJsonObjects (build : Build) (text : List Char) : Option (List (List Char)) :=
  ((bytes text).zipIdx.foldlM (scanByte build text) ⟨0,none,false,false,[]⟩).map ByteScan.objects

/-! Bytes of a text -/

theorem bytes_append (xs ys : List Char) : bytes (xs ++ ys) = bytes xs ++ bytes ys :=
  List.flatMap_append

theorem bytes_singleton (c : Char) : bytes [c] = String.utf8EncodeChar c := List.flatMap_singleton _ _

theorem length_bytes_cons (c : Char) (xs : List Char) :
    (bytes (c::xs)).length = c.utf8Size + (bytes xs).length := by
  rw [bytes,List.flatMap_cons,List.length_append,String.length_utf8EncodeChar,bytes]

theorem dropBytes_append (xs ys : List Char) : dropBytes (bytes xs).length (xs ++ ys) = some ys := by
  induction xs with
  | nil => cases ys <;> rfl
  | cons c xs ih =>
    obtain ⟨n,hn⟩ := Nat.exists_eq_add_of_lt c.utf8Size_pos
    have hlength : (bytes (c::xs)).length = n + (bytes xs).length + 1 := by
      rw [length_bytes_cons]
      omega
    rw [hlength,List.cons_append,dropBytes,if_pos (by omega)]
    rw [show n + (bytes xs).length + 1 - c.utf8Size = (bytes xs).length by omega,ih]

theorem takeBytes_append (xs ys : List Char) : takeBytes (bytes xs).length (xs ++ ys) = some xs := by
  induction xs with
  | nil => cases ys <;> rfl
  | cons c xs ih =>
    obtain ⟨n,hn⟩ := Nat.exists_eq_add_of_lt c.utf8Size_pos
    have hlength : (bytes (c::xs)).length = n + (bytes xs).length + 1 := by
      rw [length_bytes_cons]
      omega
    rw [hlength,List.cons_append,takeBytes,if_pos (by omega)]
    rw [show n + (bytes xs).length + 1 - c.utf8Size = (bytes xs).length by omega,ih,Option.map_some]

theorem getBytes_append {before piece : List Char} {idx : ℕ}
    (hidx : idx + 1 = (bytes (before ++ piece)).length) (trailing : List Char) :
    getBytes (before ++ (piece ++ trailing)) (bytes before).length idx = some piece := by
  rw [bytes_append,List.length_append] at hidx
  rw [getBytes,if_neg (by omega),hidx,Nat.add_sub_cancel_left,dropBytes_append,Option.bind_some,
    takeBytes_append]

/-- Where characters end, bytes and characters cut the same piece out of a text. -/
theorem getBytes_eq_slice {text : List Char} {i k : ℕ} (hik : i ≤ k)
    (hend : (bytes (text.take (k + 1))).length = (bytes (text.take k)).length + 1) :
    getBytes text (bytes (text.take i)).length (bytes (text.take k)).length =
      some (slice text (i,k)) := by
  have htext : text.take i ++ (slice text (i,k) ++ (text.drop i).drop (k + 1 - i)) = text := by
    rw [slice,List.take_append_drop,List.take_append_drop]
  have htake : text.take i ++ slice text (i,k) = text.take (k + 1) := by
    rw [slice,← List.take_add,Nat.add_sub_cancel' (by omega)]
  have hidx : (bytes (text.take k)).length + 1 = (bytes (text.take i ++ slice text (i,k))).length := by
    rw [htake,hend]
  have hpiece := getBytes_append hidx ((text.drop i).drop (k + 1 - i))
  rwa [htext] at hpiece

theorem utf8EncodeChar_ascii {c : Char} (hc : c.toNat < 128) :
    String.utf8EncodeChar c = [c.toUInt8] := by
  have hval : c.val.toNat ≤ 127 := Nat.le_of_lt_succ hc
  rw [String.utf8EncodeChar,if_pos hval]
  rfl

/-- A character that is not of ASCII has bytes that are not. -/
theorem utf8EncodeChar_high {c : Char} (hc : 128 ≤ c.toNat) :
    ∃ b bs, String.utf8EncodeChar c = b::bs ∧ ∀ d ∈ b::bs, 128 ≤ d.toNat := by
  have hval : ¬c.val.toNat ≤ 127 := by
    have : c.toNat = c.val.toNat := rfl
    omega
  have hhigh : ∀ n, 128 ≤ n → n < 256 → 128 ≤ (UInt8.ofNat n).toNat := by
    intro n hle hlt
    rwa [UInt8.toNat_ofNat_of_lt' hlt]
  rw [String.utf8EncodeChar,if_neg hval]
  split_ifs
  all_goals
    refine ⟨_,_,rfl,?_⟩
    simp only [List.forall_mem_cons,List.not_mem_nil,false_imp_iff,implies_true,and_true]
  · exact ⟨hhigh _ (by omega) (by omega),hhigh _ (by omega) (by omega)⟩
  · exact ⟨hhigh _ (by omega) (by omega),hhigh _ (by omega) (by omega),
      hhigh _ (by omega) (by omega)⟩
  · exact ⟨hhigh _ (by omega) (by omega),hhigh _ (by omega) (by omega),
      hhigh _ (by omega) (by omega),hhigh _ (by omega) (by omega)⟩

/-! The scan of bytes goes with that of characters -/

/-- The state of the scan of bytes by that of the scan of characters. -/
def byteScanOf (text : List Char) (s : Scan) : ByteScan :=
  ⟨s.depth,s.startIdx.map (fun i => (bytes (text.take i)).length),s.inString,s.escaped,s.objects⟩

section
variable {build : Build} {text : List Char} {s : Scan} {c : Char} {k : ℕ}

/-- A byte that is not of ASCII only ends an escape. -/
theorem scanByte_high {b : UInt8} (hb : 128 ≤ b.toNat) (s : ByteScan) (idx : ℕ) :
    scanByte build text s (b,idx) =
      some (if s.inString ∧ s.escaped then { s with escaped := false } else s) := by
  have hne : ∀ d : UInt8, d.toNat < 128 → b ≠ d := by
    rintro d hd rfl
    omega
  have hescape : b ≠ '\\'.toUInt8 := hne _ (by decide)
  have hquote : b ≠ '"'.toUInt8 := hne _ (by decide)
  have hopening : b ≠ '\x7b'.toUInt8 := hne _ (by decide)
  have hclosing : b ≠ '\x7d'.toUInt8 := hne _ (by decide)
  unfold scanByte
  cases hstring : s.inString <;> cases hescaped : s.escaped <;>
    simp [hescape,hquote,hopening,hclosing]

theorem foldlM_high {bs : List UInt8} (hbs : ∀ b ∈ bs, 128 ≤ b.toNat) {s : ByteScan} (idx : ℕ)
    (hs : ¬(s.inString ∧ s.escaped)) :
    (bs.zipIdx idx).foldlM (scanByte build text) s = some s := by
  induction bs generalizing idx with
  | nil => rfl
  | cons b bs ih =>
    obtain ⟨hb,hbs⟩ := List.forall_mem_cons.mp hbs
    rw [List.zipIdx_cons,List.foldlM_cons,scanByte_high hb,if_neg hs]
    exact ih hbs (idx + 1)

theorem scanChar_high (hc : 128 ≤ c.toNat) (s : Scan) : scanChar text s (c,k) =
    if s.inString ∧ s.escaped then { s with escaped := false } else s := by
  have hne : ∀ d : Char, d.toNat < 128 → c ≠ d := by
    rintro d hd rfl
    omega
  have hescape : c ≠ '\\' := hne _ (by decide)
  have hquote : c ≠ '"' := hne _ (by decide)
  have hopening : c ≠ '\x7b' := hne _ (by decide)
  have hclosing : c ≠ '\x7d' := hne _ (by decide)
  unfold scanChar
  cases hstring : s.inString <;> cases hescaped : s.escaped <;>
    simp [hescape,hquote,hopening,hclosing]

theorem toUInt8_eq_iff {d : Char} (hc : c.toNat < 128) (hd : d.toNat < 128) :
    c.toUInt8 = d.toUInt8 ↔ c = d := by
  constructor
  · intro h
    have hnat : c.toNat % 256 = d.toNat % 256 := congrArg UInt8.toNat h
    rw [Nat.mod_eq_of_lt (by omega),Nat.mod_eq_of_lt (by omega)] at hnat
    exact Char.toNat_inj.mp hnat
  · rintro rfl
    rfl

/-- The byte of an ASCII character, while the depth fits. -/
theorem scanByte_ascii (hc : c.toNat < 128) (hk : text[k]? = some c)
    (hstart : ∀ i ∈ s.startIdx, i ≤ k) (hdepth : (scanChar text s (c,k)).depth < 2^31) :
    scanByte build text (byteScanOf text s) (c.toUInt8,(bytes (text.take k)).length) =
      some (byteScanOf text (scanChar text s (c,k))) := by
  have hescape := toUInt8_eq_iff (d := '\\') hc (by decide)
  have hquote := toUInt8_eq_iff (d := '"') hc (by decide)
  have hopening := toUInt8_eq_iff (d := '\x7b') hc (by decide)
  have hclosing := toUInt8_eq_iff (d := '\x7d') hc (by decide)
  have hend : (bytes (text.take (k + 1))).length = (bytes (text.take k)).length + 1 := by
    rw [List.take_add_one,hk,Option.toList_some,bytes_append,List.length_append,
      bytes_singleton,utf8EncodeChar_ascii hc,List.length_singleton]
  obtain ⟨depth,startIdx,inString,escaped,objects⟩ := s
  unfold scanByte
  simp only [hescape,hquote,hopening,hclosing]
  cases inString with
  | true =>
    cases escaped with
    | true => rfl
    | false =>
      by_cases hc1 : c = '\\'
      · simp [scanChar,byteScanOf,hc1]
      · by_cases hc2 : c = '"' <;> simp [scanChar,byteScanOf,hc1,hc2]
  | false =>
    by_cases hc1 : c = '"'
    · simp [scanChar,byteScanOf,hc1]
    by_cases hc2 : c = '\x7b'
    · subst hc2
      have hfits : (depth : ℤ) + 1 < 2^31 := by
        have hsucc : depth + 1 < 2^31 := by simpa [scanChar] using hdepth
        exact_mod_cast hsucc
      have hincrement : build.increment depth = some ((depth : ℤ) + 1) := if_pos hfits
      by_cases hzero : depth = 0
      · subst hzero
        have hone : build.increment 0 = some 1 := hincrement
        simp [scanChar,byteScanOf,hone]
      · simp [scanChar,byteScanOf,hincrement,hzero]
    by_cases hc3 : c = '\x7d'
    · subst hc3
      rcases depth with _ | _ | depth
      · simp [scanChar,byteScanOf]
      · cases startIdx with
        | none => simp [scanChar,byteScanOf]
        | some start =>
          have hslice := getBytes_eq_slice (hstart start rfl) hend
          simp [scanChar,byteScanOf,hslice,slice]
      · have hpos : (0 : ℤ) < depth + 1 + 1 := by omega
        have hopen : (depth : ℤ) + 1 ≠ 0 := by omega
        simp [scanChar,byteScanOf,hpos,hopen]
    · simp [scanChar,byteScanOf,hc1,hc2,hc3]

/-- The bytes of a character, while the depth fits. -/
theorem foldlM_char (hk : text[k]? = some c) (hstart : ∀ i ∈ s.startIdx, i ≤ k)
    (hdepth : (scanChar text s (c,k)).depth < 2^31) :
    ((String.utf8EncodeChar c).zipIdx (bytes (text.take k)).length).foldlM (scanByte build text)
      (byteScanOf text s) = some (byteScanOf text (scanChar text s (c,k))) := by
  rcases Nat.lt_or_ge c.toNat 128 with hc | hc
  · rw [utf8EncodeChar_ascii hc]
    have hbyte : scanByte build text (byteScanOf text s) (c.toUInt8,(bytes (text.take k)).length) =
        some (byteScanOf text (scanChar text s (c,k))) := scanByte_ascii hc hk hstart hdepth
    simpa using hbyte
  · obtain ⟨b,bs,hbytes,hhigh⟩ := utf8EncodeChar_high hc
    obtain ⟨hb,hbs⟩ := List.forall_mem_cons.mp hhigh
    rw [hbytes,List.zipIdx_cons,List.foldlM_cons,scanByte_high hb,scanChar_high hc]
    by_cases hescaped : s.inString ∧ s.escaped
    · have hescaped' : (byteScanOf text s).inString ∧ (byteScanOf text s).escaped := hescaped
      rw [if_pos hescaped,if_pos hescaped']
      exact foldlM_high hbs _ (fun h => Bool.false_ne_true h.2)
    · have hescaped' : ¬((byteScanOf text s).inString ∧ (byteScanOf text s).escaped) := hescaped
      rw [if_neg hescaped,if_neg hescaped']
      exact foldlM_high hbs _ hescaped

end

/-! Runs -/

section
variable {build : Build} {text : List Char} {k : ℕ}

/-- Up to a position, no more braces are open than the counter can hold. -/
def ShallowTo (text : List Char) (k : ℕ) : Prop :=
  ∀ i ≤ k, (braces.pointAt text i).depth < 2^31

theorem scanTo_succ {c : Char} (hk : text[k]? = some c) :
    scanTo text (k + 1) = scanChar text (scanTo text k) (c,k) := by
  rw [scanTo_eq,scanTo_eq,scanChar_scanOf,Brackets.scanTo_succ hk]

theorem scanTo_depth (hk : k ≤ text.length) :
    (scanTo text k).depth = (braces.pointAt text k).depth := by
  rw [scanTo_eq,← (Brackets.tracks_scanTo hk).point]
  rfl

theorem scanTo_start (hk : k ≤ text.length) : ∀ i ∈ (scanTo text k).startIdx, i ≤ k := by
  intro i hi
  rw [scanTo_eq] at hi
  exact Nat.le_of_lt ((Brackets.tracks_scanTo hk).start_lt hi)

theorem foldlM_of_shallow (hk : k ≤ text.length) (hshallow : ShallowTo text k) :
    (bytes (text.take k)).zipIdx.foldlM (scanByte build text) ⟨0,none,false,false,[]⟩ =
      some (byteScanOf text (scanTo text k)) := by
  induction k with
  | zero => rfl
  | succ k ih =>
    have hc : text[k]? = some text[k] := List.getElem?_eq_getElem hk
    have hbefore := ih (by omega) (fun i hi => hshallow i (by omega))
    rw [List.take_add_one,hc,Option.toList_some,bytes_append,bytes_singleton,List.zipIdx_append,
      List.foldlM_append,hbefore,Nat.zero_add,scanTo_succ hc]
    refine foldlM_char hc (scanTo_start (by omega)) ?_
    rw [← scanTo_succ hc,scanTo_depth hk]
    exact hshallow (k + 1) (Nat.le_refl _)

/-- The counter can hold the braces that are open, wherever in the text. -/
def Shallow (text : List Char) : Prop := ∀ k, (braces.pointAt text k).depth < 2^31

theorem wbExtractJsonObjects_of_shallow (h : Shallow text) (build : Build) :
    wbExtractJsonObjects build text = some (extractJsonObjects text) := by
  have htake : bytes text = bytes (text.take text.length) := by rw [List.take_length]
  rw [wbExtractJsonObjects,htake,foldlM_of_shallow (Nat.le_refl _) (fun i _ => h i),
    Option.map_some,← scanTo_length]
  rfl

/-- A text that is not shallow has a brace that opens where the counter is at its end. -/
theorem exists_overflow (h : ¬Shallow text) : ∃ k, text[k]? = some '\x7b' ∧ ShallowTo text k ∧
    (braces.pointAt text k).place = .outside ∧ 2^31 ≤ (braces.pointAt text k).depth + 1 := by
  classical
  have hex : ∃ k, ¬(braces.pointAt text k).depth < 2^31 := by simpa [Shallow] using h
  obtain ⟨k,hk,hleast⟩ : ∃ k, ¬(braces.pointAt text k).depth < 2^31 ∧
      ∀ i < k, (braces.pointAt text i).depth < 2^31 :=
    ⟨Nat.find hex,Nat.find_spec hex,fun i hi => not_not.mp (Nat.find_min hex hi)⟩
  cases k with
  | zero => simp at hk
  | succ k =>
    have hbefore := hleast k (Nat.lt_succ_self k)
    cases hc : text[k]? with
    | none =>
      -- behind the end of the text nothing changes
      have hlength : text.length ≤ k := List.getElem?_eq_none_iff.mp hc
      rw [Marks.pointAt,List.take_of_length_le (by omega)] at hk
      rw [Marks.pointAt,List.take_of_length_le hlength] at hbefore
      exact absurd hbefore hk
    | some c =>
      rw [Brackets.pointAt_succ hc] at hk
      by_cases hopening : (braces.pointAt text k).place = .outside ∧ c = '\x7b'
      · obtain ⟨hplace,rfl⟩ := hopening
        refine ⟨k,hc,fun i hi => hleast i (by omega),hplace,?_⟩
        have hnext := Brackets.next_opening (M := braces) hplace
        rw [show braces.opening = '\x7b' from rfl] at hnext
        rw [hnext] at hk
        exact Nat.le_of_not_lt hk
      · refine absurd ?_ hk
        by_cases hclosing : (braces.pointAt text k).place = .outside ∧ c = '\x7d'
        · obtain ⟨hplace,rfl⟩ := hclosing
          have hnext := Brackets.next_closing (M := braces) hplace
          rw [show braces.closing = '\x7d' from rfl] at hnext
          rw [hnext]
          exact Nat.lt_of_le_of_lt (Nat.sub_le _ _) hbefore
        · rwa [Brackets.next_depth hopening hclosing]

/-- There a checked build panics. -/
theorem wbExtractJsonObjects_checked (h : ¬Shallow text) :
    wbExtractJsonObjects .checked text = none := by
  obtain ⟨k,hc,hshallow,hplace,hdepth⟩ := exists_overflow h
  have hk : k < text.length := by
    by_contra hle
    rw [List.getElem?_eq_none (by omega)] at hc
    cases hc
  have htext : bytes text =
      bytes (text.take k) ++ ('\x7b'.toUInt8::bytes (text.drop (k + 1))) := by
    conv_lhs => rw [← List.take_append_drop (k + 1) text]
    rw [List.take_add_one,hc,bytes_append,Option.toList_some,bytes_append,bytes_singleton,
      utf8EncodeChar_ascii (by decide),List.append_assoc,List.singleton_append]
  have hstring : (byteScanOf text (scanTo text k)).inString = false := by
    rw [scanTo_eq]
    simp [byteScanOf,scanOf,(Brackets.tracks_scanTo (Nat.le_of_lt hk)).point,hplace]
  have hpanics : scanByte .checked text (byteScanOf text (scanTo text k))
      ('\x7b'.toUInt8,(bytes (text.take k)).length) = none := by
    have hfull : ¬((scanTo text k).depth : ℤ) + 1 < 2^31 := by
      rw [scanTo_depth (Nat.le_of_lt hk)]
      exact_mod_cast Nat.not_lt.mpr hdepth
    have hincrement : Build.checked.increment (byteScanOf text (scanTo text k)).depth = none :=
      if_neg hfull
    have hquote : '\x7b'.toUInt8 ≠ '"'.toUInt8 := by decide
    simp [scanByte,hstring,hquote,hincrement]
  rw [wbExtractJsonObjects,htext,List.zipIdx_append,List.foldlM_append,
    foldlM_of_shallow (Nat.le_of_lt hk) hshallow,Nat.zero_add,List.zipIdx_cons]
  change ((scanByte .checked text _ _).bind _).map _ = none
  rw [hpanics]
  rfl

end

end Podly.WordBoundary
