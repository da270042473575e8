import Podly.WordBoundary.ObjectBytes

/-! On which texts the two scanners find exactly the outermost objects, both the same: on those with
fewer than 2 ^ 31 open braces. -/
namespace Podly.WordBoundary
open Brackets (Matched Outermost)

/-- The objects are the texts between the outermost pairs of braces, in order and apart, the sidecar
finds the same ones, and an object of JSON between texts without quotes and braces is one of them. -/
structure ExtractsExactly (text : List Char) : Prop where
  outermost : ∃ spans : List (ℕ × ℕ), extractJsonObjects text = spans.map (slice text) ∧
    spans.Pairwise (fun span span' => span.2 < span'.1) ∧
    (∀ i j, (i,j) ∈ spans ↔ Outermost braces text i j) ∧
    ∀ i j, (i,j) ∈ spans → ∀ i' j', Matched braces text i' j' → i' ≤ i → j ≤ j' → i' = i ∧ j' = j
  sidecar : ∀ build, wbExtractJsonObjects build text = some (extractJsonObjects text)
  embedded : ∀ before object trailing, text = before ++ (object ++ trailing) → IsPlain before →
    IsPlain trailing → IsObjectText object → object ∈ extractJsonObjects text

theorem extractsExactly_iff (text : List Char) : ExtractsExactly text ↔ Shallow text := by
  constructor
  · intro h
    by_contra hdeep
    have hpanics := wbExtractJsonObjects_checked hdeep
    rw [h.sidecar .checked] at hpanics
    cases hpanics
  · intro h
    refine ⟨?_,wbExtractJsonObjects_of_shallow h,?_⟩
    · refine ⟨braces.spans text,extractJsonObjects_eq text,Brackets.spans_pairwise braces text,
        fun i j => Brackets.mem_spans,?_⟩
      intro i j hij i' j' hpair hi hj
      exact (Brackets.mem_spans.mp hij).maximal hpair hi hj
    · rintro before object trailing rfl hbefore - hobject
      exact mem_extractJsonObjects hbefore hobject trailing

namespace Overflow

/-- As many objects in each other. -/
def nested (n : ℕ) : List Char := List.replicate n '\x7b' ++ List.replicate n '\x7d'

theorem behind_opened (n : ℕ) : braces.behind (List.replicate n '\x7b') = ⟨.outside,n⟩ := by
  induction n with
  | zero => rfl
  | succ n ih =>
    rw [List.replicate_succ',Brackets.behind_concat,ih]
    rfl

theorem behind_closed (n m : ℕ) :
    braces.behind (List.replicate n '\x7b' ++ List.replicate m '\x7d') = ⟨.outside,n - m⟩ := by
  induction m with
  | zero => rw [List.replicate_zero,List.append_nil,behind_opened,Nat.sub_zero]
  | succ m ih =>
    rw [List.replicate_succ',← List.append_assoc,Brackets.behind_concat,ih,← Nat.sub_sub]
    rfl

theorem pointAt_nested (n k : ℕ) :
    braces.pointAt (nested n) k = ⟨.outside,min k n - min (k - n) n⟩ := by
  rw [Brackets.Marks.pointAt,nested,List.take_append,List.take_replicate,List.take_replicate,
    List.length_replicate,behind_closed]

theorem outermost_nested {n : ℕ} (hn : 0 < n) : Outermost braces (nested n) 0 (n + n - 1) := by
  refine ⟨⟨?_,?_,?_,?_,by omega,?_,?_⟩,?_⟩
  · rw [nested,List.getElem?_append_left (by simpa using hn),List.getElem?_replicate,if_pos hn]
    rfl
  · rw [pointAt_nested]
  · rw [nested,List.getElem?_append_right (by simp; omega),List.length_replicate,
      List.getElem?_replicate,if_pos (by omega)]
    rfl
  · rw [pointAt_nested]
  · intro k hk hle
    simp only [pointAt_nested]
    omega
  · simp only [pointAt_nested]
    omega
  · simp

theorem extractJsonObjects_nested {n : ℕ} (hn : 0 < n) : extractJsonObjects (nested n) ≠ [] := by
  rw [extractJsonObjects_eq]
  intro hnil
  have hmem := Brackets.mem_spans.mpr (outermost_nested hn)
  rw [List.map_eq_nil_iff.mp hnil] at hmem
  cases hmem

theorem bytes_replicate {c : Char} (hc : c.toNat < 128) (n : ℕ) :
    bytes (List.replicate n c) = List.replicate n c.toUInt8 := by
  induction n with
  | zero => rfl
  | succ n ih =>
    rw [List.replicate_succ,List.replicate_succ,← ih,bytes,List.flatMap_cons,
      utf8EncodeChar_ascii hc]
    rfl

section
variable {text : List Char} {depth : ℤ} {start : ℕ} {objects : List (List Char)}

/-- Within an object the counter counts up, as far as it can. -/
theorem foldlM_opened (hpos : 0 < depth) (n idx : ℕ) (hfits : depth + n < 2^31) :
    ((List.replicate n '\x7b'.toUInt8).zipIdx idx).foldlM (scanByte .wrapping text)
      ⟨depth,some start,false,false,objects⟩ =
        some ⟨depth + n,some start,false,false,objects⟩ := by
  induction n generalizing depth idx with
  | zero => simp
  | succ n ih =>
    rw [Nat.cast_succ] at hfits
    have hincrement : Build.wrapping.increment depth = some (depth + 1) := if_pos (by omega)
    have hquote : '\x7b'.toUInt8 ≠ '"'.toUInt8 := by decide
    have hbyte : scanByte .wrapping text ⟨depth,some start,false,false,objects⟩
        ('\x7b'.toUInt8,idx) = some ⟨depth + 1,some start,false,false,objects⟩ := by
      simp [scanByte,hquote,hincrement,ne_of_gt hpos]
    rw [List.replicate_succ,List.zipIdx_cons,List.foldlM_cons,hbyte]
    change List.foldlM _ _ _ = _
    rw [ih (by omega) (idx + 1) (by omega),Nat.cast_succ,add_assoc,add_comm (1 : ℤ)]

/-- Below zero the closing braces are passed over. -/
theorem foldlM_closed (hdepth : depth ≤ 0) (n idx : ℕ) {startIdx : Option ℕ} :
    ((List.replicate n '\x7d'.toUInt8).zipIdx idx).foldlM (scanByte .wrapping text)
      ⟨depth,startIdx,false,false,objects⟩ = some ⟨depth,startIdx,false,false,objects⟩ := by
  induction n generalizing idx with
  | zero => rfl
  | succ n ih =>
    have hquote : '\x7d'.toUInt8 ≠ '"'.toUInt8 := by decide
    have hopening : '\x7d'.toUInt8 ≠ '\x7b'.toUInt8 := by decide
    have hbyte : scanByte .wrapping text ⟨depth,startIdx,false,false,objects⟩
        ('\x7d'.toUInt8,idx) = some ⟨depth,startIdx,false,false,objects⟩ := by
      simp [scanByte,hquote,hopening,not_lt.mpr hdepth]
    rw [List.replicate_succ,List.zipIdx_cons,List.foldlM_cons,hbyte]
    exact ih (idx + 1)

end

theorem bytes_nested (n : ℕ) : bytes (nested (n + 2)) =
    '\x7b'.toUInt8::(List.replicate n '\x7b'.toUInt8 ++
      ('\x7b'.toUInt8::List.replicate (n + 2) '\x7d'.toUInt8)) := by
  rw [nested,bytes_append,bytes_replicate (by decide),bytes_replicate (by decide),
    List.replicate_succ,List.replicate_succ',List.cons_append,List.append_assoc,
    List.singleton_append]

/-- The counter is at its end when all objects but one are open, and wraps around. -/
theorem increment_last {n : ℕ} (hn : n + 2 = 2^31) :
    Build.wrapping.increment (1 + n) = some (-2^31) := by
  have hlast : (1 + n : ℤ) + 1 = 2^31 := by
    have hcast : ((n + 2 : ℕ) : ℤ) = 2^31 := by rw [hn]; norm_num
    rw [Nat.cast_add] at hcast
    rw [← hcast,Nat.cast_ofNat]
    ring
  rw [Build.increment,if_neg (by rw [hlast]; exact lt_irrefl _),hlast]
  norm_num

/-- Where the last brace leaves the counter below zero, the sidecar finds nothing. -/
theorem wbExtractJsonObjects_of_increment {n : ℕ} {depth : ℤ} (hfits : (1 : ℤ) + n < 2^31)
    (hlast : Build.wrapping.increment (1 + n) = some depth) (hdepth : depth ≤ 0) :
    wbExtractJsonObjects .wrapping (nested (n + 2)) = some [] := by
  have hquote : '\x7b'.toUInt8 ≠ '"'.toUInt8 := by decide
  have hfirst : scanByte .wrapping (nested (n + 2)) ⟨0,none,false,false,[]⟩ ('\x7b'.toUInt8,0) =
      some ⟨1,some 0,false,false,[]⟩ := by
    have hone : Build.wrapping.increment 0 = some 1 := if_pos (by norm_num)
    simp [scanByte,hquote,hone]
  have hwraps : ∀ idx, scanByte .wrapping (nested (n + 2)) ⟨1 + n,some 0,false,false,[]⟩
      ('\x7b'.toUInt8,idx) = some ⟨depth,some 0,false,false,[]⟩ := by
    intro idx
    have hopen : (1 + n : ℤ) ≠ 0 := by omega
    simp [scanByte,hquote,hlast,hopen]
  rw [wbExtractJsonObjects,bytes_nested,List.zipIdx_cons,List.foldlM_cons,hfirst,
    Option.bind_eq_bind,Option.bind_some,List.zipIdx_append,List.foldlM_append,
    foldlM_opened Int.one_pos _ _ hfits,Option.bind_eq_bind,Option.bind_some,List.zipIdx_cons,
    List.foldlM_cons,hwraps,Option.bind_eq_bind,Option.bind_some,foldlM_closed hdepth,
    Option.map_some]

theorem wbExtractJsonObjects_nested {n : ℕ} (hn : n + 2 = 2^31) :
    wbExtractJsonObjects .wrapping (nested (n + 2)) = some [] :=
  wbExtractJsonObjects_of_increment (by omega) (increment_last hn) (by norm_num)

theorem not_extractsExactly : ¬∀ text, ExtractsExactly text := by
  intro h
  have hn : 2^31 - 2 + 2 = 2^31 := Nat.sub_add_cancel (by norm_num)
  have hsame := (h (nested (2^31 - 2 + 2))).sidecar .wrapping
  rw [wbExtractJsonObjects_nested hn] at hsame
  exact extractJsonObjects_nested (Nat.succ_pos _) (Option.some.inj hsame).symm

end Overflow

end Podly.WordBoundary
