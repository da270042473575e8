import Mathlib.Data.List.Basic
import Mathlib.Data.String.Basic

/-! Strings with a separator character: what splitting gives, and the parts a separator lets one
read back. -/
namespace Strings
open String

/-- A split at one character, from the middle of a part: `l` is behind, `m` is read of the part,
`r` is to come. -/
theorem splitOnAux_of_valid (c : Char) (l m r : List Char) (acc : List String) :
    splitOnAux (ofList (l ++ m ++ r)) (ofList [c]) ⟨utf8Len l⟩ ⟨utf8Len l + utf8Len m⟩ 0 acc =
      acc.reverse ++ (List.splitOnPPrepend (· == c) r m.reverse).map ofList := by
  rw [splitOnAux.eq_def]
  simp only [List.append_assoc,atEnd_iff,rawEndPos_ofList,utf8Len_append,Pos.Raw.mk_le_mk,
    Nat.add_le_add_iff_left,(by omega : utf8Len m + utf8Len r ≤ utf8Len m ↔ utf8Len r = 0),
    utf8Len_eq_zero,List.reverse_cons]
  split
  · subst r
    simpa using extract_of_valid l m []
  · obtain ⟨d,r,rfl⟩ := r.exists_cons_of_ne_nil ‹_›
    have hget : Pos.Raw.get (ofList (l ++ (m ++ d::r))) ⟨utf8Len l + utf8Len m⟩ = d := by
      simpa [-ofList_append] using get_of_valid (l ++ m) (d::r)
    have hnext : Pos.Raw.next (ofList (l ++ (m ++ d::r))) ⟨utf8Len l + utf8Len m⟩ =
        ⟨utf8Len l + utf8Len m + d.utf8Size⟩ := by
      simpa [-ofList_append] using next_of_valid (l ++ m) d r
    have hsep : Pos.Raw.get (ofList [c]) 0 = c := by
      simpa [-ofList_append] using get_of_valid [] [c]
    have hsepnext : Pos.Raw.next (ofList [c]) 0 = ⟨c.utf8Size⟩ := by
      simpa [-ofList_append] using next_of_valid [] c []
    have hextract : Pos.Raw.extract (ofList (l ++ (m ++ d::r))) ⟨utf8Len l⟩
        ⟨utf8Len l + utf8Len m⟩ = ofList m := by
      simpa [-ofList_append] using extract_of_valid l m (d::r)
    have hback : ∀ n : ℕ, (⟨utf8Len l + utf8Len m + n⟩ : Pos.Raw).unoffsetBy ⟨n⟩ =
        ⟨utf8Len l + utf8Len m⟩ := by
      intro n
      simp [Pos.Raw.unoffsetBy]
    have hstay : (⟨utf8Len l + utf8Len m⟩ : Pos.Raw).unoffsetBy 0 =
        ⟨utf8Len l + utf8Len m⟩ := hback 0
    simp only [hget,hnext,hsep,hsepnext,hstay]
    by_cases hd : d = c
    · subst hd
      have hend : (⟨utf8Len [d]⟩ : Pos.Raw) ≤ ⟨d.utf8Size⟩ := by simp
      rw [if_pos (by simp),if_pos hend,hback,hextract]
      simpa [List.splitOnPPrepend_cons_eq_if,Nat.add_assoc] using
        splitOnAux_of_valid d (l ++ m ++ [d]) [] r (ofList m::acc)
    · rw [if_neg (by simpa using hd)]
      simpa [List.splitOnPPrepend_cons_eq_if,hd,Nat.add_assoc] using
        splitOnAux_of_valid c l (m ++ [d]) r acc
termination_by r.length

/-- A split at one character is one of the list of characters. -/
theorem splitOn_singleton (s : String) (c : Char) :
    s.splitOn (ofList [c]) = (s.toList.splitOnP (· == c)).map ofList := by
  have h := splitOnAux_of_valid c [] [] s.toList []
  rw [splitOn,if_neg (by simp)]
  simpa using h

/-- What follows a separator and has none is the last part. -/
theorem splitOn_append_separator (s : String) {c : Char} {t : String} (h : c ∉ t.toList) :
    (s ++ ofList [c] ++ t).splitOn (ofList [c]) = s.splitOn (ofList [c]) ++ [t] := by
  have hlast : t.toList.splitOnP (· == c) = [t.toList] := by
    apply List.splitOnP_eq_singleton
    intro d hd
    simpa using fun he : d = c => h (he ▸ hd)
  have hsplit : (s ++ ofList [c] ++ t).toList = s.toList ++ c::t.toList := by simp
  rw [splitOn_singleton,splitOn_singleton,hsplit,List.splitOnP_append_cons _ _ (by simp),hlast,
    List.map_append,List.map_singleton,ofList_toList]

/-- Two pairs joined by a separator that the first parts do not have. -/
theorem append_separator_inj {c : Char} {s s' t t' : String} (hs : c ∉ s.toList)
    (hs' : c ∉ s'.toList) :
    s ++ ofList [c] ++ t = s' ++ ofList [c] ++ t' ↔ s = s' ∧ t = t' := by
  constructor
  · intro h
    have hlist := congrArg toList h
    simp only [toList_append,toList_ofList,List.append_assoc,List.singleton_append] at hlist
    have htake : ∀ xs ys : List Char, c ∉ xs → (xs ++ c::ys).takeWhile (· != c) = xs := by
      intro xs ys hxs
      rw [List.takeWhile_append_of_pos]
      · simp
      · intro d hd
        simpa using fun he : d = c => hxs (he ▸ hd)
    have hfirst : s.toList = s'.toList := by
      rw [← htake _ t.toList hs,hlist,htake _ _ hs']
    rw [hfirst] at hlist
    exact ⟨toList_injective hfirst,
      toList_injective (List.cons_injective (List.append_cancel_left hlist))⟩
  · rintro ⟨rfl,rfl⟩
    rfl

end Strings
