import Podly.Chapters.Write
import Podly.Intervals.Slices

/-! What a cut file plays between the markers of a retimed chapter, and within the frame that is
written for it. -/
namespace Podly.Chapters
open Intervals

/-- The audio of a chapter that is left when windows are removed from a source that ends at `stop`. -/
def Chapter.own (removedMs : List (ℤ × ℤ)) (stop : ℤ) (c : Chapter) : List ℤ :=
  uncovered removedMs c.startTimeMs (min c.endTimeMs stop)

/-- What a file plays between the markers of a chapter. -/
def Chapter.plays (file : List ℤ) (c : Chapter) : List ℤ :=
  file.extract c.startTimeMs.toNat c.endTimeMs.toNat

/-- A retimed chapter frames its own audio. -/
theorem RetimedChapter.plays_eq {removedMs : List (ℤ × ℤ)} {chapter new : Chapter}
    (h : RetimedChapter removedMs chapter new) (hstart : 0 ≤ chapter.startTimeMs) (stop : ℤ) :
    new.plays (uncovered removedMs 0 stop) = chapter.own removedMs stop := by
  rw [Chapter.plays,h.start,h.finish]
  exact extract_uncovered removedMs hstart chapter.le stop

/-- A frame with the title of a chapter that runs from no later than its start to no earlier than
its end. -/
structure Stretches (c f : Chapter) : Prop where
  title : f.title = c.title
  start : f.startTimeMs ≤ c.startTimeMs
  finish : c.endTimeMs ≤ f.endTimeMs

theorem Stretches.refl (c : Chapter) : Stretches c c := ⟨rfl,le_rfl,le_rfl⟩

theorem Stretches.trans {a b c : Chapter} (hab : Stretches a b) (hbc : Stretches b c) : Stretches a c :=
  ⟨hbc.title.trans hab.title,hbc.start.trans hab.start,hab.finish.trans hbc.finish⟩

theorem extract_infix {β : Type*} (xs : List β) {a a' b b' : ℕ} (ha : a' ≤ a) (hb : b ≤ b') :
    xs.extract a b <:+: xs.extract a' b' := by
  rw [List.extract_eq_take_drop,List.extract_eq_take_drop]
  rcases le_total a b with hab | hba
  · have hdrop : (xs.drop a).take (b - a) = ((xs.drop a').take (b - a')).drop (a - a') := by
      rw [List.drop_take,List.drop_drop,Nat.add_sub_cancel' ha]
      congr 1
      omega
    rw [hdrop]
    have hpre : (xs.drop a').take (b - a') <+: (xs.drop a').take (b' - a') :=
      List.take_prefix_take_left (by omega)
    exact (List.drop_suffix _ _).isInfix.trans hpre.isInfix
  · rw [Nat.sub_eq_zero_of_le hba,List.take_zero]
    exact List.nil_infix

/-- A list ends before anything past its length. -/
theorem extract_min {β : Type*} (xs : List β) (a : ℕ) (b : ℤ) :
    xs.extract a (min b xs.length).toNat = xs.extract a b.toNat := by
  rw [List.extract_eq_take_drop,List.extract_eq_take_drop]
  rcases le_total b xs.length with hle | hle
  · rw [min_eq_left hle]
  · rw [min_eq_right hle,List.take_of_length_le,List.take_of_length_le]
    · rw [List.length_drop]
      omega
    · rw [List.length_drop,Int.toNat_natCast]

/-- A wider frame plays all the chapter does. -/
theorem Stretches.plays_infix {c f : Chapter} (h : Stretches c f) (file : List ℤ) :
    c.plays file <:+: f.plays file :=
  extract_infix file (Int.toNat_le_toNat h.start) (Int.toNat_le_toNat h.finish)

/-- Every chapter has a frame. -/
def Framed (cs frames : List Chapter) : Prop := ∀ c ∈ cs, ∃ f ∈ frames, Stretches c f

theorem Framed.trans {us vs ws : List Chapter} (huv : Framed us vs) (hvw : Framed vs ws) :
    Framed us ws := by
  intro u hu
  obtain ⟨v,hv,huv'⟩ := huv u hu
  obtain ⟨w,hw,hvw'⟩ := hvw v hv
  exact ⟨w,hw,huv'.trans hvw'⟩

theorem Framed.cons {c f : Chapter} {cs fs : List Chapter} (hcf : Stretches c f) (h : Framed cs fs) :
    Framed (c::cs) (f::fs) := by
  intro b hb
  rcases List.mem_cons.mp hb with rfl | hb
  · exact ⟨f,List.mem_cons_self,hcf⟩
  · obtain ⟨a,ha,hba⟩ := h b hb
    exact ⟨a,List.mem_cons_of_mem f ha,hba⟩

theorem Framed.refl (cs : List Chapter) : Framed cs cs := fun c hc => ⟨c,hc,.refl c⟩

section Stages
variable {d : ℤ} {cs : List Chapter}

theorem framed_stretchFirst : Framed cs (stretchFirst cs) := by
  cases cs with
  | nil => exact .refl []
  | cons first rest =>
    rw [stretchFirst]
    split
    · rename_i hpos
      rw [Chapter.make_of_le (le_max_right _ _)]
      exact .cons ⟨rfl,hpos.le,le_max_left _ _⟩ (.refl rest)
    · exact .refl _

theorem framed_stretchLast : Framed cs (stretchLast d cs) := by
  induction cs with
  | nil => exact .refl []
  | cons c cs ih =>
    cases cs with
    | nil =>
      rw [stretchLast]
      split
      · rename_i hend
        rw [Chapter.make_of_le (c.le.trans hend.le)]
        exact .cons ⟨rfl,le_rfl,hend.le⟩ (.refl [])
      · exact .refl _
    | cons next rest => exact .cons (.refl c) ih

theorem framed_framesFrom (n : ℕ) : Framed cs (framesFrom n cs) := by
  induction cs generalizing n with
  | nil => exact .refl []
  | cons c cs ih => exact .cons ⟨rfl,le_rfl,le_rfl⟩ (ih (n + 1))

end Stages

/-- Every chapter that starts before the end of the file has a frame of its title that plays what it
plays. -/
theorem exists_frame {file : List ℤ} {chapters frames : List Chapter} {tlen : Option ℤ}
    (hstored : writeChapters file.length chapters = .stored frames tlen) {c : Chapter}
    (hc : c ∈ chapters) (hstart : 0 ≤ c.startTimeMs) (hlt : c.startTimeMs < file.length) :
    ∃ f ∈ frames, f.title = c.title ∧ c.plays file <:+: f.plays file := by
  have hd : (0 : ℤ) < file.length := hstart.trans_lt hlt
  rw [writeChapters_eq hd (List.ne_nil_of_mem hc)] at hstored
  split at hstored
  · obtain ⟨rfl,-⟩ := Written.stored.inj hstored
    have hframed : Framed (clampToAudio file.length (sortByKey Chapter.startTimeMs chapters))
        (framesFrom 0 (fillChapterGaps
          (clampToAudio file.length (sortByKey Chapter.startTimeMs chapters)) file.length)) := by
      rw [fillChapterGaps,if_pos hd]
      exact (framed_stretchFirst.trans framed_stretchLast).trans (framed_framesFrom 0)
    -- The clamp takes nothing off that the file plays.
    obtain ⟨f,hf,hstretch⟩ := hframed _ (mem_clampToAudio.mpr
      ⟨c,(mem_sortByKey _ _ c).mpr hc,hlt,rfl⟩)
    rw [make_min hlt] at hstretch
    have hplays := hstretch.plays_infix file
    have hclamped : Chapter.plays file ⟨c.elementId,c.title,c.startTimeMs,min c.endTimeMs file.length,
        le_min c.le hlt.le⟩ = c.plays file := extract_min file _ _
    rw [hclamped] at hplays
    exact ⟨f,hf,hstretch.title,hplays⟩
  · cases hstored

end Podly.Chapters
