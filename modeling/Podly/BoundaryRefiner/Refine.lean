import Mathlib.Data.List.Infix
import Podly.Floats.Extended
import Podly.Lists.Replaced
import Podly.WordBoundary.Tokens

/-! `BoundaryRefiner.refine`: the window that the model proposes for an ad, or the one of the
patterns around it where the model proposes none. -/
namespace Podly.BoundaryRefiner
open Floats WordBoundary

/-- A segment as it is handed to the refiner, which may lack an end. -/
structure Segment where
  sequenceNum : ℤ
  startTime : ℚ
  endTime : Option ℚ
  text : String
deriving DecidableEq

/-- `MAX_START_EXTENSION_SECONDS`. -/
def maxStartExtensionSeconds : ℚ := 30

/-- `MAX_END_EXTENSION_SECONDS`. -/
def maxEndExtensionSeconds : ℚ := 15

/-- `BoundaryRefinement`; a reason is a text of the program or a value of the reply. -/
structure BoundaryRefinement (V : Type) where
  refinedStart : Extended
  refinedEnd : Extended
  startAdjustmentReason : String ⊕ V
  endAdjustmentReason : String ⊕ V
deriving DecidableEq

/-- How the request to the model ends. -/
inductive Reply
  | failed
  | content (text : String)

/-- What the standard library brings to the reading of a reply: `json.loads` of a text in braces, which
is an object or raises, and `float`, which may raise as well. -/
structure Json (V : Type) where
  loads : String → Option (List (String × V))
  float : V → Option Extended

variable {V : Type} (T : Text) (J : Json V)

/-! The reply -/

/-- Skip a number of characters; then drop every match of one of some texts, the first of them that
matches where several do. -/
def dropTextsFrom (texts : List (List Char)) : ℕ → List Char → List Char
  | _, [] => []
  | n + 1, _::xs => dropTextsFrom texts n xs
  | 0, x::xs =>
    match texts.find? (· <+: x::xs) with
    | some text => dropTextsFrom texts (text.length - 1) xs
    | none => x::dropTextsFrom texts 0 xs

/-- Skip a number of characters; then the matches of `\{.*?\}`. -/
def bracedFrom : ℕ → List Char → List (List Char)
  | _, [] => []
  | n + 1, _::xs => bracedFrom n xs
  | 0, x::xs =>
    let stop := xs.idxOf '\x7d'
    if x = '\x7b' ∧ stop < xs.length then (x::xs.take (stop + 1))::bracedFrom (stop + 1) xs
    else bracedFrom 0 xs

/-- `json_candidates`. -/
def jsonCandidates (content : String) : List String :=
  (bracedFrom 0 (dropTextsFrom ["```json".toList,"```".toList] 0 (T.trim content).toList)).map
    String.ofList

/-- The value of a key; of several under one key the last one counts. -/
def fieldAt (fields : List (String × V)) (key : String) : Option V :=
  (fields.filter (fun field => field.1 = key)).getLast?.map Prod.snd

/-- `parsed.get(key, parsed.get(other, ""))`. -/
def reasonAt (fields : List (String × V)) (key other : String) : String ⊕ V :=
  match (fieldAt fields key).or (fieldAt fields other) with
  | some reason => .inr reason
  | none => .inl ""

/-- The refinement that a reply proposes. -/
def proposal (content : String) : Option (BoundaryRefinement V) :=
  match (jsonCandidates T content).findSome? J.loads with
  | none | some [] => none
  | some fields => do
    let refinedStart ← (fieldAt fields "refined_start").bind J.float
    let refinedEnd ← (fieldAt fields "refined_end").bind J.float
    pure ⟨refinedStart,refinedEnd,reasonAt fields "start_adjustment_reason" "start_reason",
      reasonAt fields "end_adjustment_reason" "end_reason"⟩

/-- `_validate`. -/
def validate (origStart origEnd : ℚ) (refinement : BoundaryRefinement V) : BoundaryRefinement V :=
  let refinedStart := Extended.pyMax refinement.refinedStart
    (.ofRat (origStart - maxStartExtensionSeconds))
  let refinedEnd := Extended.pyMin refinement.refinedEnd
    (.ofRat (origEnd + maxEndExtensionSeconds))
  if refinedEnd ≤ refinedStart then
    { refinement with refinedStart := .ofRat origStart, refinedEnd := .ofRat origEnd }
  else { refinement with refinedStart, refinedEnd }

/-! The patterns -/

section Patterns
variable (adStart adEnd : ℚ)

/-- `_get_context`. -/
def getContext (allSegments : List Segment) : List Segment :=
  let adSegs := allSegments.filter (fun s => adStart ≤ s.startTime ∧ s.startTime ≤ adEnd)
  match adSegs.head?, adSegs.getLast? with
  | some first, some last =>
    let startIdx := allSegments.idxOf first - 8
    let endIdx := min allSegments.length (allSegments.idxOf last + 9)
    (allSegments.take endIdx).drop startIdx
  | _, _ => []

def introPatterns : List String := ["brought to you","sponsor","let me tell you"]

def outroPatterns : List String := [".com","thanks to","use code","visit"]

/-- `any(p in text.lower() for p in patterns)`. -/
def matchesAny (patterns : List String) (text : String) : Bool :=
  patterns.any (fun p => p.toList <:+: (T.lower text).toList)

/-- The start of a segment in front of the ad that has an intro. -/
def introAt (s : Segment) : Option ℚ :=
  if s.startTime < adStart ∧ matchesAny T introPatterns s.text then some s.startTime else none

/-- The end of a segment behind the ad that has an outro. -/
def outroAt (s : Segment) : Option ℚ :=
  if adEnd < s.startTime ∧ matchesAny T outroPatterns s.text then
    some (s.endTime.getD (s.startTime + 5))
  else none

/-- `_heuristic_refine`. -/
def heuristicRefine (context : List Segment) : BoundaryRefinement V :=
  let refinedStart := context.foldl (fun start s => (introAt T adStart s).getD start) adStart
  let refinedEnd := context.foldl (fun stop s => (outroAt T adEnd s).getD stop) adEnd
  ⟨.ofRat refinedStart,.ofRat refinedEnd,.inl "heuristic",.inl "heuristic"⟩

/-- `refine`. -/
def refine (allSegments : List Segment) (reply : Reply) : BoundaryRefinement V :=
  let context := getContext adStart adEnd allSegments
  match reply with
  | .failed => heuristicRefine T adStart adEnd context
  | .content text =>
    match proposal T J text with
    | some proposed => validate adStart adEnd proposed
    | none => heuristicRefine T adStart adEnd context

/-! What is near -/

/-- A window of two numbers that overlaps the ad and is at most 30 seconds longer at its start and 15
seconds at its end. -/
def StaysNear (refinement : BoundaryRefinement V) : Prop :=
  ∃ start stop : ℚ, refinement.refinedStart = .ofRat start ∧ refinement.refinedEnd = .ofRat stop ∧
    adStart - maxStartExtensionSeconds ≤ start ∧ start < stop ∧
    stop ≤ adEnd + maxEndExtensionSeconds ∧ start ≤ adEnd ∧ adStart ≤ stop

/-- The proposed times are numbers, and they cross or the window they propose overlaps the ad. -/
def ProposesNear (proposed : BoundaryRefinement V) : Prop :=
  proposed.refinedStart ≠ .nan ∧ proposed.refinedEnd ≠ .nan ∧
    (Extended.pyMin proposed.refinedEnd (.ofRat (adEnd + maxEndExtensionSeconds)) ≤
        Extended.pyMax proposed.refinedStart (.ofRat (adStart - maxStartExtensionSeconds)) ∨
      proposed.refinedStart ≤ .ofRat adEnd ∧ .ofRat adStart ≤ proposed.refinedEnd)

/-- The last intro in front of the ad is at most 30 seconds away, and the last outro behind it ends at
most 15 seconds away, and behind the start. -/
def PatternsNear (context : List Segment) : Prop :=
  let start := ((context.filterMap (introAt T adStart)).getLast?).getD adStart
  let stop := ((context.filterMap (outroAt T adEnd)).getLast?).getD adEnd
  adStart - maxStartExtensionSeconds ≤ start ∧ stop ≤ adEnd + maxEndExtensionSeconds ∧
    adStart ≤ stop ∧ start < stop

end Patterns

section Near
variable {adStart adEnd : ℚ} {proposed : BoundaryRefinement V}

theorem sub_maxStartExtension_le : adStart - maxStartExtensionSeconds ≤ adStart :=
  sub_le_self _ (by decide)

theorem le_add_maxEndExtension : adEnd ≤ adEnd + maxEndExtensionSeconds :=
  le_add_of_nonneg_right (by decide)

/-- The detected window itself is near. -/
theorem staysNear_self (h : adStart < adEnd) (r : BoundaryRefinement V)
    (hstart : r.refinedStart = .ofRat adStart) (hend : r.refinedEnd = .ofRat adEnd) :
    StaysNear adStart adEnd r :=
  ⟨adStart,adEnd,hstart,hend,sub_maxStartExtension_le,h,le_add_maxEndExtension,h.le,h.le⟩

/-- A window within the bounds is near when it overlaps the ad. -/
theorem staysNear_iff_of_bounded {start stop : ℚ} {r : BoundaryRefinement V}
    (hstart : r.refinedStart = .ofRat start) (hstop : r.refinedEnd = .ofRat stop)
    (hfirst : adStart - maxStartExtensionSeconds ≤ start)
    (hlast : stop ≤ adEnd + maxEndExtensionSeconds) (hlt : start < stop) :
    StaysNear adStart adEnd r ↔ start ≤ adEnd ∧ adStart ≤ stop := by
  constructor
  · rintro ⟨start',stop',hstart',hstop',-,-,-,hoverlaps⟩
    rw [hstart,Extended.ofRat_inj] at hstart'
    rw [hstop,Extended.ofRat_inj] at hstop'
    rwa [hstart',hstop']
  · intro hoverlaps
    exact ⟨start,stop,hstart,hstop,hfirst,hlt,hlast,hoverlaps⟩

/-- The clamped times of numbers, where they do not cross, are numbers within the bounds. -/
theorem exists_clamped {x y : WithBot (WithTop ℚ)} {first last : ℚ}
    (hcross : ¬Extended.pyMin (.number y) (.ofRat last) ≤
      Extended.pyMax (.number x) (.ofRat first)) :
    ∃ start stop : ℚ, Extended.pyMax (.number x) (.ofRat first) = .ofRat start ∧
      Extended.pyMin (.number y) (.ofRat last) = .ofRat stop ∧ first ≤ start ∧ start < stop ∧
        stop ≤ last := by
  rw [Extended.ofRat,Extended.ofRat,Extended.pyMin_number,Extended.pyMax_number,
    Extended.number_le,not_le] at hcross
  rw [Extended.ofRat,Extended.ofRat,Extended.pyMin_number,Extended.pyMax_number]
  obtain ⟨start,hstart⟩ := Extended.exists_ofRat (le_max_right x _)
    (hcross.trans_le (min_le_right y _))
  obtain ⟨stop,hstop⟩ := Extended.exists_ofRat ((le_max_right x _).trans hcross.le)
    ((min_le_right y _).trans_lt (WithBot.coe_lt_coe.mpr (WithTop.coe_lt_coe.mpr (lt_add_one last))))
  refine ⟨start,stop,hstart,hstop,?_,?_,?_⟩
  · rw [← Extended.ofRat_le,← hstart]
    exact le_max_right x _
  · rw [← Extended.ofRat_lt,← hstart,← hstop]
    exact hcross
  · rw [← Extended.ofRat_le,← hstop]
    exact min_le_right y _

/-- A proposal is near after its check exactly when it is one of numbers that cross or overlap the
ad. -/
theorem validate_staysNear_iff (h : adStart < adEnd) :
    StaysNear adStart adEnd (validate adStart adEnd proposed) ↔
      ProposesNear adStart adEnd proposed := by
  obtain ⟨refinedStart,refinedEnd,startReason,endReason⟩ := proposed
  rw [validate,ProposesNear]
  dsimp only
  cases refinedStart with
  | nan =>
    rw [Extended.pyMax_nan,if_neg Extended.not_le_nan]
    refine iff_of_false ?_ (fun hnear => hnear.1 rfl)
    rintro ⟨start,-,hstart,-⟩
    cases hstart
  | number x =>
    cases refinedEnd with
    | nan =>
      rw [Extended.pyMin_nan,if_neg Extended.not_nan_le]
      refine iff_of_false ?_ (fun hnear => hnear.2.1 rfl)
      rintro ⟨-,stop,-,hstop,-⟩
      cases hstop
    | number y =>
      split
      · rename_i hcross
        exact iff_of_true (staysNear_self h _ rfl rfl) ⟨nofun,nofun,.inl hcross⟩
      · rename_i hcross
        obtain ⟨start,stop,hstart,hstop,hfirst,hlt,hlast⟩ := exists_clamped hcross
        rw [staysNear_iff_of_bounded hstart hstop hfirst hlast hlt,
          and_iff_right (show Extended.number x ≠ .nan from nofun),
          and_iff_right (show Extended.number y ≠ .nan from nofun),or_iff_right hcross]
        -- the bounds themselves overlap the ad, so that the proposal decides
        have hbefore : (.ofRat (adStart - maxStartExtensionSeconds) : Extended) ≤ .ofRat adEnd :=
          Extended.ofRat_le.mpr (sub_maxStartExtension_le.trans h.le)
        have hbehind : (.ofRat adStart : Extended) ≤ .ofRat (adEnd + maxEndExtensionSeconds) :=
          Extended.ofRat_le.mpr (h.le.trans le_add_maxEndExtension)
        rw [← Extended.ofRat_le (p := start),← Extended.ofRat_le (q := stop),← hstart,← hstop,
          Extended.ofRat,Extended.ofRat,Extended.ofRat,Extended.ofRat,Extended.pyMax_number,
          Extended.pyMin_number]
        simp only [Extended.number_le]
        exact and_congr (max_le_iff.trans (and_iff_left hbefore))
          (le_min_iff.trans (and_iff_left hbehind))

/-- The window of the patterns is near exactly when they are. -/
theorem heuristicRefine_staysNear_iff (h : adStart < adEnd) (context : List Segment) :
    StaysNear adStart adEnd (heuristicRefine T adStart adEnd context : BoundaryRefinement V) ↔
      PatternsNear T adStart adEnd context := by
  rw [heuristicRefine,PatternsNear,Lists.foldl_getD,Lists.foldl_getD]
  have hstart : ((context.filterMap (introAt T adStart)).getLast?).getD adStart ≤ adStart := by
    cases hlast : (context.filterMap (introAt T adStart)).getLast? with
    | none => exact le_rfl
    | some start =>
      obtain ⟨s,-,hs⟩ := List.mem_filterMap.mp (List.mem_of_getLast? hlast)
      rw [introAt] at hs
      split at hs
      · rename_i hbefore
        obtain rfl := Option.some.inj hs
        exact hbefore.1.le
      · cases hs
  constructor
  · rintro ⟨start,stop,hstart',hstop',hfirst,hlt,hlast,-,hoverlaps⟩
    rw [Extended.ofRat_inj] at hstart' hstop'
    rw [hstart',hstop']
    exact ⟨hfirst,hlast,hoverlaps,hlt⟩
  · rintro ⟨hfirst,hlast,hoverlaps,hlt⟩
    exact ⟨_,_,rfl,rfl,hfirst,hlt,hlast,hstart.trans h.le,hoverlaps⟩

end Near

/-- What decides whether a window stays near: the proposal, or the patterns where the reply has
none. -/
def AnswersNear (adStart adEnd : ℚ) (allSegments : List Segment) (reply : Reply) : Prop :=
  match reply with
  | .failed => PatternsNear T adStart adEnd (getContext adStart adEnd allSegments)
  | .content text =>
    match proposal T J text with
    | some proposed => ProposesNear adStart adEnd proposed
    | none => PatternsNear T adStart adEnd (getContext adStart adEnd allSegments)

/-- Refinement stays near the detection exactly when a proposal is one of numbers that cross or overlap
the ad, and without one the patterns are near. -/
theorem refine_staysNear_iff (T : Text) (J : Json V) {adStart adEnd : ℚ} (h : adStart < adEnd)
    (allSegments : List Segment) (reply : Reply) :
    StaysNear adStart adEnd (refine T J adStart adEnd allSegments reply) ↔
      AnswersNear T J adStart adEnd allSegments reply := by
  cases reply with
  | failed => exact heuristicRefine_staysNear_iff T h _
  | content text =>
    simp only [refine,AnswersNear]
    cases proposal T J text with
    | none => exact heuristicRefine_staysNear_iff T h _
    | some proposed => exact validate_staysNear_iff h

section Runs

def pythonText : Text := ⟨isWhitespace,String.toLower⟩

/-- A reader of two replies. -/
def twoReplies : Json ℚ where
  loads := fun text =>
    if text = "\x7b\"refined_start\": 95, \"refined_end\": 131\x7d" then
      some [("refined_start",95),("refined_end",131)]
    else if text = "\x7b\"refined_start\": 131, \"refined_end\": 140\x7d" then
      some [("refined_start",131),("refined_end",140)]
    else none
  float := fun q => some (.ofRat q)

/-- An intro a minute before the ad. -/
def earlyIntro : List Segment :=
  [⟨0,40,some 100,"brought to you by acme"⟩,⟨1,100,some 130,"acme makes widgets"⟩]

/-- A proposal five seconds before the ad. -/
theorem refine_staysNear_proposed : StaysNear 100 130 (refine pythonText twoReplies 100 130 earlyIntro
    (.content "\x7b\"refined_start\": 95, \"refined_end\": 131\x7d")) := by
  refine (refine_staysNear_iff pythonText twoReplies (by decide) earlyIntro _).mpr ?_
  have hproposal : (proposal pythonText twoReplies
      "\x7b\"refined_start\": 95, \"refined_end\": 131\x7d") =
        some ⟨.ofRat 95,.ofRat 131,.inl "",.inl ""⟩ := by decide +kernel
  simp only [AnswersNear,hproposal]
  exact ⟨nofun,nofun,.inr ⟨by decide +kernel,by decide +kernel⟩⟩

/-- The call fails, and the window begins a minute before the ad. -/
theorem not_staysNear_earlyIntro :
    ¬StaysNear 100 130 (refine pythonText twoReplies 100 130 earlyIntro .failed) := by
  rintro ⟨start,stop,hstart,-,hfirst,-⟩
  have hstart' : (refine pythonText twoReplies 100 130 earlyIntro .failed).refinedStart =
      .ofRat 40 := by decide +kernel
  rw [hstart',Extended.ofRat_inj] at hstart
  rw [← hstart] at hfirst
  exact absurd hfirst (by decide +kernel)

end Runs

end Podly.BoundaryRefiner
