import Mathlib.Data.List.TakeWhile
import Podly.RateLimits.TokenLimiter

/-! What the token limiter keeps of its limit. A request whose check let it through and that no
other request overtook always fits; the limit therefore holds as long as a second check would let
the other requests through at the moment they are recorded. -/
namespace Podly.RateLimits
open Store Sliding

namespace TokenRateLimiter
variable {limiter : TokenRateLimiter} {tokenCount : ℕ} {currentTime : ℚ}

theorem cleanupOldUsage_split (limiter : TokenRateLimiter) (currentTime : ℚ) :
    ∃ old, limiter.tokenUsage = old ++ (limiter.cleanupOldUsage currentTime).tokenUsage ∧
      ∀ usage ∈ old, usage.1 < currentTime - limiter.windowSeconds := by
  refine ⟨_,List.takeWhile_append_dropWhile.symm,?_⟩
  intro usage husage
  have hexpired := List.mem_takeWhile_imp husage
  simpa using hexpired

/-- The check cleans up; it lets the request through when there is room for it or nothing is left to
wait for, and has it wait for the oldest record otherwise. -/
theorem checkRateLimit_cases (limiter : TokenRateLimiter) (tokenCount : ℕ) (currentTime : ℚ) :
    let cleaned := limiter.cleanupOldUsage currentTime
    let check := limiter.checkRateLimit tokenCount currentTime
    ((cleaned.tokenUsage.map Prod.snd).sum + tokenCount ≤ limiter.tokensPerMinute ∧
        check = (cleaned,true,0)) ∨
      (cleaned.tokenUsage = [] ∧ check = (cleaned,true,0)) ∨
      ∃ oldest ∈ cleaned.tokenUsage,
        check = (cleaned,false,max 0 (oldest.1 + limiter.windowSeconds - currentTime)) := by
  intro cleaned check
  by_cases hroom : (cleaned.tokenUsage.map Prod.snd).sum + tokenCount ≤ limiter.tokensPerMinute
  · exact .inl ⟨hroom,by simp only [check,checkRateLimit,getCurrentUsage]; exact if_pos hroom⟩
  · right
    unfold check checkRateLimit getCurrentUsage
    simp only [cleaned] at hroom ⊢
    rw [if_neg hroom]
    cases limiter.cleanupOldUsage currentTime |>.tokenUsage with
    | nil => exact .inl ⟨rfl,rfl⟩
    | cons oldest rest => exact .inr ⟨oldest,List.mem_cons_self,rfl⟩

theorem checkRateLimit_fst (limiter : TokenRateLimiter) (tokenCount : ℕ) (currentTime : ℚ) :
    (limiter.checkRateLimit tokenCount currentTime).1 = limiter.cleanupOldUsage currentTime := by
  rcases limiter.checkRateLimit_cases tokenCount currentTime with ⟨-,h⟩ | ⟨-,h⟩ | ⟨_,-,h⟩ <;>
    rw [h]

/-- A request that may proceed has room next to everything the limiter remembers; an empty limiter
lets any request through, and so the request has to be within the limit itself. -/
theorem usage_le_of_proceed (hsmall : tokenCount ≤ limiter.tokensPerMinute)
    (h : (limiter.checkRateLimit tokenCount currentTime).2.1 = true) :
    ((limiter.cleanupOldUsage currentTime).tokenUsage.map Prod.snd).sum + tokenCount ≤
      limiter.tokensPerMinute := by
  rcases limiter.checkRateLimit_cases tokenCount currentTime with
    ⟨hroom,-⟩ | ⟨hempty,-⟩ | ⟨oldest,-,hcheck⟩
  · exact hroom
  · rw [hempty,List.map_nil,List.sum_nil]
    omega
  · rw [hcheck] at h
    cases h

/-- What `check_rate_limit` would answer to a request that read the clock at `currentTime`, over the
requests recorded less than a window before. Unlike the limiter itself it does not miss what the
check of another thread with a later reading has cleaned up. -/
def wouldProceed (limiter : TokenRateLimiter) (recorded : List (ℚ × ℕ)) (tokenCount : ℕ)
    (currentTime : ℚ) : Bool :=
  ({limiter with tokenUsage := recent limiter.windowSeconds currentTime recorded}.checkRateLimit
    tokenCount currentTime).2.1

theorem wouldProceed_iff {recorded : List (ℚ × ℕ)} :
    limiter.wouldProceed recorded tokenCount currentTime = true ↔
      ((recent limiter.windowSeconds currentTime recorded).map Prod.snd).sum + tokenCount ≤
        limiter.tokensPerMinute ∨ recent limiter.windowSeconds currentTime recorded = [] := by
  have hkept : (recent limiter.windowSeconds currentTime recorded).dropWhile
      (fun usage => decide (usage.1 < currentTime - limiter.windowSeconds)) =
        recent limiter.windowSeconds currentTime recorded := by
    rw [List.dropWhile_eq_self_iff]
    intro hne
    have hlate := (List.mem_filter.mp (List.getElem_mem (l := recent limiter.windowSeconds
      currentTime recorded) hne)).2
    simpa using (of_decide_eq_true hlate).le
  simp only [wouldProceed,checkRateLimit,getCurrentUsage,cleanupOldUsage,hkept]
  split_ifs with hroom
  · exact iff_of_true rfl (.inl hroom)
  · rw [or_iff_right hroom]
    cases recent limiter.windowSeconds currentTime recorded <;> simp

end TokenRateLimiter

/-- What the limiter has forgotten of the requests recorded is a window or more old. -/
def Remembers (limiter : TokenRateLimiter) (clock : ℚ) (recorded : List (ℚ × ℕ)) : Prop :=
  ∃ old, recorded = old ++ limiter.tokenUsage ∧
    ∀ usage ∈ old, usage.1 ≤ clock - limiter.windowSeconds

section
variable {limiter : TokenRateLimiter} {clock later currentTime : ℚ} {recorded : List (ℚ × ℕ)}
  {tokenCount : ℕ}

theorem Remembers.advance (h : Remembers limiter clock recorded) (hlater : clock ≤ later) :
    Remembers limiter later recorded := by
  obtain ⟨old,hsplit,hold⟩ := h
  refine ⟨old,hsplit,?_⟩
  intro usage husage
  exact (hold usage husage).trans (sub_le_sub_right hlater _)

theorem Remembers.cleanup (h : Remembers limiter clock recorded) (hread : currentTime ≤ clock) :
    Remembers (limiter.cleanupOldUsage currentTime) clock recorded := by
  obtain ⟨old,hsplit,hold⟩ := h
  obtain ⟨expired,hexpired,htime⟩ := limiter.cleanupOldUsage_split currentTime
  refine ⟨old ++ expired,by rw [hsplit,hexpired,List.append_assoc],?_⟩
  intro usage husage
  rcases List.mem_append.mp husage with hin | hin
  · exact hold usage hin
  · exact (htime usage hin).le.trans (sub_le_sub_right hread _)

theorem Remembers.record (h : Remembers limiter clock recorded) :
    Remembers (limiter.recordUsage tokenCount currentTime) clock
      (recorded ++ [(currentTime,tokenCount)]) := by
  obtain ⟨old,hsplit,hold⟩ := h
  exact ⟨old,by rw [hsplit,List.append_assoc]; rfl,hold⟩

/-- Room next to everything remembered is room in every window of the present or later. -/
theorem Remembers.fits (h : Remembers limiter clock recorded) (hlater : clock ≤ later)
    (hroom : (limiter.tokenUsage.map Prod.snd).sum + tokenCount ≤ limiter.tokensPerMinute) :
    Fits limiter.tokensPerMinute limiter.windowSeconds recorded later tokenCount := by
  obtain ⟨old,rfl,hold⟩ := h.advance hlater
  exact fits_of_room hold hroom

/-- Where no later reading has cleaned up, a second check that lets the request through is enough. -/
theorem Remembers.wouldProceed (h : Remembers limiter currentTime recorded)
    (hsmall : tokenCount ≤ limiter.tokensPerMinute)
    (hcheck : (limiter.checkRateLimit tokenCount currentTime).2.1 = true) :
    limiter.wouldProceed recorded tokenCount currentTime = true := by
  obtain ⟨old,hsplit,hold⟩ := h.cleanup le_rfl
  have hroom := TokenRateLimiter.usage_le_of_proceed hsmall hcheck
  have hrecent : ((recent limiter.windowSeconds currentTime recorded).map Prod.snd).sum ≤
      ((limiter.cleanupOldUsage currentTime).tokenUsage.map Prod.snd).sum := by
    rw [hsplit,recent_append (by exact hold)]
    exact (List.filter_sublist.map Prod.snd).sum_le_sum (fun _ _ => Nat.zero_le _)
  exact TokenRateLimiter.wouldProceed_iff.mpr (.inl (by omega))

end

/-- A condition on a thread that is about to record. -/
def Phase.OnRecording (P : ℕ → Bool → ℕ → ℚ → Prop) : Phase → Prop
  | .recording tokenCount canProceed seen currentTime => P tokenCount canProceed seen currentTime
  | _ => True

instance (P : ℕ → Bool → ℕ → ℚ → Prop) [∀ tokenCount canProceed seen currentTime,
    Decidable (P tokenCount canProceed seen currentTime)] (phase : Phase) :
    Decidable (phase.OnRecording P) :=
  match phase with
  | .recording tokenCount canProceed seen currentTime =>
    inferInstanceAs (Decidable (P tokenCount canProceed seen currentTime))
  | .idle | .checking _ _ | .sleeping _ _ _ _ => isTrue trivial

/-- What a thread relies on at its point of `wait_if_needed`: its readings are not ahead of the
clock, its request is within the limit, and the go-ahead of its check is good for as long as
nothing is recorded. -/
def Phase.Sound (limit : ℕ) (width clock : ℚ) (recorded : List (ℚ × ℕ)) : Phase → Prop
  | .idle => True
  | .checking tokenCount currentTime => tokenCount ≤ limit ∧ currentTime ≤ clock
  | .sleeping tokenCount canProceed seen wakeAt =>
    tokenCount ≤ limit ∧ seen ≤ recorded.length ∧ (canProceed = true → seen = recorded.length →
      ∀ t, wakeAt ≤ t → Fits limit width recorded t tokenCount)
  | .recording tokenCount canProceed seen currentTime =>
    tokenCount ≤ limit ∧ seen ≤ recorded.length ∧ (canProceed = true → seen = recorded.length →
      Fits limit width recorded currentTime tokenCount)

section
variable {limit : ℕ} {width clock later : ℚ} {recorded : List (ℚ × ℕ)} {phase : Phase}

theorem Phase.Sound.advance (h : phase.Sound limit width clock recorded) (hlater : clock ≤ later) :
    phase.Sound limit width later recorded := by
  cases phase with
  | idle => trivial
  | checking tokenCount currentTime => exact ⟨h.1,h.2.trans hlater⟩
  | sleeping tokenCount canProceed seen wakeAt => exact h
  | recording tokenCount canProceed seen currentTime => exact h

/-- Once another request is recorded a thread has been overtaken, and relies on nothing. -/
theorem Phase.Sound.overtaken (h : phase.Sound limit width clock recorded) (entry : ℚ × ℕ) :
    phase.Sound limit width clock (recorded ++ [entry]) := by
  have hlength : (recorded ++ [entry]).length = recorded.length + 1 := by simp
  cases phase with
  | idle => trivial
  | checking tokenCount currentTime => exact h
  | sleeping tokenCount canProceed seen wakeAt =>
    have hseen : seen ≤ recorded.length := h.2.1
    exact ⟨h.1,by omega,fun _ heq => absurd heq (by omega)⟩
  | recording tokenCount canProceed seen currentTime =>
    have hseen : seen ≤ recorded.length := h.2.1
    exact ⟨h.1,by omega,fun _ heq => absurd heq (by omega)⟩

end

namespace SharedLimiter
variable {ι : Type*} [DecidableEq ι]

/-- No window of `window_seconds` holds more than `tokens_per_minute` of what is recorded. -/
def WindowEnforced (sys : SharedLimiter ι) : Prop :=
  Bounded sys.limiter.tokensPerMinute sys.limiter.windowSeconds sys.recorded

structure Sound (sys : SharedLimiter ι) : Prop where
  remembers : Remembers sys.limiter sys.clock sys.recorded
  phases : ∀ thread, (sys.phase thread).Sound sys.limiter.tokensPerMinute
    sys.limiter.windowSeconds sys.clock sys.recorded

/-- A condition on the request that a step records: on its tokens, on the answer of its check, on
how many requests had been recorded by then and on its reading of the clock. -/
def OnRecord (sys : SharedLimiter ι) (P : ℕ → Bool → ℕ → ℚ → Prop) : Label ι → Prop
  | .record thread => (sys.phase thread).OnRecording P
  | _ => True

/-- The request fits into every window around its reading. -/
def RecordFits (sys : SharedLimiter ι) : Label ι → Prop :=
  sys.OnRecord fun tokenCount _ _ currentTime =>
    Fits sys.limiter.tokensPerMinute sys.limiter.windowSeconds sys.recorded currentTime tokenCount

/-- A request that had to wait, or that another request overtook between its check and its record,
would be let through by a second check when it is recorded. -/
def RecordsWithRoom (sys : SharedLimiter ι) : Label ι → Prop :=
  sys.OnRecord fun tokenCount canProceed seen currentTime =>
    (canProceed = true ∧ seen = sys.recorded.length) ∨
      sys.limiter.wouldProceed sys.recorded tokenCount currentTime = true

instance (sys : SharedLimiter ι) (label : Label ι) : Decidable (sys.RecordsWithRoom label) :=
  match label with
  | .record thread => inferInstanceAs (Decidable ((sys.phase thread).OnRecording _))
  | .advance _ | .call _ _ | .check _ | .wake _ => isTrue trivial

/-- No request that read the clock later has been recorded before. -/
def RecordsInOrder (sys : SharedLimiter ι) : Label ι → Prop :=
  sys.OnRecord fun _ _ _ currentTime => ∀ usage ∈ sys.recorded, usage.1 ≤ currentTime

instance (sys : SharedLimiter ι) (label : Label ι) : Decidable (sys.RecordsInOrder label) :=
  match label with
  | .record thread => inferInstanceAs (Decidable ((sys.phase thread).OnRecording _))
  | .advance _ | .call _ _ | .check _ | .wake _ => isTrue trivial

end SharedLimiter

/-- The request of a call is within the limit. -/
def Label.Within {ι : Type*} (limit : ℕ) : Label ι → Prop
  | .call _ messages => TokenRateLimiter.countTokens messages ≤ limit
  | _ => True

instance {ι : Type*} (limit : ℕ) (label : Label ι) : Decidable (label.Within limit) :=
  match label with
  | .call _ messages =>
    inferInstanceAs (Decidable (TokenRateLimiter.countTokens messages ≤ limit))
  | .advance _ | .check _ | .wake _ | .record _ => isTrue trivial

namespace SharedLimiter
variable {ι : Type*} {sys : SharedLimiter ι} {thread : ι} {phase : Phase}

theorem sound_start {limiter : TokenRateLimiter} (hnew : limiter.tokenUsage = []) (clock : ℚ) :
    (start limiter clock : SharedLimiter ι).Sound :=
  ⟨⟨[],hnew.symm,fun _ h => absurd h List.not_mem_nil⟩,fun _ => trivial⟩

theorem Sound.advance (h : sys.Sound) {later : ℚ} (hlater : sys.clock ≤ later) :
    ({ sys with clock := later } : SharedLimiter ι).Sound :=
  ⟨h.remembers.advance hlater,fun thread => (h.phases thread).advance hlater⟩

theorem Sound.recordUsage (h : sys.Sound) (tokenCount : ℕ) (currentTime : ℚ) :
    ({ sys with
      limiter := sys.limiter.recordUsage tokenCount currentTime
      recorded := sys.recorded ++ [(currentTime,tokenCount)] } : SharedLimiter ι).Sound :=
  ⟨h.remembers.record,fun thread => (h.phases thread).overtaken _⟩

theorem Sound.cleanup (h : sys.Sound) {currentTime : ℚ} (hread : currentTime ≤ sys.clock) :
    ({ sys with limiter := sys.limiter.cleanupOldUsage currentTime } : SharedLimiter ι).Sound :=
  ⟨h.remembers.cleanup hread,h.phases⟩

theorem clock_le_wake (clock : ℚ) (canProceed : Bool) (waitSeconds : ℚ) :
    clock ≤ clock + pause canProceed waitSeconds := by
  unfold pause
  split
  · rename_i h
    exact le_add_of_nonneg_right h.2.le
  · exact le_add_of_nonneg_right le_rfl

theorem onRecord_iff {P : ℕ → Bool → ℕ → ℚ → Prop} {label : Label ι} : sys.OnRecord P label ↔
    ∀ thread tokenCount canProceed seen currentTime, label = .record thread →
      sys.phase thread = .recording tokenCount canProceed seen currentTime →
        P tokenCount canProceed seen currentTime := by
  constructor
  · rintro h thread tokenCount canProceed seen currentTime rfl hphase
    rw [OnRecord,hphase] at h
    exact h
  · intro h
    cases label with
    | record thread =>
      cases hphase : sys.phase thread with
      | recording tokenCount canProceed seen currentTime =>
        rw [OnRecord,hphase]
        exact h _ _ _ _ _ rfl hphase
      | _ => simp only [OnRecord,hphase,Phase.OnRecording]
    | _ => trivial

/-- A request that is recorded with room fits. -/
theorem Sound.recordFits (h : sys.Sound) {label : Label ι} (hroom : sys.RecordsWithRoom label) :
    sys.RecordFits label := by
  refine onRecord_iff.mpr ?_
  intro thread tokenCount canProceed seen currentTime hlabel hphase
  have hthread := h.phases thread
  rw [hphase] at hthread
  obtain ⟨hsmall,-,hgo⟩ := hthread
  rcases onRecord_iff.mp hroom _ _ _ _ _ hlabel hphase with ⟨hproceed,hseen⟩ | hproceed
  · exact hgo hproceed hseen
  · apply fits_of_recent
    rcases TokenRateLimiter.wouldProceed_iff.mp hproceed with hroom | hnone
    · exact hroom
    · rw [hnone,List.map_nil,List.sum_nil,zero_add]
      exact hsmall

/-- In the order of the readings every request that fits is recorded with room. -/
theorem recordsWithRoom_of_fits {label : Label ι} (horder : sys.RecordsInOrder label)
    (hfits : sys.RecordFits label) : sys.RecordsWithRoom label := by
  refine onRecord_iff.mpr ?_
  intro thread tokenCount canProceed seen currentTime hlabel hphase
  have hlast := onRecord_iff.mp horder _ _ _ _ _ hlabel hphase
  refine .inr (TokenRateLimiter.wouldProceed_iff.mpr (or_iff_not_imp_right.mpr ?_))
  intro hsome
  exact room_of_fits hlast hsome (onRecord_iff.mp hfits _ _ _ _ _ hlabel hphase)

variable [DecidableEq ι]

theorem Sound.setPhase (h : sys.Sound) (hphase : phase.Sound sys.limiter.tokensPerMinute
    sys.limiter.windowSeconds sys.clock sys.recorded) : (sys.setPhase thread phase).Sound := by
  refine ⟨h.remembers,?_⟩
  intro other
  by_cases hother : other = thread
  · subst hother
    simpa [SharedLimiter.setPhase] using hphase
  · simpa [SharedLimiter.setPhase,hother] using h.phases other

/-- Each step keeps what the threads rely on. -/
theorem Sound.step (h : sys.Sound) {label : Label ι}
    (hlabel : label.Within sys.limiter.tokensPerMinute) : (sys.step label).Sound := by
  cases label with
  | advance seconds =>
    simp only [SharedLimiter.step]
    split
    · rename_i hseconds
      exact h.advance (le_add_of_nonneg_right hseconds)
    · exact h
  | call thread messages =>
    simp only [SharedLimiter.step]
    split
    · exact h.setPhase ⟨hlabel,le_rfl⟩
    · exact h
  | check thread =>
    simp only [SharedLimiter.step]
    split
    · rename_i tokenCount currentTime hphase
      have hthread := h.phases thread
      rw [hphase] at hthread
      obtain ⟨hsmall,hread⟩ := hthread
      rw [sys.limiter.checkRateLimit_fst]
      refine (h.cleanup hread).setPhase ⟨hsmall,le_rfl,?_⟩
      -- the go-ahead of the check is good from the time the lock is left
      intro hproceed _ t ht
      exact (h.cleanup hread).remembers.fits ((clock_le_wake _ _ _).trans ht)
        (TokenRateLimiter.usage_le_of_proceed hsmall hproceed)
    · exact h
  | wake thread =>
    simp only [SharedLimiter.step]
    split
    · rename_i tokenCount canProceed seen wakeAt hphase
      have hthread := h.phases thread
      rw [hphase] at hthread
      split
      · rename_i hwake
        obtain ⟨hsmall,hlength,hgo⟩ := hthread
        exact h.setPhase ⟨hsmall,hlength,fun hproceed hseen => hgo hproceed hseen _ hwake⟩
      · exact h
    · exact h
  | record thread =>
    simp only [SharedLimiter.step]
    split
    · exact (h.recordUsage _ _).setPhase trivial
    · exact h

/-- No step changes what the limiter was made with. -/
theorem step_limits (sys : SharedLimiter ι) (label : Label ι) :
    (sys.step label).limiter.tokensPerMinute = sys.limiter.tokensPerMinute ∧
      (sys.step label).limiter.windowSeconds = sys.limiter.windowSeconds := by
  cases label with
  | advance seconds => simp only [step]; split <;> exact ⟨rfl,rfl⟩
  | call thread messages => simp only [step]; split <;> exact ⟨rfl,rfl⟩
  | check thread =>
    simp only [step]
    split
    · rename_i tokenCount currentTime _
      simp only [setPhase,TokenRateLimiter.checkRateLimit_fst]
      exact ⟨rfl,rfl⟩
    · exact ⟨rfl,rfl⟩
  | wake thread =>
    simp only [step]
    split
    · split <;> exact ⟨rfl,rfl⟩
    · exact ⟨rfl,rfl⟩
  | record thread => simp only [step]; split <;> exact ⟨rfl,rfl⟩

/-- The property moves only when a request is recorded, and survives exactly when that fits. -/
theorem windowEnforced_step_iff (henforced : sys.WindowEnforced) (label : Label ι) :
    (sys.step label).WindowEnforced ↔ sys.RecordFits label := by
  have hsame : (sys.step label).recorded = sys.recorded → (sys.step label).WindowEnforced := by
    intro hrecorded
    rw [WindowEnforced,(sys.step_limits label).1,(sys.step_limits label).2,hrecorded]
    exact henforced
  cases label with
  | advance seconds =>
    refine iff_of_true (hsame ?_) trivial
    simp only [step]
    split <;> rfl
  | call thread messages =>
    refine iff_of_true (hsame ?_) trivial
    simp only [step]
    split <;> rfl
  | check thread =>
    refine iff_of_true (hsame ?_) trivial
    simp only [step]
    split <;> rfl
  | wake thread =>
    refine iff_of_true (hsame ?_) trivial
    simp only [step]
    split
    · split <;> rfl
    · rfl
  | record thread =>
    cases hphase : sys.phase thread with
    | recording tokenCount canProceed seen currentTime =>
      simp only [RecordFits,OnRecord,Phase.OnRecording,hphase,WindowEnforced,step,setPhase,
        TokenRateLimiter.recordUsage,bounded_concat_iff]
      exact and_iff_right henforced
    | _ =>
      simp only [RecordFits,OnRecord,Phase.OnRecording,hphase,iff_true]
      exact hsame (by simp only [step,hphase])

end SharedLimiter

section
open SharedLimiter
variable {ι : Type*} [DecidableEq ι] {tokensPerMinute : ℕ} {labels : List (Label ι)}

/-- A system whose threads are sound, with the given limit. -/
def SoundWithin (tokensPerMinute : ℕ) (sys : SharedLimiter ι) : Prop :=
  sys.Sound ∧ sys.limiter.tokensPerMinute = tokensPerMinute

theorem SoundWithin.step {sys : SharedLimiter ι} {label : Label ι}
    (hlabel : label.Within tokensPerMinute) (h : SoundWithin tokensPerMinute sys) :
    SoundWithin tokensPerMinute (sys.step label) := by
  obtain ⟨hsound,rfl⟩ := h
  exact ⟨hsound.step hlabel,(sys.step_limits label).1⟩

/-- The limit holds all along a run exactly when each request fits as it is recorded. -/
theorem windowEnforced_iff_fits {sys : SharedLimiter ι} (hsys : SoundWithin tokensPerMinute sys)
    (henforced : sys.WindowEnforced) (hlabels : ∀ l ∈ labels, l.Within tokensPerMinute) :
    (∀ before, before <+: labels → (run SharedLimiter.step sys before).WindowEnforced) ↔
      AllSteps SharedLimiter.step RecordFits sys labels := by
  refine forall_prefix_iff (I := SoundWithin tokensPerMinute) ?_ ?_ hsys henforced hlabels
  · intro sys label hlabel h
    exact h.step hlabel
  · intro sys label _ _ hbefore
    exact windowEnforced_step_iff hbefore label

/-- In every run of threads that call the limiter with requests within its limit, every window
holds at most the limit all along the run, if each request that had to wait or was overtaken would
be let through by a second check when it is recorded; and only if, where the requests are recorded
in the order of their readings. -/
theorem windowEnforced_iff (tokensPerMinute : ℕ) (windowMinutes : ℤ) (clock : ℚ)
    {labels : List (Label ι)} (hlabels : ∀ l ∈ labels, l.Within tokensPerMinute) :
    let sys := start (.create tokensPerMinute windowMinutes) clock
    (AllSteps SharedLimiter.step RecordsWithRoom sys labels →
      ∀ before, before <+: labels → (run SharedLimiter.step sys before).WindowEnforced) ∧
    (AllSteps SharedLimiter.step RecordsInOrder sys labels →
      ((∀ before, before <+: labels → (run SharedLimiter.step sys before).WindowEnforced) ↔
        AllSteps SharedLimiter.step RecordsWithRoom sys labels)) := by
  intro sys
  have hsys : SoundWithin tokensPerMinute sys := ⟨sound_start rfl clock,rfl⟩
  have hfits := windowEnforced_iff_fits hsys bounded_nil hlabels
  have hkeep : ∀ (sys : SharedLimiter ι) (l : Label ι), l.Within tokensPerMinute →
      SoundWithin tokensPerMinute sys → SoundWithin tokensPerMinute (sys.step l) :=
    fun _ _ hlabel h => h.step hlabel
  have hsufficient : AllSteps SharedLimiter.step RecordsWithRoom sys labels →
      ∀ before, before <+: labels → (run SharedLimiter.step sys before).WindowEnforced := by
    intro hroom
    apply hfits.mpr
    refine AllSteps.imp (I := SoundWithin tokensPerMinute) hkeep ?_ hsys hlabels hroom
    intro sys label h
    exact h.1.recordFits
  refine ⟨hsufficient,?_⟩
  intro horder
  refine ⟨?_,hsufficient⟩
  intro henforced
  refine AllSteps.imp (I := SoundWithin tokensPerMinute) hkeep ?_ hsys hlabels
    (horder.and (hfits.mp henforced))
  rintro sys label - ⟨hlast,hfit⟩
  exact recordsWithRoom_of_fits hlast hfit

end

/-- A thread enters `wait_if_needed` with a request of so many tokens. -/
def entering (thread tokenCount : ℕ) : List (Label ℕ) :=
  [.call thread [⟨"user",some (String.ofList (List.replicate (4 * tokenCount) 'a'))⟩],
    .check thread]

def leaving (thread : ℕ) : List (Label ℕ) := [.wake thread,.record thread]

/-- The second request waits until the first has left the window. -/
def waitingRun : List (Label ℕ) :=
  entering 0 6 ++ leaving 0 ++ entering 1 5 ++ [.advance 60] ++ leaving 1

/-- A request of 5 waits for a record of 1 to leave the window and ends next to one of 9. -/
def overfullRun : List (Label ℕ) :=
  entering 0 1 ++ leaving 0 ++ [.advance 30] ++ entering 0 9 ++ leaving 0 ++ [.advance 1] ++
    entering 0 5 ++ [.advance 29] ++ leaving 0

open SharedLimiter in
theorem windowEnforced_waitingRun : (∀ l ∈ waitingRun, l.Within 10) ∧
    (AllSteps SharedLimiter.step RecordsInOrder (start (.create 10 1) 0) waitingRun ∧
      ∀ before, before <+: waitingRun →
        (run SharedLimiter.step (start (.create 10 1) 0) before).WindowEnforced) ∧
    ¬ AllSteps SharedLimiter.step RecordsWithRoom (start (.create 10 1) 0) overfullRun := by
  have hwithin : ∀ l ∈ waitingRun, l.Within 10 := by decide
  exact ⟨hwithin,⟨by decide +kernel,(windowEnforced_iff 10 1 0 hwithin).1 (by decide +kernel)⟩,
    by decide +kernel⟩

open SharedLimiter in
/-- The wait ends with the oldest record, and the limit is not checked again. -/
theorem windowEnforced_fails : (∀ l ∈ overfullRun, l.Within 10) ∧
    ¬(run SharedLimiter.step (start (.create 10 1) 0) overfullRun).WindowEnforced :=
  ⟨by decide +kernel,fun h => absurd (h 30) (by decide +kernel)⟩

end Podly.RateLimits
