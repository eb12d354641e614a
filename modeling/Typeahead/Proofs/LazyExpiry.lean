import Mathlib.Algebra.Order.Ring.Rat
import Mathlib.Data.List.Induction
import Mathlib.Tactic.Linarith
import Typeahead.Proofs.Typing

/-!
# Expiry without a timer

A gate forgets its deadline only when it is looked at.  On a clock that never goes back this cannot be told
from a gate that opens at the deadline itself: from any moment on the gate answers what the last pause before
it says, if no resume came since (`PauseGate.Tracks`).  Looking at the gate keeps this, so looks change no
later answer.  Times are exact numbers here, and the values beside them that are no numbers.
-/

namespace Typeahead

/-! ## Clocks that never go back -/

namespace ClockTime

variable {τ : Type} [ClockTime τ]

/-- Every deadline that is still to come at the later reading is still to come at the earlier one. -/
def NoEarlier (now later : τ) : Prop := ∀ deadline, before later deadline = true → before now deadline = true

theorem NoEarlier.refl (now : τ) : NoEarlier now now := fun _ h => h

theorem NoEarlier.trans {a b d : τ} (h : NoEarlier a b) (h' : NoEarlier b d) : NoEarlier a d :=
  fun deadline hd => h deadline (h' deadline hd)

end ClockTime

open ClockTime (before NoEarlier)

/-- What the gate relies on: no time at all makes no deadline, time that passes brings no deadline back, and
what is left to a deadline is more than nothing. -/
class SteadyClock (τ : Type) [ClockTime τ] : Prop where
  before_add_zero : ∀ now : τ, before now (now + 0) = false
  noEarlier_add : ∀ now time : τ, time = 0 ∨ before 0 time = true → NoEarlier now (now + time)
  before_sub : ∀ now deadline : τ, before now deadline = true → before 0 (deadline - now) = true

/-- A time as an exact number, or one of the values that are no numbers. -/
inductive ExactTime where
  | nan
  | infinity (negative : Bool)
  | finite (x : Rat)
deriving DecidableEq

namespace ExactTime

def neg : ExactTime → ExactTime
  | nan => nan
  | infinity s => infinity !s
  | finite x => finite (-x)

def add : ExactTime → ExactTime → ExactTime
  | nan, _ => nan
  | _, nan => nan
  | infinity s, infinity t => if s == t then infinity s else nan
  | infinity s, _ => infinity s
  | _, infinity t => infinity t
  | finite x, finite y => finite (x + y)

def less : ExactTime → ExactTime → Bool
  | nan, _ => false
  | _, nan => false
  | infinity s, infinity t => s && !t
  | infinity s, _ => s
  | _, infinity t => !t
  | finite x, finite y => decide (x < y)

instance : Add ExactTime := ⟨add⟩
instance : Sub ExactTime := ⟨fun a b => add a (neg b)⟩
instance : Zero ExactTime := ⟨finite 0⟩
instance : ClockTime ExactTime := ⟨less⟩

theorem add_def (a b : ExactTime) : a + b = add a b := rfl

theorem sub_def (a b : ExactTime) : a - b = add a (neg b) := rfl

theorem zero_def : (0 : ExactTime) = finite 0 := rfl

theorem add_zero (a : ExactTime) : a + 0 = a := by
  cases a <;> simp [add_def, zero_def, add]

theorem less_irrefl (a : ExactTime) : less a a = false := by
  cases a with
  | infinity s => cases s <;> rfl
  | nan => rfl
  | finite x => simp [less]

theorem less_of_less_add {now time deadline : ExactTime} (htime : less 0 time = true)
    (h : less (now + time) deadline = true) : less now deadline = true := by
  rw [zero_def] at htime
  rw [add_def] at h
  rcases now with _ | s | x
  · cases h
  · rcases time with _ | t | y
    · cases htime
    · cases t <;> cases s <;> simp_all [add, less]
    · exact h
  · rcases time with _ | t | y
    · cases htime
    · cases t <;> rcases deadline with _ | r | z <;> simp_all [add, less]
    · rcases deadline with _ | r | z
      · cases h
      · exact h
      · simp only [less, add, decide_eq_true_eq] at h htime ⊢
        linarith

theorem less_zero_sub {now deadline : ExactTime} (h : less now deadline = true) :
    less 0 (deadline - now) = true := by
  rw [zero_def, sub_def]
  rcases now with _ | s | x
  · cases h
  · rcases deadline with _ | r | z
    · cases h
    · cases s <;> cases r <;> simp_all [less, add, neg]
    · simpa [less, add, neg] using h
  · rcases deadline with _ | r | z
    · cases h
    · simpa [less, add, neg] using h
    · simp only [less, add, neg, decide_eq_true_eq] at h ⊢
      linarith

instance : SteadyClock ExactTime where
  before_add_zero now := by
    rw [add_zero]
    exact less_irrefl now
  noEarlier_add now time htime deadline h := by
    rcases htime with rfl | htime
    · rwa [add_zero] at h
    · exact less_of_less_add htime h
  before_sub _ _ h := less_zero_sub h

end ExactTime

/-! ## Traces of a gate -/

namespace PauseGate

inductive Call (τ : Type) where
  | pause (duration : τ)
  | resume
  | isPaused
  | remaining
  | advance (time : τ)
deriving DecidableEq

structure Timed (τ : Type) where
  gate : PauseGate τ
  now : τ

def Call.asks {τ : Type} : Call τ → Bool
  | .isPaused | .remaining => true
  | _ => false

def Call.sets {τ : Type} : Call τ → Bool
  | .pause _ | .resume => true
  | _ => false

section
variable {τ : Type} [ClockTime τ]

def Call.goesOn [DecidableEq τ] : Call τ → Bool
  | .advance time => time == 0 || before 0 time
  | _ => true

def Timed.step (s : Timed τ) : Call τ → Timed τ
  | .pause duration => { s with gate := s.gate.pause s.now duration }
  | .resume => { s with gate := s.gate.resume }
  | .isPaused => { s with gate := (s.gate.isPaused s.now).2 }
  | .remaining => { s with gate := (s.gate.remaining s.now).2 }
  | .advance time => { s with now := s.now + time }

def after (start : τ) (trace : List (Call τ)) : Timed τ := trace.foldl Timed.step ⟨.opened, start⟩

theorem after_snoc (start : τ) (trace : List (Call τ)) (call : Call τ) :
    after start (trace ++ [call]) = (after start trace).step call := by
  rw [after, List.foldl_append]
  rfl

theorem remaining_snd (g : PauseGate τ) (now : τ) : (g.remaining now).2 = (g.isPaused now).2 := by
  unfold remaining
  split <;> rename_i h <;> rw [h]

theorem remaining_of_open {g : PauseGate τ} {now : τ} (h : (g.isPaused now).1 = false) :
    (g.remaining now).1 = 0 := by
  rcases g.isPaused_cases now with ⟨_, hp⟩ | hp
  · rw [hp] at h
    cases h
  · simp [remaining, hp]

theorem remaining_of_shut {g : PauseGate τ} {now deadline : τ} (h : (g.isPaused now).1 = true)
    (hd : g.deadline = some deadline) : (g.remaining now).1 = deadline - now := by
  rcases g.isPaused_cases now with ⟨_, hp⟩ | hp
  · simp [remaining, hp, hd]
  · rw [hp] at h
    cases h

theorem isPaused_set (deadline now : τ) : ((⟨some deadline⟩ : PauseGate τ).isPaused now).1 = before now deadline := by
  cases h : before now deadline <;> simp [isPaused, h]

theorem isPaused_of_noEarlier {g : PauseGate τ} {now later : τ} (hle : NoEarlier now later)
    (h : (g.isPaused later).1 = true) : (g.isPaused now).1 = true := by
  obtain ⟨_ | deadline⟩ := g
  · cases h
  · rw [isPaused_set] at h ⊢
    exact hle deadline h

theorem look_eq_of_shut {g : PauseGate τ} {now later : τ} (h : ((g.isPaused now).2.isPaused later).1 = true) :
    (g.isPaused now).2 = g := by
  rcases g.isPaused_snd now with hsame | hopened
  · exact hsame
  · rw [hopened] at h
    cases h

/-- A look at the gate changes no answer at this or any later reading. -/
theorem isPaused_look {g : PauseGate τ} {now later : τ} (hle : NoEarlier now later) :
    ((g.isPaused now).2.isPaused later).1 = (g.isPaused later).1 := by
  rcases g.isPaused_cases now with ⟨_, hp⟩ | hp
  · rw [hp]
  · rw [hp]
    refine (Bool.eq_false_iff.mpr fun hlater => ?_).symm
    have hnow := isPaused_of_noEarlier hle hlater
    rw [hp] at hnow
    cases hnow

/-! ## The last pause of a trace -/

/-- The last pause of a trace, if no resume follows it: when it was made and for how long. -/
def LastPause (start : τ) (trace : List (Call τ)) (began duration : τ) : Prop :=
  ∃ done rest, trace = done ++ .pause duration :: rest ∧ began = (after start done).now ∧
    ∀ call ∈ rest, call.sets = false

theorem not_lastPause_nil (start began duration : τ) : ¬ LastPause start [] began duration := by
  rintro ⟨done, rest, h, _⟩
  cases done <;> cases h

theorem lastPause_snoc {start began duration : τ} {trace : List (Call τ)} {call : Call τ} :
    LastPause start (trace ++ [call]) began duration ↔
      call = .pause duration ∧ began = (after start trace).now ∨
      call.sets = false ∧ LastPause start trace began duration := by
  constructor
  · rintro ⟨done, rest, htrace, hbegan, hrest⟩
    rcases List.eq_nil_or_concat rest with rfl | ⟨rest', last, rfl⟩
    · obtain ⟨rfl, hcall⟩ := List.append_inj' htrace rfl
      exact Or.inl ⟨List.singleton_inj.mp hcall, hbegan⟩
    · rw [List.concat_eq_append, ← List.cons_append, ← List.append_assoc] at htrace
      obtain ⟨rfl, hcall⟩ := List.append_inj' htrace rfl
      obtain rfl := List.singleton_inj.mp hcall
      have hlast : call.sets = false := hrest call (by simp)
      exact Or.inr ⟨hlast, done, rest', rfl, hbegan, fun c hc => hrest c (by simp [hc])⟩
  · rintro (⟨rfl, rfl⟩ | ⟨hcall, done, rest, rfl, hbegan, hrest⟩)
    · exact ⟨trace, [], rfl, rfl, List.forall_mem_nil _⟩
    · refine ⟨done, rest ++ [call], by simp, hbegan, fun c hc => ?_⟩
      rcases List.mem_append.mp hc with hc | hc
      · exact hrest c hc
      · exact List.mem_singleton.mp hc ▸ hcall

def Shut (start : τ) (trace : List (Call τ)) (now : τ) : Prop :=
  ∃ began duration, LastPause start trace began duration ∧ before 0 duration = true ∧
    before now (began + duration) = true

/-- From now on the gate answers as the trace tells, and while it is shut its deadline is the one the trace
tells. -/
structure Tracks (start : τ) (trace : List (Call τ)) (s : Timed τ) : Prop where
  shut : ∀ later, NoEarlier s.now later → ((s.gate.isPaused later).1 = true ↔ Shut start trace later)
  deadline : ∀ later began duration, NoEarlier s.now later → (s.gate.isPaused later).1 = true →
    LastPause start trace began duration → s.gate.deadline = some (began + duration)

theorem tracks_nil (start : τ) : Tracks start [] (after start []) where
  shut later _ := by
    constructor
    · intro h
      cases h
    · rintro ⟨began, duration, h, _⟩
      exact absurd h (not_lastPause_nil start began duration)
  deadline _ began duration _ _ h := absurd h (not_lastPause_nil start began duration)

section
variable {start : τ} {trace : List (Call τ)}

theorem lastPause_snoc_of_not_sets {began duration : τ} {call : Call τ} (hcall : call.sets = false) :
    LastPause start (trace ++ [call]) began duration ↔ LastPause start trace began duration := by
  rw [lastPause_snoc, or_iff_right, and_iff_right hcall]
  rintro ⟨rfl, _⟩
  cases hcall

theorem shut_snoc_of_not_sets {now : τ} {call : Call τ} (hcall : call.sets = false) :
    Shut start (trace ++ [call]) now ↔ Shut start trace now := by
  simp only [Shut, lastPause_snoc_of_not_sets hcall]

theorem Tracks.look {s : Timed τ} (h : Tracks start trace s) {call : Call τ} (hcall : call.sets = false) :
    Tracks start (trace ++ [call]) { s with gate := (s.gate.isPaused s.now).2 } where
  shut later hlater := by
    rw [shut_snoc_of_not_sets hcall, isPaused_look hlater]
    exact h.shut later hlater
  deadline later began duration hlater hshut hlast := by
    have hsame := look_eq_of_shut hshut
    rw [hsame] at hshut ⊢
    exact h.deadline later began duration hlater hshut ((lastPause_snoc_of_not_sets hcall).mp hlast)

theorem Tracks.pause [SteadyClock τ] {s : Timed τ} (hs : s.now = (after start trace).now) (duration : τ) :
    Tracks start (trace ++ [.pause duration]) { s with gate := s.gate.pause s.now duration } := by
  have hlast (began duration' : τ) : LastPause start (trace ++ [.pause duration]) began duration' ↔
      duration = duration' ∧ began = s.now := by
    rw [lastPause_snoc, hs, Call.pause.injEq]
    exact or_iff_left fun h => by cases h.1
  by_cases hd : before 0 duration = true
  · have hgate : s.gate.pause s.now duration = ⟨some (s.now + duration)⟩ := by rw [PauseGate.pause, if_pos hd]
    rw [hgate]
    constructor
    · intro later _
      rw [isPaused_set]
      constructor
      · intro h
        exact ⟨s.now, duration, (hlast _ _).mpr ⟨rfl, rfl⟩, hd, h⟩
      · rintro ⟨began, duration', h, _, hlater⟩
        obtain ⟨rfl, rfl⟩ := (hlast _ _).mp h
        exact hlater
    · intro later began duration' _ _ h
      obtain ⟨rfl, rfl⟩ := (hlast _ _).mp h
      rfl
  · have hgate : s.gate.pause s.now duration = ⟨some (s.now + 0)⟩ := by rw [PauseGate.pause, if_neg hd]
    -- the deadline is now, and now has come
    have hopen (later : τ) (hlater : NoEarlier s.now later) :
        ¬ ((⟨some (s.now + 0)⟩ : PauseGate τ).isPaused later).1 = true := by
      rw [isPaused_set]
      intro h
      have hnow := hlater _ h
      rw [SteadyClock.before_add_zero] at hnow
      cases hnow
    rw [hgate]
    constructor
    · intro later hlater
      refine iff_of_false (hopen later hlater) ?_
      rintro ⟨began, duration', h, hd', _⟩
      obtain ⟨rfl, rfl⟩ := (hlast _ _).mp h
      exact hd hd'
    · intro later began duration' hlater h _
      exact absurd h (hopen later hlater)

theorem Tracks.resume (s : Timed τ) : Tracks start (trace ++ [.resume]) { s with gate := s.gate.resume } where
  shut later _ := by
    refine iff_of_false (fun h => by cases h) ?_
    rintro ⟨began, duration, h, _⟩
    rcases lastPause_snoc.mp h with ⟨hcall, _⟩ | ⟨hsets, _⟩
    · cases hcall
    · cases hsets
  deadline _ _ _ _ h _ := by cases h

theorem Tracks.advance [SteadyClock τ] {s : Timed τ} (h : Tracks start trace s) {time : τ}
    (htime : time = 0 ∨ before 0 time = true) :
    Tracks start (trace ++ [.advance time]) { s with now := s.now + time } where
  shut later hlater := by
    rw [shut_snoc_of_not_sets rfl]
    exact h.shut later ((SteadyClock.noEarlier_add s.now time htime).trans hlater)
  deadline later began duration hlater hshut hlast := by
    have hle := (SteadyClock.noEarlier_add s.now time htime).trans hlater
    exact h.deadline later began duration hle hshut ((lastPause_snoc_of_not_sets rfl).mp hlast)

theorem tracks_after [SteadyClock τ] [DecidableEq τ] (htrace : ∀ call ∈ trace, call.goesOn = true) :
    Tracks start trace (after start trace) := by
  induction trace using List.reverseRecOn with
  | nil => exact tracks_nil start
  | append_singleton trace call ih =>
    obtain ⟨hdone, hcall⟩ := List.forall_mem_append.mp htrace
    have hcall := hcall call (List.mem_singleton_self call)
    have h := ih hdone
    rw [after_snoc]
    cases call with
    | pause duration => exact Tracks.pause rfl duration
    | resume => exact Tracks.resume _
    | isPaused => exact h.look rfl
    | remaining =>
      rw [Timed.step, remaining_snd]
      exact h.look rfl
    | advance time =>
      simp only [Call.goesOn, Bool.or_eq_true, beq_iff_eq] at hcall
      exact h.advance hcall

/-! ## Looks change no answer -/

theorem after_filter_now (start : τ) (trace : List (Call τ)) :
    (after start (trace.filter (!·.asks))).now = (after start trace).now := by
  induction trace using List.reverseRecOn with
  | nil => rfl
  | append_singleton trace call ih =>
    rw [List.filter_append, after_snoc]
    cases call with
    | isPaused | remaining =>
      rw [List.filter_cons_of_neg (by simp [Call.asks]), List.filter_nil, List.append_nil, ih]
      rfl
    | pause duration | resume =>
      rw [List.filter_cons_of_pos (by rfl), List.filter_nil, after_snoc]
      exact ih
    | advance time =>
      rw [List.filter_cons_of_pos (by rfl), List.filter_nil, after_snoc]
      exact congrArg (· + time) ih

theorem lastPause_filter {began duration : τ} :
    LastPause start (trace.filter (!·.asks)) began duration ↔ LastPause start trace began duration := by
  induction trace using List.reverseRecOn with
  | nil => rfl
  | append_singleton trace call ih =>
    rw [List.filter_append]
    by_cases hasks : call.asks = true
    · have hsets : call.sets = false := by cases call <;> trivial
      rw [List.filter_cons_of_neg (by simp [hasks]), List.filter_nil, List.append_nil, ih,
        lastPause_snoc_of_not_sets hsets]
    · rw [List.filter_cons_of_pos (by simp [hasks]), List.filter_nil, lastPause_snoc, lastPause_snoc, ih,
        after_filter_now]

theorem lastPause_of_filter_eq {others : List (Call τ)} {began duration : τ}
    (h : others.filter (!·.asks) = trace.filter (!·.asks)) :
    LastPause start others began duration ↔ LastPause start trace began duration := by
  rw [← lastPause_filter, h, lastPause_filter]

theorem after_now_of_filter_eq {others : List (Call τ)} (h : others.filter (!·.asks) = trace.filter (!·.asks)) :
    (after start others).now = (after start trace).now := by
  rw [← after_filter_now, h, after_filter_now]

theorem goesOn_of_filter_eq [DecidableEq τ] {others : List (Call τ)}
    (h : others.filter (!·.asks) = trace.filter (!·.asks)) (htrace : ∀ call ∈ trace, call.goesOn = true) :
    ∀ call ∈ others, call.goesOn = true := by
  intro call hcall
  by_cases hasks : call.asks = true
  · cases call <;> trivial
  · have hmem : call ∈ others.filter (!·.asks) := List.mem_filter.mpr ⟨hcall, by simpa using hasks⟩
    rw [h] at hmem
    exact htrace call (List.mem_filter.mp hmem).1

end

/-! ## The answers of a gate -/

section
variable {start : τ} {trace : List (Call τ)} {s : Timed τ}

theorem Tracks.isPaused_iff (h : Tracks start trace s) :
    (s.gate.isPaused s.now).1 = true ↔ Shut start trace s.now :=
  h.shut s.now (NoEarlier.refl s.now)

theorem Tracks.remaining_shut (h : Tracks start trace s) (hshut : Shut start trace s.now) {began duration : τ}
    (hlast : LastPause start trace began duration) : (s.gate.remaining s.now).1 = began + duration - s.now := by
  have hpaused := h.isPaused_iff.mpr hshut
  exact remaining_of_shut hpaused (h.deadline s.now began duration (NoEarlier.refl s.now) hpaused hlast)

theorem Tracks.remaining_open (h : Tracks start trace s) (hshut : ¬ Shut start trace s.now) :
    (s.gate.remaining s.now).1 = 0 :=
  remaining_of_open (Bool.eq_false_iff.mpr (mt h.isPaused_iff.mp hshut))

end

end

/-- A gate says it is paused exactly if its last pause, with no resume since, was for a positive duration that
has not yet passed.  The time it says is left is then positive and runs to the end of that duration, and is none
otherwise.  So asking the gate, however often and whenever, changes no answer. -/
theorem lazy_expiry_unobservable (start : ExactTime) (trace : List (Call ExactTime))
    (htrace : ∀ call ∈ trace, call.goesOn = true) :
    let s := after start trace
    ((s.gate.isPaused s.now).1 = true ↔ Shut start trace s.now) ∧
    (∀ began duration, LastPause start trace began duration → before 0 duration = true →
      before s.now (began + duration) = true →
      (s.gate.remaining s.now).1 = began + duration - s.now ∧ before 0 (s.gate.remaining s.now).1 = true) ∧
    (¬ Shut start trace s.now → (s.gate.remaining s.now).1 = 0) ∧
    ∀ others : List (Call ExactTime), others.filter (!·.asks) = trace.filter (!·.asks) →
      let s' := after start others
      s'.now = s.now ∧ (s'.gate.isPaused s'.now).1 = (s.gate.isPaused s.now).1 ∧
      (s'.gate.remaining s'.now).1 = (s.gate.remaining s.now).1 := by
  intro s
  have h : Tracks start trace s := tracks_after htrace
  refine ⟨h.isPaused_iff, fun began duration hlast hd hbefore => ?_, h.remaining_open, fun others hothers => ?_⟩
  · rw [h.remaining_shut ⟨began, duration, hlast, hd, hbefore⟩ hlast]
    exact ⟨rfl, SteadyClock.before_sub _ _ hbefore⟩
  · intro s'
    have h' : Tracks start others s' := tracks_after (goesOn_of_filter_eq hothers htrace)
    have hnow : s'.now = s.now := after_now_of_filter_eq hothers
    have hsame : Shut start others s'.now ↔ Shut start trace s.now := by
      rw [hnow]
      simp only [Shut, lastPause_of_filter_eq hothers]
    refine ⟨hnow, Bool.eq_iff_iff.mpr ((h'.isPaused_iff.trans hsame).trans h.isPaused_iff.symm), ?_⟩
    by_cases hshut : Shut start trace s.now
    · obtain ⟨began, duration, hlast, -⟩ := id hshut
      rw [h.remaining_shut hshut hlast, ← hnow]
      exact h'.remaining_shut (hsame.mpr hshut) ((lastPause_of_filter_eq hothers).mpr hlast)
    · rw [h.remaining_open hshut, h'.remaining_open (mt hsame.mp hshut)]

/-- The second pause ends ten after the first twenty have passed, though the first would have lasted for fifty. -/
theorem lazy_expiry_unobservable_shortenedPause :
    let trace : List (Call ExactTime) :=
      [.pause (.finite 50), .advance (.finite 20), .isPaused, .pause (.finite 10), .advance (.finite 9), .remaining]
    let s := after (.finite 0) trace
    let unasked := after (.finite 0) (trace.filter (!·.asks))
    (∀ call ∈ trace, call.goesOn = true) ∧
    LastPause (.finite 0) trace (.finite 20) (.finite 10) ∧
    (s.gate.isPaused s.now).1 = true ∧ (s.gate.remaining s.now).1 = .finite 1 ∧
    (unasked.gate.remaining unasked.now).1 = .finite 1 := by
  intro trace s unasked
  have hgoesOn : ∀ call ∈ trace, call.goesOn = true := by decide +kernel
  have hlast : LastPause (.finite 0) trace (.finite 20) (.finite 10) :=
    ⟨[.pause (.finite 50), .advance (.finite 20), .isPaused], [.advance (.finite 9), .remaining], rfl,
      by decide +kernel, by decide +kernel⟩
  have hbefore : before s.now (.finite 20 + .finite 10) = true := by decide +kernel
  obtain ⟨hpaused, hremaining, -, hasks⟩ := lazy_expiry_unobservable (.finite 0) trace hgoesOn
  have hleft : (s.gate.remaining s.now).1 = .finite 1 := by
    rw [(hremaining _ _ hlast (by decide +kernel) hbefore).1]
    decide +kernel
  have hsame := (hasks (trace.filter (!·.asks)) (by decide +kernel)).2.2
  exact ⟨hgoesOn, hlast, hpaused.mpr ⟨_, _, hlast, by decide +kernel, hbefore⟩, hleft, hsame.trans hleft⟩

end PauseGate

end Typeahead
