import Mathlib.Data.List.Infix
import Typeahead.Proofs.Reconciliation
import Typeahead.Proofs.Run
import Typeahead.Proofs.Typing

/-!
# Runs of an engine

A run of an engine is a list of calls, each at a reading of the clock of its own, which may be any.  A
session does nothing to its engine but call it (`Console.turns_engine`), so what holds after every run of
an engine holds of the engine of a session too.
-/

namespace Typeahead

structure TimedCall (τ : Type) where
  now : τ
  op : EngineCall τ
deriving Repr, DecidableEq

namespace Engine

variable {τ : Type} [ClockTime τ]

def run (e : Engine τ) (c : Classifier) : List (TimedCall τ) → Engine τ × Effect
  | [] => (e, .none)
  | t :: rest =>
    let (e, shown) := (e.call c t.now t.op).2
    let (e, later) := e.run c rest
    (e, shown ++ later)

section
variable (c : Classifier)

theorem run_cons (e : Engine τ) (t : TimedCall τ) (rest : List (TimedCall τ)) : e.run c (t :: rest) =
    (((e.call c t.now t.op).2.1.run c rest).1,
      (e.call c t.now t.op).2.2 ++ ((e.call c t.now t.op).2.1.run c rest).2) := rfl

theorem run_single (e : Engine τ) (t : TimedCall τ) : e.run c [t] = (e.call c t.now t.op).2 := by
  simp [run]

theorem run_append (e : Engine τ) (first rest : List (TimedCall τ)) : e.run c (first ++ rest) =
    (((e.run c first).1.run c rest).1, (e.run c first).2 ++ ((e.run c first).1.run c rest).2) := by
  induction first generalizing e with
  | nil => simp [run]
  | cons t first ih => simp only [List.cons_append, run_cons, ih, Effect.append_assoc]

theorem run_snoc (e : Engine τ) (done : List (TimedCall τ)) (t : TimedCall τ) :
    (e.run c (done ++ [t])).1 = ((e.run c done).1.call c t.now t.op).2.1 := by
  rw [run_append, run_single]

/-- What every call keeps holds after every run. -/
theorem run_keeps {P : Engine τ → Prop}
    (hcall : ∀ (e : Engine τ) (t : TimedCall τ), P e → P (e.call c t.now t.op).2.1) :
    ∀ {e : Engine τ} (calls : List (TimedCall τ)), P e → P (e.run c calls).1
  | _, [], he => he
  | _, t :: rest, he => run_keeps hcall rest (hcall _ t he)

end

end Engine

/-! ## What a call leaves waiting -/

namespace Account

theorem step_queue_suffix (q : Text) (s : Segment) : (step q s).queue <:+ q := by
  cases s with
  | literal t =>
    simp only [step, literal_eq]
    split
    · exact List.drop_suffix _ _
    · exact List.nil_suffix
  | control t =>
    simp only [step, control]
    split
    · cases q with
      | nil => exact List.suffix_rfl
      | cons key q => exact List.suffix_cons _ _
    · exact List.suffix_rfl

theorem walk_queue_suffix (q : Text) (row : List Segment) : (walk q row).queue <:+ q := by
  induction row generalizing q with
  | nil => exact List.suffix_rfl
  | cons s row ih => exact (ih _).trans (step_queue_suffix q s)

end Account

namespace Engine

variable {τ : Type}

theorem write_pending_suffix (e : Engine τ) (c : Classifier) (chunk : Text) :
    (e.write c chunk).1.pending <:+ e.pending := by
  rw [(e.write_settles c chunk).pending]
  exact Account.walk_queue_suffix _ _

section
variable [ClockTime τ]

/-- What a call shows of keys. -/
def ahead (e : Engine τ) (t : TimedCall τ) : Text :=
  match t.op with
  | .echo input => (e.echo t.now input).2.shown
  | .type input => (e.typeKeys t.now input.codePoints).2.shown
  | _ => []

theorem typeKeys_pending (now : τ) : ∀ (keys : List Text) (e : Engine τ),
    (e.typeKeys now keys).1.pending = e.pending ++ (e.typeKeys now keys).2.shown
  | [], e => by simp [typeKeys]
  | key :: rest, e => by
    simp only [typeKeys, typeKeys_pending now rest, Effect.shown_append, echo_pending, echo_shown,
      List.append_assoc]

/-- A call takes keys from the front and shows new ones behind them. -/
theorem call_pending_suffix (e : Engine τ) (c : Classifier) (t : TimedCall τ) :
    (e.call c t.now t.op).2.1.pending <:+ e.pending ++ e.ahead t := by
  obtain ⟨now, op⟩ := t
  cases op with
  | echo input => simp [call, ahead]
  | type input => simp [call, ahead, typeKeys_pending]
  | write chunk => simpa [ahead, call] using e.write_pending_suffix c chunk
  | pause duration => exact List.nil_suffix
  | clear => exact List.nil_suffix
  | resume | isPaused | isEmpty | pending | diagnostics | resetDiagnostics | entryCount =>
    simp [ahead, call, resume, isPaused, resetDiagnostics, Engine.pending]

end

end Engine

/-! ## The calls of a session -/

namespace Session

def inputCalls (s : Session) (t : Text) : List (EngineCall Binary64) :=
  if s.active then
    if s.pauseOn.contains t then
      if s.engine.queue.isEmpty then [.pause s.pauseMillis] else []
    else [.echo t]
  else []

def outputCalls (s : Session) (chunk : Text) : List (EngineCall Binary64) :=
  if !s.active || s.engine.queue.isEmpty then [] else [.write chunk]

theorem react_engine (s : Session) (c : Classifier) (now : Binary64) (t : Text) :
    (s.react now t).1.engine = (s.engine.run c ((s.inputCalls t).map (⟨now, ·⟩))).1 := by
  unfold react inputCalls
  split
  · split
    · split <;> rfl
    · rfl
  · rfl

theorem receive_engine (s : Session) (c : Classifier) (now : Binary64) (chunk : Text) :
    (s.receive c chunk).1.engine = (s.engine.run c ((s.outputCalls chunk).map (⟨now, ·⟩))).1 := by
  unfold receive outputCalls
  split <;> rfl

end Session

namespace Console

def inputCalls (k : Console) (t : Text) : List (TimedCall Binary64) :=
  if k.session.disposed then [] else (k.session.inputCalls t).map (⟨k.clock, ·⟩)

def inputsCalls (k : Console) (c : Classifier) : List Text → List (TimedCall Binary64)
  | [] => []
  | key :: rest => k.inputCalls key ++ (k.input c .silent key).1.inputsCalls c rest

/-- The calls that a turn makes on the engine, the remote side staying silent. -/
def calls (k : Console) (c : Classifier) : Turn → List (TimedCall Binary64)
  | .call (.input t) => k.inputCalls t
  | .call (.type t) => k.inputsCalls c t.codePoints
  | .call (.output chunk) =>
    if k.session.disposed then [] else (k.session.outputCalls chunk).map (⟨k.clock, ·⟩)
  | .call (.setLocalEcho enabled) => if enabled then [] else [⟨k.clock, .clear⟩]
  | .call .clear => [⟨k.clock, .clear⟩]
  | .call (.engine op) => [⟨k.clock, op⟩]
  | .call .dispose | .call (.advance _) | .call .diagnostics | .clock _ => []

def callsAlong (k : Console) (c : Classifier) : List Turn → List (TimedCall Binary64)
  | [] => []
  | t :: rest => k.calls c t ++ (k.turn c .silent t).1.callsAlong c rest

section
variable (c : Classifier)

theorem input_engine (k : Console) (t : Text) :
    (k.input c .silent t).1.session.engine = (k.session.engine.run c (k.inputCalls t)).1 := by
  unfold input inputCalls
  split
  · rfl
  · exact k.session.react_engine c k.clock t

theorem inputs_engine : ∀ (keys : List Text) (k : Console),
    (k.inputs c .silent keys).1.session.engine = (k.session.engine.run c (k.inputsCalls c keys)).1
  | [], _ => rfl
  | key :: rest, k => by
    rw [inputsCalls, Engine.run_append, ← input_engine]
    exact inputs_engine rest _

theorem turn_engine {k : Console} (hk : k.Wired) (t : Turn) :
    (k.turn c .silent t).1.session.engine = (k.session.engine.run c (k.calls c t)).1 := by
  match t with
  | .call (.input t) => exact k.input_engine c t
  | .call (.type t) => exact inputs_engine c t.codePoints k
  | .call (.output chunk) =>
    simp only [turn, call, calls, output_eq_of_wired hk]
    split
    · rfl
    · exact k.session.receive_engine c k.clock chunk
  | .call (.setLocalEcho enabled) => cases enabled <;> rfl
  | .call .dispose =>
    simp only [turn, call, calls, dispose]
    split <;> rfl
  | .call (.engine op) => rw [calls, Engine.run_single]; rfl
  | .call .clear | .call (.advance _) | .call .diagnostics | .clock _ => rfl

/-- **A session only calls its engine.**  After any run the engine of the session is what the calls that
the turns make come to. -/
theorem turns_engine : ∀ {k : Console} (run : List Turn), k.Wired →
    (k.turns c .silent run).1.session.engine = (k.session.engine.run c (k.callsAlong c run)).1
  | _, [], _ => rfl
  | k, t :: rest, hk => by
    rw [callsAlong, Engine.run_append, ← turn_engine c hk]
    exact turns_engine rest (hk.turn c .silent t)

/-- The engine of a session that was just started, whatever the remote side answers at once. -/
theorem start_turns_engine (config : EchoConfig) (clock : Binary64) (remote : Remote) (run : List Turn) :
    ((start config clock).turns c remote run).1.session.engine =
      (Engine.fresh.run c ((start config clock).callsAlong c (run.flatMap (Turn.answered remote)))).1 := by
  have hk := start_wired config clock
  rw [turns_eq_answered c remote run hk, turns_engine c _ hk]
  rfl

end

end Console

end Typeahead
