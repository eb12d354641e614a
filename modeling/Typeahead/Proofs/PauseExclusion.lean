import Mathlib.Data.List.Infix
import Typeahead.Proofs.ByteAccuracy
import Typeahead.Proofs.EngineRun

/-!
# Pauses and waiting keys exclude each other

While a key waits to be confirmed no deadline is set (`Engine.Exclusive`): a key is shown only after the
gate has been found open, which takes the deadline away, and setting a deadline forgets all keys.  So as
long as a deadline stays set nothing waits, no key shows or leaves anything, and output is shown as it comes.
No property of the clock is needed; its readings may be any at all.
-/

namespace Typeahead

namespace Engine

variable {τ : Type}

def Exclusive (e : Engine τ) : Prop := e.pending ≠ [] → e.gate.deadline = none

theorem Exclusive.of_nil {e : Engine τ} (h : e.pending = []) : e.Exclusive := fun hq => absurd h hq

theorem Exclusive.pending_of_set {e : Engine τ} (h : e.Exclusive) (hg : e.gate.deadline ≠ none) :
    e.pending = [] :=
  Classical.byContradiction fun hq => hg (h hq)

theorem Exclusive.write {e : Engine τ} (h : e.Exclusive) (c : Classifier) (chunk : Text) :
    (e.write c chunk).1.Exclusive := by
  by_cases hq : e.pending = []
  · rw [write_fst_of_nil hq]
    exact h
  · intro _
    rw [(e.write_settles c chunk).engine]
    exact h hq

/-- The deadline stays set along the steps, `after` giving the engine that some of them leave: the gate neither
expires nor is resumed. -/
def StaysShut {α : Type} (after : List α → Engine τ) (steps : List α) : Prop :=
  ∀ done, done <+: steps → done ≠ [] → (after done).gate.deadline ≠ none

theorem StaysShut.set_of_prefix {α : Type} {after : List α → Engine τ} {steps done : List α}
    (h : StaysShut after steps) (hset : (after []).gate.deadline ≠ none) (hd : done <+: steps) :
    (after done).gate.deadline ≠ none := by
  by_cases hnil : done = []
  · rw [hnil]
    exact hset
  · exact h done hd hnil

section
variable [ClockTime τ]

theorem echo_gate (e : Engine τ) (now : τ) (input : Text) :
    (e.echo now input).1.gate = (e.gate.isPaused now).2 := by
  rw [echo_eq]

theorem Exclusive.echo {e : Engine τ} (h : e.Exclusive) (now : τ) (input : Text) :
    (e.echo now input).1.Exclusive := by
  rcases e.gate.isPaused_cases now with ⟨_, hp⟩ | hp
  · rw [echo_of_shut hp]
    exact h
  · intro _
    rw [echo_gate, hp]
    rfl

theorem Exclusive.typeKeys : ∀ {e : Engine τ} (now : τ) (keys : List Text), e.Exclusive →
    (e.typeKeys now keys).1.Exclusive
  | _, _, [], h => h
  | _, now, key :: rest, h => Exclusive.typeKeys now rest (h.echo now key)

theorem Exclusive.isPaused {e : Engine τ} (h : e.Exclusive) (now : τ) : (e.isPaused now).2.Exclusive := by
  simp only [Engine.isPaused]
  rcases e.gate.isPaused_cases now with ⟨_, hp⟩ | hp
  · rw [hp]
    exact h
  · intro _
    rw [hp]
    rfl

theorem Exclusive.call {e : Engine τ} (h : e.Exclusive) (c : Classifier) (now : τ) (op : EngineCall τ) :
    (e.call c now op).2.1.Exclusive := by
  cases op with
  | echo input => exact h.echo now input
  | type input => exact Exclusive.typeKeys now input.codePoints h
  | write chunk => exact h.write c chunk
  | isPaused => exact h.isPaused now
  | pause duration => exact .of_nil rfl
  | clear => exact .of_nil rfl
  | resume => exact fun _ => rfl
  | isEmpty | pending | diagnostics | resetDiagnostics | entryCount => exact h

theorem run_exclusive {e : Engine τ} (h : e.Exclusive) (c : Classifier) (calls : List (TimedCall τ)) :
    (e.run c calls).1.Exclusive :=
  run_keeps c (P := Exclusive) (fun _ t h => h.call c t.now t.op) calls h

/-! ## While the deadline stays set -/

structure PassesOn (e : Engine τ) (c : Classifier) (t : TimedCall τ) : Prop where
  pending : e.pending = []
  keys : ∀ input, t.op = .echo input ∨ t.op = .type input → (e.call c t.now t.op).2 = (e, .none)
  chunk : ∀ chunk, t.op = .write chunk → (e.call c t.now t.op).2.1 = e ∧
    (e.call c t.now t.op).2.2.shown = chunk ∧ (e.call c t.now t.op).2.2.log = []

theorem typeKeys_of_shut {e : Engine τ} {now : τ} (h : e.gate.isPaused now = (true, e.gate)) (keys : List Text) :
    e.typeKeys now keys = (e, .none) := by
  induction keys with
  | nil => rfl
  | cons key rest ih => simp [typeKeys, echo_of_shut h, ih]

theorem echo_of_set {e : Engine τ} {now : τ} {input : Text} (h : (e.echo now input).1.gate.deadline ≠ none) :
    e.echo now input = (e, .none) := by
  rcases e.gate.isPaused_cases now with ⟨_, hp⟩ | hp
  · exact echo_of_shut hp input
  · exact absurd (by rw [echo_gate, hp]; rfl) h

theorem typeKeys_gate_of_open (now : τ) : ∀ {e : Engine τ} (keys : List Text), e.gate = .opened →
    (e.typeKeys now keys).1.gate = .opened
  | _, [], h => h
  | e, key :: rest, h => by
    have hkey : (e.echo now key).1.gate = .opened := by rw [echo_gate, h]; rfl
    exact typeKeys_gate_of_open now rest hkey

theorem typeKeys_of_set {e : Engine τ} {now : τ} {keys : List Text}
    (h : (e.typeKeys now keys).1.gate.deadline ≠ none) : e.typeKeys now keys = (e, .none) := by
  rcases e.gate.isPaused_cases now with ⟨_, hp⟩ | hp
  · exact typeKeys_of_shut hp keys
  · cases keys with
    | nil => rfl
    | cons key rest =>
      -- the first key opens the gate, and no key sets a deadline
      have hkey : (e.echo now key).1.gate = .opened := by rw [echo_gate, hp]
      exact absurd (congrArg PauseGate.deadline (typeKeys_gate_of_open now rest hkey)) h

theorem passesOn_of_set {e : Engine τ} (he : e.Exclusive) (hset : e.gate.deadline ≠ none) {c : Classifier}
    {t : TimedCall τ} (h : (e.call c t.now t.op).2.1.gate.deadline ≠ none) : e.PassesOn c t where
  pending := he.pending_of_set hset
  keys input ht := by
    rcases ht with ht | ht
    · rw [ht] at h ⊢
      exact echo_of_set h
    · rw [ht] at h ⊢
      exact typeKeys_of_set h
  chunk chunk ht := by
    have hq := he.pending_of_set hset
    have hw := write_settles_of_nil hq c chunk
    rw [ht]
    exact ⟨write_fst_of_nil hq c chunk, hw.shown, hw.log⟩

theorem deadline_of_isPaused {e : Engine τ} {now : τ} (h : (e.isPaused now).1 = true) :
    e.gate.deadline ≠ none := by
  rcases e.gate.isPaused_cases now with ⟨hset, _⟩ | hp
  · exact hset
  · simp [isPaused, hp] at h

theorem StaysShut.passesOn {e : Engine τ} {c : Classifier} {calls done : List (TimedCall τ)} (he : e.Exclusive)
    (hset : e.gate.deadline ≠ none) (h : StaysShut (fun done => (e.run c done).1) calls) (hd : done <+: calls) :
    (e.run c done).1.pending = [] ∧ ∀ t, done ++ [t] <+: calls → (e.run c done).1.PassesOn c t := by
  have he' := run_exclusive he c done
  have hset' := h.set_of_prefix hset hd
  refine ⟨he'.pending_of_set hset', fun t ht => passesOn_of_set he' hset' ?_⟩
  rw [← run_snoc]
  exact h.set_of_prefix hset ht

end

end Engine

/-! ## Sessions -/

theorem Session.react_of_set {s : Session} {now : Binary64} {t : Text}
    (h : (s.react now t).1.engine.gate.deadline ≠ none) : (s.react now t).2 = .none := by
  unfold react at h ⊢
  split
  · rename_i hactive
    rw [if_pos hactive] at h
    split
    · split <;> rfl
    · rename_i hkey
      rw [if_neg hkey] at h
      exact congrArg Prod.snd (Engine.echo_of_set h)
  · rfl

namespace Console

theorem turns_exclusive {k : Console} (hk : k.Wired) (he : k.session.engine.Exclusive) (c : Classifier)
    (run : List Turn) : (k.turns c .silent run).1.session.engine.Exclusive := by
  rw [turns_engine c run hk]
  exact Engine.run_exclusive he c _

theorem start_turns_exclusive (config : EchoConfig) (clock : Binary64) (c : Classifier) (remote : Remote)
    (run : List Turn) : ((start config clock).turns c remote run).1.session.engine.Exclusive := by
  rw [start_turns_engine]
  exact Engine.run_exclusive (.of_nil rfl) c _

structure PassesOn (k : Console) (c : Classifier) (t : Turn) : Prop where
  pending : k.session.engine.pending = []
  input : ∀ s, t = .call (.input s) → (k.turn c .silent t).2.writes = []
  output : ∀ chunk, t = .call (.output chunk) → k.session.disposed = false →
    (k.turn c .silent t).1 = k ∧ (k.turn c .silent t).2.shown = chunk ∧ (k.turn c .silent t).2.log = []
  engine : ∀ op, t = .call (.engine op) → k.session.engine.PassesOn c ⟨k.clock, op⟩

theorem input_writes_of_set {k : Console} (c : Classifier) {s : Text}
    (h : (k.input c .silent s).1.session.engine.gate.deadline ≠ none) : (k.input c .silent s).2.writes = [] := by
  cases hd : k.session.disposed with
  | true => simp [input, hd, Effect.logLine]
  | false =>
    rw [input_silent hd] at h ⊢
    exact congrArg Effect.writes (Session.react_of_set h)

theorem passesOn_of_set {k : Console} (hk : k.Wired) (he : k.session.engine.Exclusive)
    (hset : k.session.engine.gate.deadline ≠ none) {c : Classifier} {t : Turn}
    (h : (k.turn c .silent t).1.session.engine.gate.deadline ≠ none) : k.PassesOn c t where
  pending := he.pending_of_set hset
  input s ht := by
    subst ht
    exact input_writes_of_set c h
  output chunk ht hd := by
    have hempty : k.session.engine.queue.isEmpty = true := List.isEmpty_iff.mpr (he.pending_of_set hset)
    simp [ht, turn, call, output_eq_of_wired hk, hd, Session.receive, hempty]
  engine op ht := by
    subst ht
    exact Engine.passesOn_of_set he hset h

theorem passesOn_of_staysShut {k : Console} (hk : k.Wired) (he : k.session.engine.Exclusive) {c : Classifier}
    {run done : List Turn} (hset : k.session.engine.gate.deadline ≠ none)
    (h : Engine.StaysShut (fun done => (k.turns c .silent done).1.session.engine) run) (hd : done <+: run) :
    (k.turns c .silent done).1.session.engine.pending = [] ∧
      ∀ t, done ++ [t] <+: run → (k.turns c .silent done).1.PassesOn c t := by
  have he' := turns_exclusive hk he c done
  have hset' := h.set_of_prefix hset hd
  refine ⟨he'.pending_of_set hset', fun t ht => passesOn_of_set (hk.turns c .silent done) he' hset' ?_⟩
  rw [← turns_snoc]
  exact h.set_of_prefix hset ht

end Console

/-- **Pauses and waiting keys exclude each other.**  After every run of an engine or of a session, whatever
the clock reads, no deadline is set while keys wait.  So from a state in which the gate answers that it is
shut, and until it expires or is resumed, nothing waits, keys show and leave nothing, and output is shown as
it comes, without a mismatch. -/
theorem waiting_keys_exclude_pause {τ : Type} [ClockTime τ] (c : Classifier) :
    (∀ calls : List (TimedCall τ),
      let e := ((Engine.fresh : Engine τ).run c calls).1
      (e.pending ≠ [] → e.gate.deadline = none) ∧
      ∀ now later, (e.isPaused now).1 = true → Engine.StaysShut (fun done => (e.run c done).1) later →
        ∀ done, done <+: later → (e.run c done).1.pending = [] ∧
          ∀ t, done ++ [t] <+: later → (e.run c done).1.PassesOn c t) ∧
    ∀ config clock remote run,
      let k := ((Console.start config clock).turns c remote run).1
      (k.session.engine.pending ≠ [] → k.session.engine.gate.deadline = none) ∧
      ∀ now run', (k.session.engine.isPaused now).1 = true →
        let later := List.flatMap (Console.Turn.answered remote) run'
        Engine.StaysShut (fun done => (k.turns c .silent done).1.session.engine) later →
        ∀ done, done <+: later → (k.turns c .silent done).1.session.engine.pending = [] ∧
          ∀ t, done ++ [t] <+: later → (k.turns c .silent done).1.PassesOn c t := by
  constructor
  · intro calls e
    have he : e.Exclusive := Engine.run_exclusive (.of_nil rfl) c calls
    exact ⟨he, fun now later hp hshut done hd => hshut.passesOn he (Engine.deadline_of_isPaused hp) hd⟩
  · intro config clock remote run k
    have he : k.session.engine.Exclusive := Console.start_turns_exclusive config clock c remote run
    have hk : k.Wired := (Console.start_wired config clock).turns c remote run
    refine ⟨he, fun now run' hp => ?_⟩
    intro later hshut done hd
    exact Console.passesOn_of_staysShut hk he (Engine.deadline_of_isPaused hp) hshut hd

def pausingCalls : List (TimedCall Binary64) :=
  [⟨0, .echo [0x61]⟩, ⟨0, .write [0x61, 0x21]⟩, ⟨.ofNat 9, .pause (.ofNat 500)⟩]

def pausedCalls : List (TimedCall Binary64) :=
  [⟨.ofNat 400, .echo [0x62]⟩, ⟨0, .pause (.ofNat 10)⟩, ⟨.ofNat 9, .type [0x63, 0x08]⟩, ⟨0, .write [0x62, 0x08]⟩]

def pausingTurns : List Console.Turn := [.call (.type [0x61, 0x62]), .call (.input [0x0D])]

def pausedTurns : List Console.Turn :=
  [.clock (.ofNat 499), .call (.type [0x62, 0x0D]), .clock 0, .call (.engine (.echo [0x63])),
    .call (.output [0x08, 0x64])].flatMap (Console.Turn.answered .loopback)

def shutEngine : Engine Binary64 := (Engine.fresh.run .standard pausingCalls).1

def shutConsole : Console := ((Console.start Console.returnPauses 0).turns .standard .loopback pausingTurns).1

theorem waiting_keys_exclude_pause_clock_back :
    ((shutEngine.isPaused (.ofNat 400)).1 = true ∧
      Engine.StaysShut (fun done => (shutEngine.run .standard done).1) pausedCalls ∧
      (shutEngine.run .standard pausedCalls).1.pending = []) ∧
    (shutConsole.session.engine.isPaused (.ofNat 499)).1 = true ∧
      Engine.StaysShut (fun done => (shutConsole.turns .standard .silent done).1.session.engine) pausedTurns ∧
      (shutConsole.turns .standard .silent pausedTurns).1.session.engine.pending = [] := by
  have hcalls : Engine.StaysShut (fun done => (shutEngine.run .standard done).1) pausedCalls := by
    have h : ∀ done ∈ pausedCalls.inits, done ≠ [] →
        (shutEngine.run .standard done).1.gate.deadline ≠ none := by decide +kernel
    exact fun done hd => h done ((List.mem_inits _ _).mpr hd)
  have hturns : Engine.StaysShut (fun done => (shutConsole.turns .standard .silent done).1.session.engine)
      pausedTurns := by
    have h : ∀ done ∈ pausedTurns.inits, done ≠ [] →
        (shutConsole.turns .standard .silent done).1.session.engine.gate.deadline ≠ none := by decide +kernel
    exact fun done hd => h done ((List.mem_inits _ _).mpr hd)
  have hengine : (shutEngine.isPaused (.ofNat 400)).1 = true := by decide +kernel
  have hsession : (shutConsole.session.engine.isPaused (.ofNat 499)).1 = true := by decide +kernel
  obtain ⟨hruns, hsessions⟩ := waiting_keys_exclude_pause (τ := Binary64) .standard
  exact ⟨⟨hengine, hcalls, ((hruns pausingCalls).2 _ _ hengine hcalls _ List.prefix_rfl).1⟩,
    hsession, hturns, ((hsessions Console.returnPauses 0 .loopback pausingTurns).2 _ _ hsession hturns _
      List.prefix_rfl).1⟩

end Typeahead
