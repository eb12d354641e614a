import Mathlib.Data.List.Induction
import Mathlib.Data.List.Infix
import Typeahead.Control.Grammar
import Typeahead.Number.Binary64
import Typeahead.Proofs.Reconciliation
import Typeahead.Proofs.Typing

/-!
# Faithful confirmation

Keys are typed and remote output arrives in any order.  A chunk confirms the units of its literals, and
a backspace with each of its backspace spans.  As long as what was confirmed starts what was typed, the
queue is the rest of what was typed, and of the chunks nothing is shown but their control spans.
-/

namespace Typeahead

namespace Segment

/-- What a segment confirms if the remote side sends back the keys that it gets. -/
def confirms : Segment → Text
  | .literal t => t
  | .control t => if t = [Control.backspace] then t else []

def confirmed (row : List Segment) : Text := row.flatMap confirms

@[simp] theorem confirmed_nil : confirmed [] = [] := rfl

@[simp] theorem confirmed_cons (s : Segment) (row : List Segment) :
    confirmed (s :: row) = s.confirms ++ confirmed row := rfl

end Segment

namespace Account

theorem step_confirms (s : Segment) (q : Text) :
    step (s.confirms ++ q) s = ⟨q, Segment.controls [s], []⟩ := by
  cases s with
  | literal t => simp [step, literal_eq, Segment.confirms, Segment.controls]
  | control t =>
    simp only [step, control, Segment.confirms, Segment.controls, List.append_nil]
    by_cases ht : t = [Control.backspace]
    · simp [ht]
    · simp [ht]

theorem walk_confirmed (row : List Segment) (q : Text) :
    walk (Segment.confirmed row ++ q) row = ⟨q, Segment.controls row, []⟩ := by
  induction row with
  | nil => rfl
  | cons s row ih =>
    rw [Segment.confirmed_cons, List.append_assoc, walk, step_confirms, ih]
    cases s <;> simp [andThen, Segment.controls]

end Account

namespace Engine

inductive Turn (τ : Type) where
  | key (now : τ) (input : Text)
  | chunk (t : Text)
deriving Repr, DecidableEq

namespace Turn

variable {τ : Type}

def typed : Turn τ → Text
  | .key _ input => keyOf input
  | .chunk _ => []

def confirmed (c : Classifier) : Turn τ → Text
  | .key _ _ => []
  | .chunk t => Segment.confirmed (c.segments t)

def controls (c : Classifier) : Turn τ → Text
  | .key _ _ => []
  | .chunk t => (c.spans t).flatMap Span.value

end Turn

structure Exchange (τ : Type) where
  engine : Engine τ
  ahead : Text
  shown : Text

section
variable {τ : Type}

def typed (turns : List (Turn τ)) : Text := turns.flatMap Turn.typed

def confirmed (c : Classifier) (turns : List (Turn τ)) : Text := turns.flatMap (Turn.confirmed c)

/-- After each chunk, what was confirmed starts what was typed. -/
def Faithful (c : Classifier) (turns : List (Turn τ)) : Prop :=
  ∀ done t, done ++ [.chunk t] <+: turns →
    confirmed c (done ++ [.chunk t]) <+: typed (done ++ [.chunk t])

theorem Faithful.of_prefix {c : Classifier} {done turns : List (Turn τ)} (h : Faithful c turns)
    (hd : done <+: turns) : Faithful c done :=
  fun done' t hp => h done' t (hp.trans hd)

end

section
variable {τ : Type} [ClockTime τ]

def Exchange.turn (c : Classifier) (x : Exchange τ) : Turn τ → Exchange τ
  | .key now input =>
    let (engine, effect) := x.engine.echo now input
    { x with engine, ahead := x.ahead ++ effect.shown }
  | .chunk t =>
    let (engine, effect) := x.engine.write c t
    { x with engine, shown := x.shown ++ effect.shown }

def exchange (c : Classifier) (e : Engine τ) (turns : List (Turn τ)) : Exchange τ :=
  turns.foldl (Exchange.turn c) ⟨e, [], []⟩

theorem exchange_snoc (c : Classifier) (e : Engine τ) (turns : List (Turn τ)) (t : Turn τ) :
    exchange c e (turns ++ [t]) = (exchange c e turns).turn c t := by
  simp [exchange]

def OpenAt (g : PauseGate τ) (turns : List (Turn τ)) : Prop :=
  ∀ now input, .key now input ∈ turns → (g.isPaused now).1 = false

theorem OpenAt.of_prefix {g : PauseGate τ} {done turns : List (Turn τ)} (h : OpenAt g turns)
    (hd : done <+: turns) : OpenAt g done :=
  fun now input hin => h now input (hd.subset hin)

/-! ## What a turn keeps -/

structure InStep (c : Classifier) (e : Engine τ) (done : List (Turn τ)) (x : Exchange τ) : Prop where
  pending : typed done = confirmed c done ++ x.engine.pending
  mismatches : x.engine.mismatches = e.mismatches
  shown : x.shown = done.flatMap (Turn.controls c)
  ahead : x.ahead = typed done
  gate : x.engine.gate = e.gate ∨ x.engine.gate = .opened

theorem InStep.key {c : Classifier} {e : Engine τ} {done : List (Turn τ)} {x : Exchange τ}
    (h : InStep c e done x) {now : τ} {input : Text} (ho : (e.gate.isPaused now).1 = false) :
    InStep c e (done ++ [.key now input]) (x.turn c (.key now input)) := by
  have hopen : (x.engine.gate.isPaused now).1 = false := by
    rcases h.gate with hg | hg
    · rw [hg]; exact ho
    · rw [hg]; rfl
  have hkey := keyAt_of_open hopen input
  have htyped : typed (done ++ [.key now input]) = typed done ++ keyOf input := by
    simp [typed, Turn.typed]
  have hconf : confirmed c (done ++ [.key now input]) = confirmed c done := by
    simp [confirmed, Turn.confirmed]
  constructor
  · rw [htyped, hconf, h.pending]
    simp [Exchange.turn, hkey]
  · simp [Exchange.turn, echo_eq, h.mismatches]
  · simp [Exchange.turn, h.shown, Turn.controls]
  · rw [htyped]
    simp [Exchange.turn, hkey, h.ahead]
  · simp only [Exchange.turn, echo_eq]
    rcases x.engine.gate.isPaused_snd now with hg | hg
    · rw [hg]; exact h.gate
    · exact Or.inr hg

theorem InStep.chunk {c : Classifier} {e : Engine τ} {done : List (Turn τ)} {x : Exchange τ}
    (h : InStep c e done x) {t : Text}
    (hc : confirmed c (done ++ [.chunk t]) <+: typed (done ++ [.chunk t])) :
    InStep c e (done ++ [.chunk t]) (x.turn c (.chunk t)) := by
  have htyped : typed (done ++ [.chunk t]) = typed done := by
    simp [typed, Turn.typed]
  have hconf : confirmed c (done ++ [.chunk t]) = confirmed c done ++ Segment.confirmed (c.segments t) := by
    simp [confirmed, Turn.confirmed]
  rw [htyped, hconf, h.pending, List.prefix_append_right_inj] at hc
  obtain ⟨rest, hrest⟩ := hc
  have hw := x.engine.write_settles c t
  rw [← hrest, Account.walk_confirmed, Classifier.controls_segments] at hw
  constructor
  · rw [htyped, hconf, h.pending, ← hrest, List.append_assoc]
    simp only [Exchange.turn, hw.pending]
  · simp [Exchange.turn, hw.engine, h.mismatches]
  · simp [Exchange.turn, hw.shown, h.shown, Turn.controls]
  · rw [htyped]
    exact h.ahead
  · simp only [Exchange.turn, hw.engine]
    exact h.gate

/-! ## Whole exchanges -/

theorem exchange_inStep {c : Classifier} {e : Engine τ} (hq : e.pending = []) {turns : List (Turn τ)}
    (ho : OpenAt e.gate turns) (hf : Faithful c turns) : InStep c e turns (exchange c e turns) := by
  induction turns using List.reverseRecOn with
  | nil => exact ⟨by simp [typed, confirmed, exchange, hq], rfl, rfl, rfl, Or.inl rfl⟩
  | append_singleton done t ih =>
    have hd : done <+: done ++ [t] := List.prefix_append _ _
    have h := ih (ho.of_prefix hd) (hf.of_prefix hd)
    rw [exchange_snoc]
    cases t with
    | key now input => exact h.key (ho now input (by simp))
    | chunk t => exact h.chunk (hf done t List.prefix_rfl)

/-- **The queue follows the confirmation.**  If what was confirmed always starts what was typed, then at
every point the keys that wait are what was typed less what was confirmed, no mismatch was found, and
the chunks showed their control spans, each once and as it came. -/
theorem pending_follows_confirmation (c : Classifier) (e : Engine τ) (hq : e.pending = [])
    (turns : List (Turn τ)) (ho : OpenAt e.gate turns) (hf : Faithful c turns) :
    ∀ done, done <+: turns →
      typed done = confirmed c done ++ (exchange c e done).engine.pending ∧
      (exchange c e done).engine.mismatches = e.mismatches ∧
      (exchange c e done).shown = done.flatMap (Turn.controls c) ∧
      (exchange c e done).ahead = typed done := by
  intro done hd
  have h := exchange_inStep hq (ho.of_prefix hd) (hf.of_prefix hd)
  exact ⟨h.pending, h.mismatches, h.shown, h.ahead⟩

end

def mixedExchange : List (Turn Binary64) :=
  [.key 0 [0x61], .key 0 [0x62], .key 0 [0x08], .chunk [0x61, 0x07, 0x62], .key 0 [0x63],
    .chunk [0x08, 0x1B, 0x5B, 0x4B, 0x63]]

theorem pending_follows_confirmation_mixed :
    (fresh : Engine Binary64).pending = [] ∧ OpenAt (fresh : Engine Binary64).gate mixedExchange ∧
      Faithful .standard mixedExchange ∧
      (exchange .standard fresh mixedExchange).shown = mixedExchange.flatMap (Turn.controls .standard) := by
  have hopen : OpenAt (fresh : Engine Binary64).gate mixedExchange := fun _ _ _ => rfl
  have hfaithful : Faithful .standard mixedExchange := by
    have h : ∀ done ∈ mixedExchange.inits, confirmed .standard done <+: typed done := by decide +kernel
    exact fun done t hp => h _ ((List.mem_inits _ _).mpr hp)
  exact ⟨rfl, hopen, hfaithful,
    (pending_follows_confirmation .standard fresh rfl mixedExchange hopen hfaithful _ List.prefix_rfl).2.2.1⟩

end Engine

end Typeahead
