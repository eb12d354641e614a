import Typeahead.Effect
import Typeahead.Echo.Mismatch
import Typeahead.Echo.PauseGate
import Typeahead.Echo.Queue

/-!
# The echo engine

Shows typed characters at once and holds them in a queue until the remote side sends them back.
`Engine.echo` shows a key; `Engine.write` takes output of the remote side, leaves out what is on
the display already and shows the rest.

Remote output may mix control spans into the text that it confirms.  The text between the spans is
matched against the queue; the spans are shown as they are, and only a backspace takes an entry off
the queue.
-/

namespace Typeahead

/-- The keys shown ahead, the gate that holds echo back, and the log of mismatches. -/
structure Engine (τ : Type) where
  queue : EchoQueue CodeUnit
  gate : PauseGate τ
  mismatches : MismatchLog
deriving Repr, DecidableEq

namespace Engine

variable {τ : Type}

def fresh : Engine τ := ⟨.empty, ⟨none⟩, .empty⟩

/-! ## Typing -/

/-- Keys that are shown at once: printable ASCII and backspace. -/
def isEchoed (u : CodeUnit) : Bool := (0x20 ≤ u && u ≤ 0x7E) || u == Control.backspace

def clear (e : Engine τ) : Engine τ := { e with queue := .empty }

section
variable [ClockTime τ]

def isPaused (e : Engine τ) (now : τ) : Bool × Engine τ :=
  let (closed, gate) := e.gate.isPaused now
  (closed, { e with gate })

/-- Shows a key and expects the remote side to send it back.  Longer input is a key sequence or a
paste and is left to the remote side. -/
def echo (e : Engine τ) (now : τ) (input : Text) : Engine τ × Effect :=
  match e.isPaused now with
  | (true, e) => (e, .none)
  | (false, e) =>
    match input with
    | [u] => if isEchoed u then ({ e with queue := e.queue.record u }, .write [u]) else (e, .none)
    | _ => (e, .none)

def pause (e : Engine τ) (now duration : τ) : Engine τ :=
  { e with gate := e.gate.pause now duration }.clear

def resume (e : Engine τ) : Engine τ := { e with gate := e.gate.resume }

end

/-! ## Remote output -/

def report (e : Engine τ) (m : Mismatch) : Engine τ × Effect :=
  ({ e with mismatches := e.mismatches.add m.entry }, .logLine (MismatchLog.notice m.entry))

/-- Takes entries off the queue for a literal text.  If they start the text, only what follows them
is shown; otherwise the queue is out of step, so it is emptied and the text shown whole.  The number
tells how many units of the text were confirmed. -/
def confirm (e : Engine τ) (literal : Text) : Nat × Engine τ × Effect :=
  let had := e.queue.front literal.length
  let e := { e with queue := e.queue.dropFront literal.length }
  if had == literal then (literal.length, e, .none)
  else if literal.startsWith had then (had.length, e, .write (literal.drop had.length))
  else
    let (e, line) := e.report ⟨literal, had⟩
    (0, e.clear, line ++ .write literal)

/-- Shows a control span.  A backspace takes an entry off the queue; if that entry was not the same
backspace typed here, the display is one column ahead of the remote side and steps back once more. -/
def passControl (e : Engine τ) (control : Text) : Engine τ × Effect :=
  if control == [Control.backspace] then
    match e.queue.pop? with
    | none => (e, .write control)
    | some (front, queue) =>
      ({ e with queue },
        if front == Control.backspace then .write control else .write control ++ .write control)
  else (e, .write control)

/-- Goes through the pieces of a chunk.  Once a literal text confirms nothing, the rest is shown as
it is. -/
def reconcile (e : Engine τ) : List Piece → Text → Engine τ × Effect
  | [], tail => (e.confirm tail).2
  | p :: rest, tail =>
    if p.literal.isEmpty then
      let (e, shown) := e.passControl p.control
      let (e, later) := e.reconcile rest tail
      (e, shown ++ later)
    else
      match e.confirm p.literal with
      | (0, e, first) => (e, first ++ .write (p.control ++ Cut.join ⟨rest, tail⟩))
      | (_ + 1, e, first) =>
        let (e, shown) := e.passControl p.control
        let (e, later) := e.reconcile rest tail
        (e, first ++ shown ++ later)

/-- Shows a chunk of remote output, less what it confirms. -/
def write (e : Engine τ) (c : Classifier) (chunk : Text) : Engine τ × Effect :=
  e.reconcile (c.cut chunk).pieces (c.cut chunk).tail

/-! ## Questions -/

def pending (e : Engine τ) : Text := e.queue.toList

def diagnostics (e : Engine τ) : Text := e.mismatches.text

def resetDiagnostics (e : Engine τ) : Engine τ := { e with mismatches := .empty }

end Engine

inductive Answer where
  | nothing
  | flag (b : Bool)
  | count (n : Nat)
  | text (t : Text)
  | keys (t : Text)
deriving Repr, DecidableEq

inductive EngineCall (τ : Type) where
  | echo (input : Text)
  | type (input : Text)
  | write (chunk : Text)
  | pause (duration : τ)
  | resume
  | isPaused
  | clear
  | isEmpty
  | pending
  | diagnostics
  | resetDiagnostics
  | entryCount
deriving Repr, DecidableEq

namespace Engine

variable {τ : Type} [ClockTime τ]

def typeKeys (e : Engine τ) (now : τ) : List Text → Engine τ × Effect
  | [] => (e, .none)
  | key :: rest =>
    let (e, shown) := e.echo now key
    let (e, later) := e.typeKeys now rest
    (e, shown ++ later)

def call (e : Engine τ) (c : Classifier) (now : τ) : EngineCall τ → Answer × Engine τ × Effect
  | .echo input => (.nothing, e.echo now input)
  | .type input => (.nothing, e.typeKeys now input.codePoints)
  | .write chunk => (.nothing, e.write c chunk)
  | .pause duration => (.nothing, e.pause now duration, .none)
  | .resume => (.nothing, e.resume, .none)
  | .isPaused => let (closed, e) := e.isPaused now; (.flag closed, e, .none)
  | .clear => (.nothing, e.clear, .none)
  | .isEmpty => (.flag e.queue.isEmpty, e, .none)
  | .pending => (.keys e.pending, e, .none)
  | .diagnostics => (.text e.diagnostics, e, .none)
  | .resetDiagnostics => (.nothing, e.resetDiagnostics, .none)
  | .entryCount => (.count e.mismatches.count, e, .none)

end Engine

end Typeahead
