import Typeahead.Screen
import Typeahead.Script.Step
import Typeahead.Session.Console

/-!
# Replay

Plays the steps of a script on a fresh console whose clock starts at zero, and gathers what a user
would have seen and what the remote side received.
-/

namespace Typeahead

structure Replay where
  writes : List Text
  display : Text
  diagnostics : Text
  pending : Text
  sent : List Text
deriving Repr, DecidableEq

namespace Console

def play (k : Console) : SessionStep → Console × Effect
  | .type data => k.inputs .standard .silent data.codePoints
  | .input data => k.input .standard .silent data
  | .output data => k.output .standard data
  | .wait millis => (k.advance millis, .none)
  | .pause millis => (k.onEngine .standard (.pause millis)).2
  | .clear => ({ k with session := k.session.clear }, .none)
  | .other => (k, .none)

def playAll (k : Console) : List SessionStep → Console × Effect
  | [] => (k, .none)
  | step :: rest =>
    let (k, shown) := k.play step
    let (k, later) := k.playAll rest
    (k, shown ++ later)

end Console

namespace Replay

def summary (steps writes pending : Nat) : Text :=
  Text.ofString "[replay] " ++ Text.digits 10 steps ++ Text.ofString " steps, " ++
    Text.digits 10 writes ++ Text.ofString " writes, " ++ Text.digits 10 pending ++
    Text.ofString " pending"

/-- Replays a script, and says what goes to the log. -/
def run (steps : List SessionStep) (config : EchoConfig) : Replay × List Text :=
  let (k, seen) := (Console.start config 0).playAll steps
  let k := k.dispose
  let pending := k.session.engine.pending
  (⟨seen.writes, renderScreen .standard seen.shown, k.session.engine.diagnostics, pending,
      k.channel.sent⟩,
    seen.log ++ [summary steps.length seen.writes.length pending.length])

end Replay

end Typeahead
