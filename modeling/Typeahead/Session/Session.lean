import Typeahead.Config.Basic
import Typeahead.Echo.Engine

/-!
# Sessions

A session stands between the keyboard, the remote side and the display.  Keys are shown ahead by
its engine unless echo is switched off; output of the remote side goes through the engine only
while something waits to be confirmed.
-/

namespace Typeahead

/-- An engine and the settings under which keys reach it. -/
structure Session where
  engine : Engine Binary64
  pauseMillis : Binary64
  pauseOn : List Text
  active : Bool
  disposed : Bool
deriving Repr, DecidableEq

namespace Session

def start (config : EchoConfig) : Session :=
  ⟨.fresh, config.pauseMillis, config.pauseOn, config.localEcho, false⟩

/-- What typing shows on this side.  A pause key holds echo back, but not while keys wait to be
confirmed: they would be shown again when the remote side sends them. -/
def react (s : Session) (now : Binary64) (input : Text) : Session × Effect :=
  if s.active then
    if s.pauseOn.contains input then
      if s.engine.queue.isEmpty then
        ({ s with engine := s.engine.pause now s.pauseMillis }, .none)
      else (s, .none)
    else
      let (engine, shown) := s.engine.echo now input
      ({ s with engine }, shown)
  else (s, .none)

def receive (s : Session) (c : Classifier) (chunk : Text) : Session × Effect :=
  if !s.active || s.engine.queue.isEmpty then (s, .write chunk)
  else
    let (engine, shown) := s.engine.write c chunk
    ({ s with engine }, shown)

/-- Switches echo on or off.  Switching it off forgets what was shown ahead. -/
def setLocalEcho (s : Session) (enabled : Bool) : Session :=
  { s with engine := if enabled then s.engine else s.engine.clear, active := enabled }

def clear (s : Session) : Session := { s with engine := s.engine.clear }

def lateInput (input : Text) : Text :=
  Text.ofString "[echo-session] dropping input after dispose: '" ++ input.escaped ++ Text.ofString "'"

end Session

end Typeahead
