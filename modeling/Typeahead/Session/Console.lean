import Typeahead.Session.Channel
import Typeahead.Session.Session

/-!
# The console

A session on its channel, with a clock that moves only when told to.  The remote side may answer
input at once, before sending it has returned; `Remote` tells what it answers with.
-/

namespace Typeahead

/-- Who listens to a channel: the session, or someone else by name. -/
inductive Party where
  | session
  | observer (name : Text)
deriving Repr, DecidableEq

/-- The chunks with which the remote side answers input at once. -/
abbrev Remote := Text → List Text

def Remote.silent : Remote := fun _ => []

def Remote.loopback : Remote := fun input => [input]

structure Console where
  session : Session
  channel : Channel Party
  clock : Binary64
deriving Repr, DecidableEq

namespace Console

def ear : Listener Party := ⟨.session, false⟩

def start (config : EchoConfig) (clock : Binary64) : Console :=
  ⟨.start config, Channel.fresh.subscribe ear, clock⟩

def hear (k : Console) (c : Classifier) (chunk : Text) : List Party → Console × Effect
  | [] => (k, .none)
  | .session :: rest =>
    let (session, shown) := k.session.receive c chunk
    let (k, later) := { k with session }.hear c chunk rest
    (k, shown ++ later)
  | .observer _ :: rest => k.hear c chunk rest

def output (k : Console) (c : Classifier) (chunk : Text) : Console × Effect :=
  let (channel, notified) := k.channel.emit
  { k with channel }.hear c chunk notified

def outputs (k : Console) (c : Classifier) : List Text → Console × Effect
  | [] => (k, .none)
  | chunk :: rest =>
    let (k, shown) := k.output c chunk
    let (k, later) := k.outputs c rest
    (k, shown ++ later)

/-- Input at the keyboard: shown ahead, sent, and perhaps answered at once. -/
def input (k : Console) (c : Classifier) (remote : Remote) (t : Text) : Console × Effect :=
  if k.session.disposed then (k, .logLine (Session.lateInput t))
  else
    let (session, shown) := k.session.react k.clock t
    let (k, later) := { k with session, channel := k.channel.send t }.outputs c (remote t)
    (k, shown ++ later)

def inputs (k : Console) (c : Classifier) (remote : Remote) : List Text → Console × Effect
  | [] => (k, .none)
  | key :: rest =>
    let (k, shown) := k.input c remote key
    let (k, later) := k.inputs c remote rest
    (k, shown ++ later)

/-- Ends the session: it leaves the channel for good. -/
def dispose (k : Console) : Console :=
  if k.session.disposed then k
  else { k with session := { k.session with disposed := true }, channel := k.channel.unsubscribe ear }

def advance (k : Console) (millis : Binary64) : Console := { k with clock := k.clock + millis }

def onEngine (k : Console) (c : Classifier) (op : EngineCall Binary64) : Answer × Console × Effect :=
  let (answer, engine, shown) := k.session.engine.call c k.clock op
  (answer, { k with session := { k.session with engine } }, shown)

end Console

inductive ConsoleCall where
  | input (t : Text)
  | type (t : Text)
  | output (chunk : Text)
  | setLocalEcho (enabled : Bool)
  | clear
  | dispose
  | advance (millis : Binary64)
  | diagnostics
  | engine (op : EngineCall Binary64)
deriving Repr, DecidableEq

namespace Console

def call (k : Console) (c : Classifier) (remote : Remote) : ConsoleCall → Answer × Console × Effect
  | .input t => (.nothing, k.input c remote t)
  | .type t => (.nothing, k.inputs c remote t.codePoints)
  | .output chunk => (.nothing, k.output c chunk)
  | .setLocalEcho enabled => (.nothing, { k with session := k.session.setLocalEcho enabled }, .none)
  | .clear => (.nothing, { k with session := k.session.clear }, .none)
  | .dispose => (.nothing, k.dispose, .none)
  | .advance millis => (.nothing, k.advance millis, .none)
  | .diagnostics => (.text k.session.engine.diagnostics, k, .none)
  | .engine op => k.onEngine c op

end Console

end Typeahead
