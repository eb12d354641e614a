import Typeahead.Text

/-!
# The channel to the remote side

A channel records what is sent and hands each chunk of output to its listeners, in the order in
which they subscribed.  A listener may leave while it is being notified; one that has left before
its turn is not notified.
-/

namespace Typeahead

/-- A listener; one that listens once leaves the channel when it is notified. -/
structure Listener (ι : Type) where
  name : ι
  once : Bool
deriving Repr, DecidableEq

/-- The listeners, in order of subscription, and everything sent so far. -/
structure Channel (ι : Type) where
  listeners : List (Listener ι)
  sent : List Text
deriving Repr, DecidableEq

namespace Channel

variable {ι : Type}

def fresh : Channel ι := ⟨[], []⟩

def send (c : Channel ι) (input : Text) : Channel ι := { c with sent := c.sent ++ [input] }

section
variable [DecidableEq ι]

/-- Adds a listener at the end.  One that listens already keeps its place. -/
def subscribe (c : Channel ι) (l : Listener ι) : Channel ι :=
  if l ∈ c.listeners then c else { c with listeners := c.listeners ++ [l] }

def unsubscribe (c : Channel ι) (l : Listener ι) : Channel ι :=
  { c with listeners := c.listeners.filter (· ≠ l) }

/-- Gives each listener of the list its turn, and says who was notified. -/
def notify (c : Channel ι) : List (Listener ι) → Channel ι × List ι
  | [] => (c, [])
  | l :: rest =>
    if l ∈ c.listeners then
      let (c, later) := (if l.once then c.unsubscribe l else c).notify rest
      (c, l.name :: later)
    else c.notify rest

/-- Hands a chunk to the listeners of this moment, and says who was notified, in order. -/
def emit (c : Channel ι) : Channel ι × List ι := c.notify c.listeners

end

end Channel

end Typeahead
