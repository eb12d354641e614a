import Typeahead.Text

/-!
# Effects

What an operation lets the outside see.  Operations are functions to a new state and an effect; the
effect of several operations is the effects put one after the other.
-/

namespace Typeahead

/-- Fragments for the display and lines of the program's log, each in order. -/
structure Effect where
  writes : List Text
  log : List Text
deriving Repr, DecidableEq

namespace Effect

def none : Effect := ⟨[], []⟩

def write (t : Text) : Effect := ⟨[t], []⟩

def logLine (t : Text) : Effect := ⟨[], [t]⟩

instance : Append Effect where
  append a b := ⟨a.writes ++ b.writes, a.log ++ b.log⟩

@[simp] theorem append_writes (a b : Effect) : (a ++ b).writes = a.writes ++ b.writes := rfl

@[simp] theorem append_log (a b : Effect) : (a ++ b).log = a.log ++ b.log := rfl

theorem append_assoc (a b c : Effect) : a ++ b ++ c = a ++ (b ++ c) := by
  show Effect.mk _ _ = Effect.mk _ _
  simp

@[simp] theorem none_append (a : Effect) : none ++ a = a := rfl

@[simp] theorem append_none (a : Effect) : a ++ none = a := by
  show Effect.mk _ _ = a
  simp [none]

def shown (e : Effect) : Text := e.writes.flatten

@[simp] theorem shown_none : none.shown = [] := rfl

@[simp] theorem shown_write (t : Text) : (write t).shown = t := by simp [shown, write]

@[simp] theorem shown_logLine (t : Text) : (logLine t).shown = [] := rfl

@[simp] theorem log_none : none.log = [] := rfl

@[simp] theorem log_write (t : Text) : (write t).log = [] := rfl

@[simp] theorem log_logLine (t : Text) : (logLine t).log = [t] := rfl

@[simp] theorem shown_append (a b : Effect) : (a ++ b).shown = a.shown ++ b.shown := by
  simp [shown]

end Effect

end Typeahead
