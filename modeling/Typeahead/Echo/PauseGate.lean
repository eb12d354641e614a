import Typeahead.ClockTime

/-!
# The pause gate

Holds back local echo until a deadline.  There is no timer: the first look at the gate at or after
the deadline opens it, so every question also answers with the gate as it is afterwards.
-/

namespace Typeahead

/-- A gate that is open, or closed up to a deadline. -/
structure PauseGate (τ : Type) where
  deadline : Option τ
deriving Repr, DecidableEq

namespace PauseGate

variable {τ : Type} [ClockTime τ]

def opened : PauseGate τ := ⟨none⟩

/-- Closes the gate for a time from now on.  A time that is not positive closes it for no time. -/
def pause (_ : PauseGate τ) (now duration : τ) : PauseGate τ :=
  ⟨some (now + if ClockTime.before 0 duration then duration else 0)⟩

def isPaused (g : PauseGate τ) (now : τ) : Bool × PauseGate τ :=
  match g.deadline with
  | none => (false, g)
  | some deadline => if ClockTime.before now deadline then (true, g) else (false, opened)

def remaining (g : PauseGate τ) (now : τ) : τ × PauseGate τ :=
  match g.isPaused now with
  | (true, g) => (match g.deadline with | some deadline => deadline - now | none => 0, g)
  | (false, g) => (0, g)

def resume (_ : PauseGate τ) : PauseGate τ := opened

end PauseGate

end Typeahead
