/-!
# Clock time

What the pause gate needs to know about a clock: its readings can be compared, a time can be added
to a reading, and the time between two readings taken.
-/

namespace Typeahead

/-- The readings of a clock and the time between two of them. -/
class ClockTime (τ : Type) extends Add τ, Sub τ, Zero τ where
  before : τ → τ → Bool

end Typeahead
