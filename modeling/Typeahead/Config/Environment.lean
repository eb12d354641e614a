import Typeahead.Data.Value

/-!
# The environment

Names and values from outside.  What was set first stays: variables that are added later do not
change it, not even where it is the empty text.
-/

namespace Typeahead

/-- Names and values; the first value of a name counts. -/
abbrev Environment := List (Text × Text)

namespace Environment

def get? (env : Environment) (name : String) : Option Text :=
  (env.find? fun e => e.1 == Text.ofString name).map (·.2)

def value? (env : Environment) (name : String) : Option Value :=
  match env.get? name with
  | some [] => none
  | some t => some (.text t)
  | none => none

/-- Adds variables that are not set yet; of two for one name the later counts. -/
def extend (env : Environment) (more : List (Text × Text)) : Environment := env ++ more.reverse

end Environment

end Typeahead
