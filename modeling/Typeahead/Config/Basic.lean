import Typeahead.Number.Binary64
import Typeahead.Text

/-!
# Settings

The three settings of local echo, and their values when nobody sets them.
-/

namespace Typeahead

/-- Whether keys are shown at once, how many milliseconds a pause key holds echo back, and which
input is a pause key. -/
structure EchoConfig where
  localEcho : Bool
  pauseMillis : Binary64
  pauseOn : List Text
deriving Repr, DecidableEq

def EchoConfig.default : EchoConfig := ⟨true, .ofNat 500, []⟩

end Typeahead
