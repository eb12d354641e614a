import Typeahead.Cli.Style
import Typeahead.Json.Writer
import Typeahead.Replay
import Typeahead.Text.Escaped

/-!
# Reports

What is printed about a replay: all of it as JSON, or the display as it was or the writes as readable
text, and after that the mismatches and the keys that were never confirmed.
-/

namespace Typeahead

open Text (ofString)

inductive ReportForm where
  | display
  | raw
  | json
deriving Repr, DecidableEq

namespace Replay

def toValue (r : Replay) : Value :=
  .record [(ofString "writes", .list (r.writes.map .text)), (ofString "display", .text r.display),
    (ofString "diagnostics", .text r.diagnostics),
    (ofString "pending", .list (r.pending.map fun u => .text [u])),
    (ofString "sent", .list (r.sent.map .text))]

def rawParts (coloured : Bool) (r : Replay) : List Text :=
  r.writes.map fun t => Style.gray.paint coloured (ofString "» ") ++ t.escaped

def mismatchParts (coloured : Bool) (r : Replay) : List Text :=
  if r.diagnostics.isEmpty then []
  else
    Style.yellow.paint coloured (ofString "\nLocal echo mismatches:") ::
      r.diagnostics.lines.map fun line => Style.yellow.paint coloured (ofString "  " ++ line)

def pendingParts (coloured : Bool) (r : Replay) : List Text :=
  if r.pending.isEmpty then []
  else
    [Style.dim.paint coloured (ofString "\n" ++ Text.digits 10 r.pending.length ++
      ofString " echoed character(s) never confirmed: '" ++ r.pending.escaped ++ ofString "'")]

/-- The parts of a report, each of which is printed with a line feed after it. -/
def reportParts (form : ReportForm) (coloured : Bool) (r : Replay) : List Text :=
  match form with
  | .json => [Json.indented r.toValue]
  | .raw => r.rawParts coloured ++ r.mismatchParts coloured ++ r.pendingParts coloured
  | .display => r.display :: r.mismatchParts coloured ++ r.pendingParts coloured

def report (form : ReportForm) (coloured : Bool) (r : Replay) : Text :=
  (r.reportParts form coloured).flatMap (· ++ [0x0A])

end Replay

end Typeahead
