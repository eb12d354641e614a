import Typeahead.Control.Grammar

/-!
# Escaped text

Terminal text made readable on one line: backspace, line feed, carriage return and tab are written
with a letter, and every other control with its octal number, so `ESC [ K` shows as `\33[K`.  All
other text stands for itself.
-/

namespace Typeahead.Text

def escapedUnit (u : CodeUnit) : Text :=
  if u == Control.backspace then ofString "\\b"
  else if u == Control.lineFeed then ofString "\\n"
  else if u == Control.carriageReturn then ofString "\\r"
  else if u == 0x09 then ofString "\\t"
  else if u < 0x20 || u == Control.delete || Control.isC1 u then ofString "\\" ++ digits 8 u.toNat
  else [u]

def escaped (t : Text) : Text := t.flatMap escapedUnit

end Typeahead.Text
