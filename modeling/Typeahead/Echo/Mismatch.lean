import Typeahead.Text.Escaped

/-!
# Mismatches

When the remote side does not confirm what was shown ahead, a line is kept for an operator to read
later.  The log of these lines only grows, until it is emptied on purpose.
-/

namespace Typeahead

/-- Text from the remote side that does not agree with what was shown ahead of it. -/
structure Mismatch where
  received : Text
  had : Text
deriving Repr, DecidableEq

def Mismatch.entry (m : Mismatch) : Text :=
  Text.ofString "Received: '" ++ m.received.escaped ++ Text.ofString "' Had: '" ++ m.had.escaped ++
    Text.ofString "'"

structure MismatchLog where
  entries : List Text
deriving Repr, DecidableEq

namespace MismatchLog

def empty : MismatchLog := ⟨[]⟩

def add (l : MismatchLog) (entry : Text) : MismatchLog := ⟨l.entries ++ [entry]⟩

def count (l : MismatchLog) : Nat := l.entries.length

def text (l : MismatchLog) : Text := Text.unlines l.entries

def notice (entry : Text) : Text := Text.ofString "[local-echo] " ++ entry

end MismatchLog

end Typeahead
