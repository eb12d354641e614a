import Typeahead.Control.Grammar

/-!
# The screen

Plays terminal text onto rows of cells and gives the text that a user would have seen.  Characters
go into the cell under the cursor; backspace, carriage return, line feed and erasing to the end of
the row act on the cursor and the row, and every other control span is dropped.
-/

namespace Typeahead

abbrev Cell := Text

/-- A screen: the finished rows, the row of the cursor, and the cursor's column in it. -/
structure Screen where
  above : List (List Cell)
  row : List Cell
  column : Nat
deriving Repr, DecidableEq

namespace Screen

def blank : Screen := ⟨[], [], 0⟩

/-- Puts a character under the cursor and moves one column right.  If the cursor stands beyond the
end of the row, spaces fill the gap. -/
def put (s : Screen) (c : Cell) : Screen :=
  let padded := s.row ++ List.replicate (s.column - s.row.length) [0x20]
  { s with row := padded.take s.column ++ c :: padded.drop (s.column + 1), column := s.column + 1 }

def putText (s : Screen) (t : Text) : Screen := t.codePoints.foldl put s

def back (s : Screen) : Screen := { s with column := s.column - 1 }

def home (s : Screen) : Screen := { s with column := 0 }

def newRow (s : Screen) : Screen := ⟨s.above ++ [s.row], [], 0⟩

def eraseToEnd (s : Screen) : Screen := { s with row := s.row.take s.column }

/-- The two spellings of erasing to the end of the row, `ESC [ K` and `ESC [ 0 K`. -/
def isErase (t : Text) : Bool := t == [0x1B, 0x5B, 0x4B] || t == [0x1B, 0x5B, 0x30, 0x4B]

def control (s : Screen) (t : Text) : Screen :=
  if t == [Control.backspace] then s.back
  else if t == [Control.carriageReturn] then s.home
  else if t == [Control.lineFeed] then s.newRow
  else if isErase t then s.eraseToEnd
  else s

def play (s : Screen) (pieces : List Piece) : Screen :=
  pieces.foldl (fun s p => (s.putText p.literal).control p.control) s

def ofText (c : Classifier) (t : Text) : Screen :=
  (blank.play (c.cut t).pieces).putText (c.cut t).tail

def rows (s : Screen) : List (List Cell) := s.above ++ [s.row]

def display (s : Screen) : Text := Text.unlines (s.rows.map List.flatten)

end Screen

/-- The lines that a user would have seen after a terminal text. -/
def renderScreen (c : Classifier) (t : Text) : Text := (Screen.ofText c t).display

end Typeahead
