import Typeahead.Data.Value

/-!
# A place in a YAML text

`Cursor` is a place in a text with what the layout rules ask about it: the column, the indentation
of the line, and whether a tab was passed on the way to it.  The functions here move over blanks,
comments and line ends, and read the parts of a line.
-/

namespace Typeahead.Yaml

/-! ## Classes of units -/

def isBreak (u : CodeUnit) : Bool := u == 0x0A || u == 0x0D

def isBlank (u : CodeUnit) : Bool := u == 0x20 || u == 0x09

def isGap (u : CodeUnit) : Bool := isBlank u || isBreak u

/-- The units that give a flow collection its structure: `, [ ] { }`. -/
def isFlowMark (u : CodeUnit) : Bool := u == 0x2C || u == 0x5B || u == 0x5D || u == 0x7B || u == 0x7D

/-- Units that may stand in a document as they are, inside scalars without double quotes. -/
def isPrintable (u : CodeUnit) : Bool :=
  u == 0x09 || u == 0x0A || u == 0x0D || (0x20 ≤ u && u ≤ 0x7E) || u == 0x85 || (0xA0 ≤ u && u ≤ 0xFFFD)

def isQuotable (u : CodeUnit) : Bool := u == 0x09 || 0x20 ≤ u

/-! ## The cursor -/

/-- A place in a text: what follows, the unit before, the line and column, the indentation of the
line, and whether a tab stands between its start and this place, outside of scalars. -/
structure Cursor where
  rest : Text
  previous : Option CodeUnit
  line : Nat
  column : Nat
  indent : Nat
  tabbed : Bool
deriving Repr

namespace Cursor

def start (t : Text) : Cursor := ⟨t, none, 0, 0, 0, false⟩

def head? (c : Cursor) : Option CodeUnit := c.rest.head?

def nextIs (c : Cursor) (f : CodeUnit → Bool) : Bool := (c.rest.drop 1).head?.any f

def headIs (c : Cursor) (f : CodeUnit → Bool) : Bool := c.head?.any f

def drop (c : Cursor) (n : Nat) : Cursor :=
  { c with
    rest := c.rest.drop n, column := c.column + n
    previous := if n == 0 then c.previous else (c.rest.take n).getLast? }

def dropWhile (c : Cursor) (f : CodeUnit → Bool) : Cursor := c.drop (c.rest.takeWhile f).length

/-- Moves over blanks, and notes a tab among them. -/
def dropBlanks (c : Cursor) : Cursor :=
  let blanks := c.rest.takeWhile isBlank
  { c.drop blanks.length with tabbed := c.tabbed || blanks.contains 0x09 }

def dropLine (c : Cursor) : Cursor := c.dropWhile fun u => !isBreak u

def lineBreak? (c : Cursor) : Option Cursor :=
  match c.rest with
  | 0x0A :: rest => some ⟨rest, some 0x0A, c.line + 1, 0, c.indent, false⟩
  | 0x0D :: 0x0A :: rest => some ⟨rest, some 0x0A, c.line + 1, 0, c.indent, false⟩
  | 0x0D :: rest => some ⟨rest, some 0x0D, c.line + 1, 0, c.indent, false⟩
  | _ => none

/-- Moves over the spaces at the start of a line, at most `limit` if there is one; they are its
indentation. -/
def measureIndent (c : Cursor) (limit : Option Nat) : Cursor :=
  let spaces := (c.rest.takeWhile (· == 0x20)).length
  let n := match limit with
    | some limit => min spaces limit
    | none => spaces
  { c.drop n with indent := n }

/-- Moves over blanks, line ends and, if asked to, comments, and counts the line ends. -/
def skipLines (comments : Bool) : (fuel : Nat) → Cursor → (breaks : Nat) → Cursor × Nat
  | 0, c, breaks => (c, breaks)
  | fuel + 1, c, breaks =>
    let c := c.dropBlanks
    let c := if comments && c.headIs (· == 0x23) then c.dropLine else c
    match c.lineBreak? with
    | none => (c, breaks)
    | some c => skipLines comments fuel (c.measureIndent none) (breaks + 1)

def skip (c : Cursor) : Cursor × Nat := c.skipLines true (c.rest.length + 1) 0

def skipGaps (c : Cursor) : Cursor × Nat := c.skipLines false (c.rest.length + 1) 0

/-- Whether a marker between documents stands here: three hyphens or dots at the start of a line. -/
def atMarker (c : Cursor) : Bool :=
  c.column == 0 && match c.rest with
    | a :: b :: d :: rest =>
      (a == 0x2D || a == 0x2E) && a == b && b == d && rest.head?.all isGap
    | _ => false

end Cursor

/-! ## Folding -/

/-- What line ends inside a scalar become: one is a space, and of several the first is dropped. -/
def folded : (breaks : Nat) → Text
  | 0 => []
  | 1 => [0x20]
  | breaks + 2 => List.replicate (breaks + 1) 0x0A

def dropEndBlanks (t : Text) : Text := (t.reverse.dropWhile isBlank).reverse

end Typeahead.Yaml
