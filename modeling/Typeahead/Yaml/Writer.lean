import Typeahead.Yaml.Cursor
import Typeahead.Yaml.Scalar

/-!
# Writing YAML

A value as a YAML document: block collections with two columns for each level, and each text in the
plainest style that reads back as the same text.  `Style.ofText` makes that choice.
-/

namespace Typeahead.Yaml.Writer

open Text (ofString)

/-! ## Classes of characters -/

def isShown (c : Nat) : Bool :=
  (0x20 ≤ c && c ≤ 0x7E) || (0xA1 ≤ c && c ≤ 0xD7FF && c != 0x2028 && c != 0x2029) ||
  (0xE000 ≤ c && c ≤ 0xFFFD && c != 0xFEFF) || (0x10000 ≤ c && c ≤ 0x10FFFF)

def startsPlain (c : Nat) : Bool :=
  isShown c && c != 0x20 && !("-?:,[]{}#&*!|=>'\"%@`".toList.any fun mark => mark.toNat == c)

/-- Characters that may follow `previous` in a plain scalar: a colon is no end of a key, and a number
sign no start of a comment. -/
def continuesPlain (previous : Option Nat) (c : Nat) : Bool :=
  let solid := isShown c && c != 0x20
  let afterSolid := previous.any fun p => isShown p && p != 0x20
  let afterColon := previous == some 0x3A
  (isShown c && c != 0x23 && !(afterColon && !solid)) || (afterSolid && c == 0x23) || (afterColon && solid)

def allPlain : (previous : Option Nat) → List Nat → Bool
  | _, [] => true
  | previous, c :: rest => continuesPlain previous c && allPlain (some c) rest

def isPlain (cs : List Nat) : Bool :=
  cs.head?.any startsPlain && cs.getLast?.any (fun c => c != 0x20 && c != 0x09 && c != 0x3A) &&
    allPlain none cs

/-! ## Ambiguous texts -/

def isOldBool (t : Text) : Bool :=
  isOneOf t ["y", "Y", "yes", "Yes", "YES", "on", "On", "ON", "n", "N", "no", "No", "NO", "off", "Off", "OFF"]

def isGrouped (u : CodeUnit) : Bool := u.isDigit || u == 0x5F

/-- Numbers in base 60, which other readers know: groups of digits with colons between them, and
perhaps a fraction. -/
def isBase60 (t : Text) : Bool :=
  let unsigned := (DecimalLiteral.scanSign t).2
  let groups := unsigned.takeWhile (· != 0x2E)
  let fraction := unsigned.drop (groups.length + 1)
  let parts := groups.splitOn 0x3A
  2 ≤ parts.length && parts.all (fun p => !p.isEmpty && p.all isGrouped) && fraction.all isGrouped

/-! ## Styles -/

inductive Style where
  | plain | single | literal | folding | double
deriving Repr, DecidableEq

def isFoldable (width : Nat) (line : Text) : Bool := width < line.length && line.head? != some 0x20

/-- The plainest style for a text that is not empty; a key has to stay on one line. -/
def Style.ofText (t : Text) (isKey : Bool) (width : Nat) : Style :=
  let cs := t.codePoints.map Text.codePointValue
  let foldable := t.lines.any (isFoldable width)
  if cs.any fun c => !isShown c && (isKey || c != 0x0A) then .double
  else if isKey || (!t.contains 0x0A && !foldable) then
    if isPlain cs && (resolve? t).isNone then .plain else .single
  else if foldable then .folding
  else .literal

/-! ## Block scalars -/

/-- The header of a block scalar: the width if the text starts with a space, and what becomes of its
last line ends. -/
def header (t : Text) : Text :=
  let width := if (t.dropWhile (· == 0x0A)).head? == some 0x20 then ofString "2" else []
  let chomping :=
    if t == [0x0A] || t.endsWith [0x0A, 0x0A] then ofString "+"
    else if t.endsWith [0x0A] then []
    else ofString "-"
  width ++ chomping ++ [0x0A]

def indented (indent : Nat) (t : Text) : Text :=
  let lines := t.lines.map fun line =>
    if line.isEmpty then line else List.replicate indent 0x20 ++ line
  let text := Text.unlines lines
  if text.endsWith [0x0A] then text.dropLast else text

/-- The places of the spaces at which a line may be broken: those before something else. -/
def breakPlaces (t : Text) : List Nat :=
  (List.range t.length).filter fun i => t[i]? == some 0x20 && (t[i + 1]?).any (· != 0x20)

/-- Breaks a line at the last place before it gets longer than `width`.  `start` is where the line
goes on, `last` the last place passed, and `done` the lines before, last first. -/
def breakLine (width : Nat) (line : Text) (start last : Nat) (done : List Text) : List Nat → List Text
  | [] =>
    if width < line.length - start && start < last then
      (line.drop (last + 1) :: (line.drop start).take (last - start) :: done).reverse
    else (line.drop start :: done).reverse
  | next :: rest =>
    if width < next - start then
      let stop := if start < last then last else next
      breakLine width line (stop + 1) next ((line.drop start).take (stop - start) :: done) rest
    else breakLine width line start next done rest

def foldLine (width : Nat) (line : Text) : Text :=
  if line.isEmpty || line.head? == some 0x20 then line
  else Text.unlines (breakLine width line 0 0 [] (breakPlaces line))

/-- Folds the lines after the first; `breaks` counts the line ends before the next of them, and
`deeper` tells whether the line before starts with a space or there was none. -/
def foldRest (width : Nat) (breaks : Nat) (deeper : Bool) : List Text → Text
  | [] => List.replicate breaks 0x0A
  | line :: rest =>
    if line.isEmpty && !rest.isEmpty then foldRest width (breaks + 1) deeper rest
    else
      let nowDeeper := line.head? == some 0x20
      let extra := if !deeper && !nowDeeper && !line.isEmpty then [0x0A] else []
      List.replicate breaks 0x0A ++ extra ++ foldLine width line ++
        (if rest.isEmpty then [] else foldRest width 1 nowDeeper rest)

def foldText (width : Nat) (t : Text) : Text :=
  match t.lines with
  | [] => []
  | first :: rest =>
    let deeper := t.head? == some 0x0A || t.head? == some 0x20
    foldLine width first ++ (if rest.isEmpty then [] else foldRest width 1 deeper rest)

/-! ## Double quotes -/

def hexEscape (c : Nat) : Text :=
  let digits := (Text.digits 16 c).map CodeUnit.toUpper
  let (letter, size) := if c ≤ 0xFF then ("\\x", 2) else if c ≤ 0xFFFF then ("\\u", 4) else ("\\U", 8)
  ofString letter ++ List.replicate (size - digits.length) 0x30 ++ digits

def shortEscapes : List (Nat × String) :=
  [(0x00, "\\0"), (0x07, "\\a"), (0x08, "\\b"), (0x09, "\\t"), (0x0A, "\\n"), (0x0B, "\\v"), (0x0C, "\\f"),
   (0x0D, "\\r"), (0x1B, "\\e"), (0x22, "\\\""), (0x5C, "\\\\"), (0x85, "\\N"), (0xA0, "\\_"),
   (0x2028, "\\L"), (0x2029, "\\P")]

def escape (c : Text) : Text :=
  let n := Text.codePointValue c
  match shortEscapes.find? fun e => e.1 == n with
  | some (_, short) => ofString short
  | none => if isShown n then c else hexEscape n

/-! ## Scalars -/

def text (level : Nat) (isKey : Bool) (t : Text) : Text :=
  let indent := 2 * max 1 level
  let width := max 40 (80 - indent)
  if t.isEmpty then ofString "''"
  else if isOldBool t || isBase60 t then ofString "'" ++ t ++ ofString "'"
  else match Style.ofText t isKey width with
    | .plain => t
    | .single => ofString "'" ++ t.flatMap (fun u => if u == 0x27 then [u, u] else [u]) ++ ofString "'"
    | .literal => ofString "|" ++ header t ++ indented indent t
    | .folding => ofString ">" ++ header t ++ indented indent (foldText width t)
    | .double => ofString "\"" ++ t.codePoints.flatMap escape ++ ofString "\""

def lacksPoint (t : Text) : Bool :=
  let digits := ((DecimalLiteral.scanSign t).2.dropWhile CodeUnit.isDigit)
  digits.head? == some 0x65

def number (n : Binary64) : Text :=
  match n with
  | .nan => ofString ".nan"
  | .infinity false => ofString ".inf"
  | .infinity true => ofString "-.inf"
  | .finite .. =>
    if n.isNegativeZero then ofString "-0.0"
    else if n.whole?.isNone && lacksPoint n.toText then
      n.toText.flatMap fun u => if u == 0x65 then ofString ".e" else [u]
    else n.toText

/-! ## Collections -/

def newline (level : Nat) : Text := 0x0A :: List.replicate (2 * level) 0x20

/-- A mark and what follows it, with a space between them on one line. -/
def marked (mark t : Text) : Text := if t.head? == some 0x0A then mark ++ t else mark ++ [0x20] ++ t

/-- Entries of a collection, each on its line; the first of a compact one goes on with the line. -/
def entries (level : Nat) (compact : Bool) (parts : List Text) : Text :=
  let lines := parts.flatMap fun part => newline level ++ part
  if compact then lines.drop (2 * level + 1) else lines

mutual

def node (level : Nat) (compact : Bool) : Value → Text
  | .null => ofString "null"
  | .bool true => ofString "true"
  | .bool false => ofString "false"
  | .number n => number n
  | .text t => text level false t
  | .list items => if items.isEmpty then ofString "[]" else entries level compact (listItems level items)
  | .record fields =>
    if fields.isEmpty then ofString "\x7b\x7d" else entries level compact (recordFields level fields)

def listItems (level : Nat) : List Value → List Text
  | [] => []
  | v :: rest => marked [0x2D] (node (level + 1) true v) :: listItems level rest

def recordFields (level : Nat) : List (Text × Value) → List Text
  | [] => []
  | (name, v) :: rest =>
    marked (text (level + 1) true name ++ [0x3A]) (node (level + 1) false v) :: recordFields level rest

end

end Typeahead.Yaml.Writer

namespace Typeahead.Yaml

def write (v : Value) : Text := Writer.node 0 true v ++ [0x0A]

end Typeahead.Yaml
