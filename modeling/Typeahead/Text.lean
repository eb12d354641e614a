/-!
# Text as code units

Terminal text, as the remote side counts it: a list of 16-bit code units.  A character beyond
`U+FFFF` is a pair of units, and offsets and lengths count units.  `Text.codePoints` groups the
units of each character, and `Text.ofString` and `Text.toString` pass to and from `String`.
-/

namespace Typeahead

abbrev CodeUnit := UInt16

/-- Text as a list of 16-bit units; a character beyond `U+FFFF` takes two. -/
abbrev Text := List CodeUnit

/-! ## Surrogates -/

namespace CodeUnit

def isHighSurrogate (u : CodeUnit) : Bool := 0xD800 ≤ u && u < 0xDC00

def isLowSurrogate (u : CodeUnit) : Bool := 0xDC00 ≤ u && u < 0xE000

def ofChar (c : Char) : CodeUnit := c.val.toUInt16

def isDigit (u : CodeUnit) : Bool := 0x30 ≤ u && u ≤ 0x39

def isLetter (u : CodeUnit) : Bool := (0x41 ≤ u && u ≤ 0x5A) || (0x61 ≤ u && u ≤ 0x7A)

def digitValue? (u : CodeUnit) : Option Nat :=
  if 0x30 ≤ u && u ≤ 0x39 then some (u.toNat - 0x30)
  else if 0x41 ≤ u && u ≤ 0x46 then some (u.toNat - 0x37)
  else if 0x61 ≤ u && u ≤ 0x66 then some (u.toNat - 0x57)
  else none

def isWord (u : CodeUnit) : Bool := u.isLetter || u.isDigit || u == 0x5F

def isHexDigit (u : CodeUnit) : Bool := u.digitValue?.isSome

def toLower (u : CodeUnit) : CodeUnit := if 0x41 ≤ u && u ≤ 0x5A then u + 0x20 else u

def toUpper (u : CodeUnit) : CodeUnit := if 0x61 ≤ u && u ≤ 0x7A then u - 0x20 else u

def endsLine (u : CodeUnit) : Bool := u == 0x0A || u == 0x0D || u == 0x2028 || u == 0x2029

/-- White space, line ends, and the byte order mark. -/
def isBlank (u : CodeUnit) : Bool :=
  (0x09 ≤ u && u ≤ 0x0D) || u == 0x20 || u == 0xA0 || u == 0x1680 || (0x2000 ≤ u && u ≤ 0x200A) ||
  u == 0x2028 || u == 0x2029 || u == 0x202F || u == 0x205F || u == 0x3000 || u == 0xFEFF

end CodeUnit

namespace Text

def pairValue (high low : CodeUnit) : Nat :=
  0x10000 + (high.toNat - 0xD800) * 0x400 + (low.toNat - 0xDC00)

def ofCodePoint (n : Nat) : Text :=
  if n < 0x10000 then [n.toUInt16]
  else [(0xD800 + (n - 0x10000) / 0x400).toUInt16, (0xDC00 + (n - 0x10000) % 0x400).toUInt16]

def ofString (s : String) : Text := s.toList.flatMap fun c => ofCodePoint c.toNat

/-! ## Characters -/

/-- The characters of a text, each as its own units.  A surrogate without its partner stands alone. -/
def codePoints : Text → List Text
  | [] => []
  | [u] => [[u]]
  | u :: v :: rest =>
    if u.isHighSurrogate && v.isLowSurrogate then [u, v] :: codePoints rest
    else [u] :: codePoints (v :: rest)

/-- The number of the code point that one entry of `codePoints` holds. -/
def codePointValue : Text → Nat
  | [high, low] => pairValue high low
  | u :: _ => u.toNat
  | [] => 0

/-- The string of a text; a surrogate without its partner becomes `U+FFFD`. -/
def toString (t : Text) : String :=
  String.ofList (t.codePoints.map fun c =>
    if Nat.isValidChar c.codePointValue then Char.ofNat c.codePointValue else '\uFFFD')

/-! ## Lines and words -/

/-- The pieces of a text between the units that are `sep`; there is always at least one. -/
def splitOn (sep : CodeUnit) : Text → List Text
  | [] => [[]]
  | u :: rest =>
    if u == sep then [] :: splitOn sep rest
    else match splitOn sep rest with
      | [] => [[u]]
      | piece :: pieces => (u :: piece) :: pieces

def lines (t : Text) : List Text := t.splitOn 0x0A

def join (sep : Text) : List Text → Text
  | [] => []
  | [piece] => piece
  | piece :: pieces => piece ++ sep ++ join sep pieces

def unlines (pieces : List Text) : Text := join [0x0A] pieces

def trim (t : Text) : Text :=
  ((t.dropWhile CodeUnit.isBlank).reverse.dropWhile CodeUnit.isBlank).reverse

def toLower (t : Text) : Text := t.map CodeUnit.toLower

def startsWith (t part : Text) : Bool := part.isPrefixOf t

def endsWith (t part : Text) : Bool := part.isSuffixOf t

/-- Puts `new` in the place of each `old`, from the left; the first `skip` units are dropped. -/
def replaceFrom (old new : Text) : (skip : Nat) → Text → Text
  | _, [] => []
  | skip + 1, _ :: rest => replaceFrom old new skip rest
  | 0, u :: rest =>
    if old.isPrefixOf (u :: rest) then new ++ replaceFrom old new (old.length - 1) rest
    else u :: replaceFrom old new 0 rest

def replace (t old new : Text) : Text := replaceFrom old new 0 t

/-- Strictly before in the order of code units. -/
def before : Text → Text → Bool
  | _, [] => false
  | [], _ :: _ => true
  | u :: s, v :: t => u < v || (u == v && before s t)

/-- The digits of a number in a base up to sixteen, with small letters. -/
def digits (base n : Nat) : Text := (Nat.toDigits base n).map CodeUnit.ofChar

/-- The number that digits of a base spell; a unit that is no digit counts as zero. -/
def digitsValue (base : Nat) (t : Text) : Nat :=
  t.foldl (fun n u => n * base + u.digitValue?.getD 0) 0

end Text

end Typeahead
