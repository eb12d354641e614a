import Typeahead.Number.Shortest
import Typeahead.Text

/-!
# Reading numbers

`DecimalLiteral.scan` splits a decimal into its parts, and the formats that use it say which parts
they ask for.  The value of the parts is rounded once, however many digits there are.
-/

namespace Typeahead

namespace Binary64

/-- The number nearest to a decimal.  Exponents so large that every digit is lost are not raised. -/
def ofDecimal (negative : Bool) (d : Decimal) : Binary64 :=
  let size : Int := (Nat.toDigits 10 d.coefficient).length + d.exponent
  if d.coefficient == 0 then signedZero negative
  else if 400 < size then .infinity negative
  else if size < -400 then signedZero negative
  else ofFraction negative (d.coefficient * Nat.pow 10 d.exponent.toNat) (Nat.pow 10 (-d.exponent).toNat)

end Binary64

/-- The parts of a decimal: digits, digits after a point, and an exponent with its sign. -/
structure DecimalLiteral where
  whole : Text
  fraction : Option Text
  exponent : Option (Bool × Text)
deriving Repr, DecidableEq

namespace DecimalLiteral

def scanSign : Text → Bool × Text
  | 0x2D :: rest => (true, rest)
  | 0x2B :: rest => (false, rest)
  | t => (false, t)

def scanDigits (t : Text) : Text × Text := (t.takeWhile CodeUnit.isDigit, t.dropWhile CodeUnit.isDigit)

def scanFraction : Text → Option Text × Text
  | 0x2E :: rest => (some (scanDigits rest).1, (scanDigits rest).2)
  | t => (none, t)

def scanExponent (t : Text) : Option (Bool × Text) × Text :=
  match t with
  | u :: rest =>
    if u == 0x65 || u == 0x45 then
      let (negative, rest) := scanSign rest
      let (digits, rest) := scanDigits rest
      if digits.isEmpty then (none, t) else (some (negative, digits), rest)
    else (none, t)
  | [] => (none, t)

def scan (t : Text) : DecimalLiteral × Text :=
  let (whole, t) := scanDigits t
  let (fraction, t) := scanFraction t
  let (exponent, t) := scanExponent t
  (⟨whole, fraction, exponent⟩, t)

def hasDigits (d : DecimalLiteral) : Bool := !(d.whole ++ d.fraction.getD []).isEmpty

def exponentValue (d : DecimalLiteral) : Int :=
  match d.exponent with
  | none => 0
  | some (negative, digits) =>
    let n : Int := Text.digitsValue 10 digits
    if negative then -n else n

def value (d : DecimalLiteral) (negative : Bool) : Binary64 :=
  let fraction := d.fraction.getD []
  .ofDecimal negative ⟨Text.digitsValue 10 (d.whole ++ fraction), d.exponentValue - fraction.length⟩

end DecimalLiteral

namespace Binary64

def ofDigits? (base : Nat) (t : Text) : Option Binary64 :=
  if t.isEmpty || !t.all (fun u => u.digitValue?.any (· < base)) then none
  else some (.ofNat (Text.digitsValue base t))

def ofSignedText? (t : Text) : Option Binary64 :=
  let (negative, t) := DecimalLiteral.scanSign t
  if t == Text.ofString "Infinity" then some (.infinity negative)
  else
    match DecimalLiteral.scan t with
    | (d, []) => if d.hasDigits then some (d.value negative) else none
    | _ => none

/-- Reads a text as a number.  Blanks around it are dropped, nothing is zero, whole numbers may be
written in base 16, 8 or 2, and any other text is undefined. -/
def ofText (t : Text) : Binary64 :=
  match t.trim with
  | [] => 0
  | 0x30 :: u :: rest =>
    let u := u.toLower
    let read :=
      if u == 0x78 then ofDigits? 16 rest
      else if u == 0x6F then ofDigits? 8 rest
      else if u == 0x62 then ofDigits? 2 rest
      else ofSignedText? t.trim
    read.getD .nan
  | t => (ofSignedText? t).getD .nan

end Binary64

end Typeahead
