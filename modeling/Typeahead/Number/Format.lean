import Typeahead.Number.Shortest
import Typeahead.Text

/-!
# Writing numbers

Numbers as text: the shortest decimal that reads back, with a point up to `10 ^ 21` and down to
`10 ^ -6`, and with an exponent beyond.
-/

namespace Typeahead.Binary64

open Text (ofString)

def zeros (n : Nat) : Text := List.replicate n 0x30

/-- A positive decimal; `point` is the place of the decimal point, counted from the first digit. -/
def decimalText (digits : Text) (point : Int) : Text :=
  let size : Int := digits.length
  if size ≤ point && point ≤ 21 then digits ++ zeros (point - size).toNat
  else if 0 < point && point ≤ 21 then
    digits.take point.toNat ++ ofString "." ++ digits.drop point.toNat
  else if -6 < point && point ≤ 0 then ofString "0." ++ zeros (-point).toNat ++ digits
  else
    let tail := if digits.length == 1 then [] else ofString "." ++ digits.drop 1
    let sign := if 0 < point then "+" else "-"
    digits.take 1 ++ tail ++ ofString "e" ++ ofString sign ++ Text.digits 10 (point - 1).natAbs

/-- A finite number without its sign.  Whole numbers up to `2 ^ 53` are their digits. -/
def magnitudeText (mantissa : Nat) (exponent : Int) : Text :=
  match whole? (.finite false mantissa exponent) with
  | some n =>
    if n.toNat ≤ Nat.pow 2 53 then Text.digits 10 n.toNat else shortestText
  | none => shortestText
where
  shortestText : Text :=
    let d := Decimal.shortest mantissa exponent
    let digits := Text.digits 10 d.coefficient
    decimalText digits (d.exponent + digits.length)

def toText : Binary64 → Text
  | .nan => ofString "NaN"
  | .infinity false => ofString "Infinity"
  | .infinity true => ofString "-Infinity"
  | .finite s m e =>
    if m == 0 then ofString "0"
    else if s then ofString "-" ++ magnitudeText m e
    else magnitudeText m e

end Typeahead.Binary64
