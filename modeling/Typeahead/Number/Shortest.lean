import Typeahead.Number.Binary64

/-!
# Shortest decimals

The decimal with the fewest digits that reads back as a given number, and of those the one nearest
to it.  All comparisons are between whole numbers: the number, the two ends of the interval that
rounds to it, and the points of a decimal grid, all over one denominator.
-/

namespace Typeahead

/-- The value `coefficient * 10 ^ exponent`. -/
structure Decimal where
  coefficient : Nat
  exponent : Int
deriving Repr, DecidableEq

namespace Decimal

/-- A decimal without zeros at its end; `limit` bounds how many can be there. -/
def trimZeros : (limit : Nat) → Decimal → Decimal
  | 0, d => d
  | limit + 1, d =>
    if d.coefficient % 10 == 0 && d.coefficient != 0 then
      trimZeros limit ⟨d.coefficient / 10, d.exponent + 1⟩
    else d

/-- Positive values over one denominator: the interval of values that round to `value`, whose ends
belong to it if `closed`. -/
structure Interval where
  low : Nat
  value : Nat
  high : Nat
  denominator : Nat
  closed : Bool

namespace Interval

def around (mantissa : Nat) (exponent : Int) : Interval :=
  let low := if mantissa == Nat.pow 2 52 && Binary64.minExponent < exponent then 4 * mantissa - 1
    else 4 * mantissa - 2
  let scale := Nat.pow 2 (exponent - 2).toNat
  ⟨low * scale, 4 * mantissa * scale, (4 * mantissa + 2) * scale, Nat.pow 2 (2 - exponent).toNat,
    mantissa % 2 == 0⟩

/-- The denominator and the values, times powers of ten so that the grid `10 ^ exponent` is `1`. -/
def onGrid (i : Interval) (exponent : Int) : Interval :=
  let up := Nat.pow 10 (-exponent).toNat
  ⟨i.low * up, i.value * up, i.high * up, i.denominator * Nat.pow 10 exponent.toNat, i.closed⟩

def holds (i : Interval) (point : Nat) : Bool :=
  let p := point * i.denominator
  if i.closed then i.low ≤ p && p ≤ i.high else i.low < p && p < i.high

/-- The point of the grid in the interval that is nearest to the value; of two, the even one. -/
def nearest? (i : Interval) : Option Nat :=
  let below := i.value / i.denominator
  let rest := i.value % i.denominator
  match i.holds below, i.holds (below + 1) with
  | true, true =>
    if 2 * rest < i.denominator || (2 * rest == i.denominator && below % 2 == 0) then some below
    else some (below + 1)
  | true, false => some below
  | false, true => some (below + 1)
  | false, false => none

/-- How many powers of ten the value holds: the least `p` with `value < 10 ^ p`. -/
def magnitude (i : Interval) : Int :=
  if i.denominator ≤ i.value then (Nat.toDigits 10 (i.value / i.denominator)).length
  else
    let leading := (Nat.toDigits 10 (i.denominator / i.value)).length
    let p : Int := 1 - leading
    -- the value lies between 10 ^ (p - 1) and 10 ^ (p + 1)
    if i.value * Nat.pow 10 (-p).toNat < i.denominator then p else p + 1

/-- The first of the finer and finer grids that has a point in the interval. -/
def search (i : Interval) (magnitude : Int) : (digits limit : Nat) → Decimal
  | digits, 0 => ⟨i.value / i.denominator, magnitude - digits⟩
  | digits, limit + 1 =>
    let exponent := magnitude - digits
    match (i.onGrid exponent).nearest? with
    | some point => ⟨point, exponent⟩
    | none => search i magnitude (digits + 1) limit

end Interval

/-- The shortest decimal of a positive finite number; 17 digits always suffice. -/
def shortest (mantissa : Nat) (exponent : Int) : Decimal :=
  let i := Interval.around mantissa exponent
  (i.search i.magnitude 1 18).trimZeros 20

end Decimal

end Typeahead
