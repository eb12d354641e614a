import Typeahead.ClockTime

/-!
# Binary floating point

Numbers of the IEEE 754 format with 64 bits, as exact values: a finite number is a whole number of
less than 54 bits times a power of two.  Every operation works on the exact values and rounds once,
to the nearest number, and to the one with the even last bit when two are equally near.
-/

namespace Typeahead

/-- A number of the 64-bit binary format. -/
inductive Binary64 where
  | nan
  | infinity (negative : Bool)
  | finite (negative : Bool) (mantissa : Nat) (exponent : Int)
deriving Repr, DecidableEq

namespace Binary64

def minExponent : Int := -1074

def maxExponent : Int := 971

def signedZero (negative : Bool) : Binary64 := .finite negative 0 minExponent

instance : Zero Binary64 := ⟨signedZero false⟩

/-! ## Rounding -/

/-- A quotient rounded to a whole number, halves to the even neighbour. -/
def roundDiv (n d : Nat) : Nat :=
  if d < 2 * (n % d) || (2 * (n % d) == d && n / d % 2 == 1) then n / d + 1 else n / d

/-- The exponent at which the mantissa of `n / d` has 53 bits, or the least exponent there is. -/
def exponentFor (n d : Nat) : Int :=
  let top : Int := (Nat.log2 n : Int) - Nat.log2 d
  let top := if d * Nat.pow 2 top.toNat ≤ n * Nat.pow 2 (-top).toNat then top else top - 1
  max (top - 52) minExponent

def ofFraction (negative : Bool) (n d : Nat) : Binary64 :=
  if n == 0 then signedZero negative
  else
    let e := exponentFor n d
    let m := roundDiv (n * Nat.pow 2 (-e).toNat) (d * Nat.pow 2 e.toNat)
    let (m, e) := if m == Nat.pow 2 53 then (Nat.pow 2 52, e + 1) else (m, e)
    if maxExponent < e then .infinity negative else .finite negative m e

def ofNat (n : Nat) : Binary64 := ofFraction false n 1

/-! ## Values -/

def isFinite : Binary64 → Bool
  | .finite .. => true
  | _ => false

/-- A finite number as a multiple of `2 ^ minExponent`, without its sign. -/
def magnitude (mantissa : Nat) (exponent : Int) : Nat := mantissa * Nat.pow 2 (exponent - minExponent).toNat

def units (negative : Bool) (mantissa : Nat) (exponent : Int) : Int :=
  if negative then -(magnitude mantissa exponent : Int) else magnitude mantissa exponent

/-- The number nearest to a multiple of `2 ^ minExponent`; `negative` is the sign of a zero. -/
def ofUnits (negative : Bool) (n : Int) : Binary64 :=
  ofFraction (if n = 0 then negative else decide (n < 0)) n.natAbs (Nat.pow 2 (-minExponent).toNat)

/-- The whole number that a finite number is, if it is one. -/
def whole? : Binary64 → Option Int
  | .finite s m e =>
    let n := units s m e
    let unit := Nat.pow 2 (-minExponent).toNat
    if n % unit = 0 then some (n / unit) else none
  | _ => none

def isNegativeZero : Binary64 → Bool
  | .finite true 0 _ => true
  | _ => false

/-! ## Arithmetic and order -/

def neg : Binary64 → Binary64
  | .nan => .nan
  | .infinity s => .infinity !s
  | .finite s m e => .finite (!s) m e

def add : Binary64 → Binary64 → Binary64
  | .nan, _ => .nan
  | _, .nan => .nan
  | .infinity s, .infinity t => if s == t then .infinity s else .nan
  | .infinity s, _ => .infinity s
  | _, .infinity t => .infinity t
  | .finite s m e, .finite t n f => ofUnits (s && t) (units s m e + units t n f)

instance : Add Binary64 := ⟨add⟩
instance : Neg Binary64 := ⟨neg⟩
instance : Sub Binary64 := ⟨fun a b => add a (neg b)⟩

/-- Whether the first number is smaller.  A number that is undefined is neither smaller nor larger. -/
def less : Binary64 → Binary64 → Bool
  | .nan, _ => false
  | _, .nan => false
  | .infinity s, .infinity t => s && !t
  | .infinity s, _ => s
  | _, .infinity t => !t
  | .finite s m e, .finite t n f => units s m e < units t n f

def isDuration (x : Binary64) : Bool := x.isFinite && !x.less 0

instance : ClockTime Binary64 := ⟨less⟩

end Binary64

end Typeahead
