import Typeahead.Data.Value
import Typeahead.Number.Read

/-!
# Scalars

What a plain scalar of a YAML document stands for.  The rules are those of the core schema, with
dates, with base 2, and with the merge key; a text that none of them takes is text.
-/

namespace Typeahead.Yaml

open Text (ofString)

inductive CoreTag where
  | null | bool | int | float | timestamp | merge | binary | str
  | seq | omap | pairs
  | map | set
deriving Repr, DecidableEq

def isOneOf (t : Text) (words : List String) : Bool := words.any fun word => t == ofString word

/-! ## Numbers -/

/-- A whole number: decimal, or in base 2, 8 or 16 after a prefix. -/
def int? (t : Text) : Option Binary64 :=
  let (negative, digits) := DecimalLiteral.scanSign t
  let value := match digits with
    | [0x30] => none
    | 0x30 :: 0x62 :: rest => Binary64.ofDigits? 2 rest
    | 0x30 :: 0x78 :: rest => Binary64.ofDigits? 16 rest
    | 0x30 :: 0x6F :: rest => Binary64.ofDigits? 8 rest
    | _ => Binary64.ofDigits? 10 digits
  if digits == [0x30] then some 0
  else if negative then value.map Binary64.neg
  else value

/-- A number with a point or an exponent, or one that is infinite or undefined. -/
def float? (t : Text) : Option Binary64 :=
  let (negative, unsigned) := DecimalLiteral.scanSign t
  if isOneOf t [".nan", ".NaN", ".NAN"] then some .nan
  else if isOneOf unsigned [".inf", ".Inf", ".INF"] then some (.infinity negative)
  else
    match DecimalLiteral.scan unsigned with
    | (d, []) =>
      if !d.whole.isEmpty then some (d.value negative)
      else if unsigned == t && d.hasDigits then some (d.value false)
      else none
    | _ => none

/-! ## Dates -/

/-- Between `least` and `most` digits, as many as there are, then the rest. -/
def digits? (least most : Nat) (t : Text) : Option Text :=
  let n := ((t.take most).takeWhile CodeUnit.isDigit).length
  if least ≤ n then some (t.drop n) else none

def unit? (u : CodeUnit) : Text → Option Text
  | v :: rest => if u == v then some rest else none
  | [] => none

def isWhite (u : CodeUnit) : Bool := u == 0x20 || u == 0x09

def timeMark? (t : Text) : Option Text :=
  match t with
  | u :: rest =>
    if u == 0x54 || u == 0x74 then some rest
    else if isWhite u then some (t.dropWhile isWhite)
    else none
  | [] => none

def dropFraction : Text → Text
  | 0x2E :: rest => rest.dropWhile CodeUnit.isDigit
  | t => t

def isZone (t : Text) : Bool :=
  match t.dropWhile isWhite with
  | [] => t.isEmpty
  | 0x5A :: rest => rest.isEmpty
  | u :: rest =>
    (u == 0x2B || u == 0x2D) &&
    match digits? 1 2 rest with
    | none => false
    | some [] => true
    | some rest => ((unit? 0x3A rest).bind (digits? 2 2)) == some []

def isTimestamp (t : Text) : Bool :=
  let date := do
    let t ← unit? 0x2D (← digits? 4 4 t)
    let t ← unit? 0x2D (← digits? 2 2 t)
    digits? 2 2 t
  let time := do
    let t ← unit? 0x2D (← digits? 4 4 t)
    let t ← unit? 0x2D (← digits? 1 2 t)
    let t ← timeMark? (← digits? 1 2 t)
    let t ← unit? 0x3A (← digits? 1 2 t)
    let t ← unit? 0x3A (← digits? 2 2 t)
    digits? 2 2 t
  date == some [] || time.any fun rest => isZone (dropFraction rest)

/-! ## Binary data -/

/-- The place of a unit in the base 64 alphabet; padding and line ends come after it. -/
def base64Place? (u : CodeUnit) : Option Nat :=
  if 0x41 ≤ u && u ≤ 0x5A then some (u.toNat - 0x41)
  else if 0x61 ≤ u && u ≤ 0x7A then some (u.toNat - 0x61 + 26)
  else if u.isDigit then some (u.toNat - 0x30 + 52)
  else if u == 0x2B then some 62
  else if u == 0x2F then some 63
  else if u == 0x3D then some 64
  else if u == 0x0A || u == 0x0D then some 65
  else none

def base64Size? (t : Text) : Option Nat :=
  if t.all (fun u => (base64Place? u).isSome) &&
      (t.countP fun u => (base64Place? u).any (· ≤ 64)) % 4 == 0 then
    some (6 * (t.countP fun u => (base64Place? u).any (· < 64)) / 8)
  else none

/-! ## Plain scalars -/

/-- The value of a date: a record without fields.  The date itself is not kept, for its text depends on
where the program runs; quoted in a line or used as a key it reads `[object Object]`, as records do. -/
def dateValue : Value := .record []

/-- What a plain scalar stands for, if it is not just text. -/
def resolve? (t : Text) : Option (CoreTag × Value) :=
  if isOneOf t ["~", "null", "Null", "NULL"] then some (.null, .null)
  else if isOneOf t ["true", "True", "TRUE"] then some (.bool, .bool true)
  else if isOneOf t ["false", "False", "FALSE"] then some (.bool, .bool false)
  else
    match int? t, float? t with
    | some n, _ => some (.int, .number n)
    | none, some n => some (.float, .number n)
    | none, none =>
      if isTimestamp t then some (.timestamp, dateValue)
      else if t == ofString "<<" then some (.merge, .text t)
      else none

end Typeahead.Yaml
