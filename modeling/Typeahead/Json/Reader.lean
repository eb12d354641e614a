import Typeahead.Data.Value
import Typeahead.Number.Read

/-!
# Reading JSON

The strict grammar of RFC 8259: nothing may follow the value but white space, names and strings
stand in double quotes, and a field that repeats replaces the earlier one.
-/

namespace Typeahead.Json

def isSpace (u : CodeUnit) : Bool := u == 0x20 || u == 0x09 || u == 0x0A || u == 0x0D

def skip (t : Text) : Text := t.dropWhile isSpace

def after? (word t : Text) : Option Text := if t.startsWith word then some (t.drop word.length) else none

/-! ## Strings -/

def unescape? (u : CodeUnit) : Option CodeUnit :=
  if u == 0x22 || u == 0x5C || u == 0x2F then some u
  else if u == 0x62 then some 0x08
  else if u == 0x66 then some 0x0C
  else if u == 0x6E then some 0x0A
  else if u == 0x72 then some 0x0D
  else if u == 0x74 then some 0x09
  else none

/-- The rest of a string up to its closing quote, and what follows; `done` is what was read before,
last unit first. -/
def readString (done : Text) : Text → Option (Text × Text)
  | [] => none
  | 0x22 :: rest => some (done.reverse, rest)
  | 0x5C :: 0x75 :: a :: b :: c :: d :: rest =>
    if [a, b, c, d].all CodeUnit.isHexDigit then
      readString ((Text.digitsValue 16 [a, b, c, d]).toUInt16 :: done) rest
    else none
  | 0x5C :: u :: rest =>
    match unescape? u with
    | some v => readString (v :: done) rest
    | none => none
  | u :: rest => if u < 0x20 then none else readString (u :: done) rest

/-! ## Numbers -/

def readNumber (t : Text) : Option (Binary64 × Text) :=
  let (negative, t) := match t with
    | 0x2D :: rest => (true, rest)
    | _ => (false, t)
  let (d, rest) := DecimalLiteral.scan t
  if d.whole.isEmpty || (d.whole.head? == some 0x30 && d.whole.length != 1) || d.fraction == some [] then
    none
  else some (d.value negative, rest)

/-! ## Values -/

mutual

/-- The value at the head of a text without white space before it, and what follows.  `fuel` bounds
the number of units read. -/
def readValue : (fuel : Nat) → Text → Option (Value × Text)
  | 0, _ => none
  | fuel + 1, t =>
    match t with
    | 0x22 :: rest => (readString [] rest).map fun (s, rest) => (.text s, rest)
    | 0x5B :: rest =>
      match skip rest with
      | 0x5D :: rest => some (.list [], rest)
      | rest => (readItems fuel [] rest).map fun (items, rest) => (.list items, rest)
    | 0x7B :: rest =>
      match skip rest with
      | 0x7D :: rest => some (.record [], rest)
      | rest => (readFields fuel [] rest).map fun (fields, rest) => (.record fields, rest)
    | t =>
      match after? (Text.ofString "null") t with
      | some rest => some (.null, rest)
      | none =>
      match after? (Text.ofString "true") t with
      | some rest => some (.bool true, rest)
      | none =>
      match after? (Text.ofString "false") t with
      | some rest => some (.bool false, rest)
      | none => (readNumber t).map fun (n, rest) => (.number n, rest)

/-- The items of a list up to its end; `done` holds those read before, last first. -/
def readItems : (fuel : Nat) → (done : List Value) → Text → Option (List Value × Text)
  | 0, _, _ => none
  | fuel + 1, done, t =>
    match readValue fuel t with
    | none => none
    | some (v, rest) =>
      match skip rest with
      | 0x2C :: rest => readItems fuel (v :: done) (skip rest)
      | 0x5D :: rest => some ((v :: done).reverse, rest)
      | _ => none

def readFields : (fuel : Nat) → (done : List (Text × Value)) → Text → Option (List (Text × Value) × Text)
  | 0, _, _ => none
  | fuel + 1, done, t =>
    match t with
    | 0x22 :: rest =>
      match readString [] rest with
      | none => none
      | some (name, rest) =>
        match skip rest with
        | 0x3A :: rest =>
          match readValue fuel (skip rest) with
          | none => none
          | some (v, rest) =>
            match skip rest with
            | 0x2C :: rest => readFields fuel (Value.setField name v done) (skip rest)
            | 0x7D :: rest => some (Value.setField name v done, rest)
            | _ => none
        | _ => none
    | _ => none

end

/-- The value that a text spells, or nothing if it is not JSON. -/
def read? (t : Text) : Option Value :=
  match readValue (t.length + 1) (skip t) with
  | some (v, rest) => if (skip rest).isEmpty then some v else none
  | none => none

end Typeahead.Json
