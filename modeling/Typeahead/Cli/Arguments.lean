import Typeahead.Data.Value
import Typeahead.Number.Read

/-!
# Command-line arguments

Arguments are words and flags.  A flag is `--name`, `--name=value` or `--name value`, and `--no-name`
turns one off; flags of one letter may share a dash, and the last of them may take a value.  After
`--` everything is a word.  Which arguments are values depends on what the known flags take; a flag
that is not known takes the next argument unless that is a flag itself.
-/

namespace Typeahead

open Text (ofString)

inductive FlagKind where
  | switch
  | text
  | number
deriving Repr, DecidableEq

/-- A flag that a command knows: its name, what it takes, and its letter if it has one. -/
structure Flag where
  name : Text
  kind : FlagKind
  letter : Option CodeUnit
deriving Repr, DecidableEq

/-- The values of flags, under the names that were used, in the order of first use, and the words.
A flag that should have a number and got nothing has no value. -/
structure Arguments where
  given : List (Text × Option Value)
  words : List Text
deriving Repr

/-! ## Names -/

def partsName (u : CodeUnit) : Bool := u == 0x2D || u == 0x5F || u == 0x2E || u == 0x20

/-- Runs the words of a name together.  `raise` tells whether a word starts here that is not the first,
`started` whether there is one before, and `small` whether a small letter stands before. -/
def camelFrom (raise started small : Bool) : Text → Text
  | [] => []
  | u :: rest =>
    if partsName u then camelFrom started started false rest
    else
      let capital := raise || (small && u.toLower != u)
      (if capital then u.toUpper else u.toLower) :: camelFrom false true (u.toUpper != u) rest

def camelCase (name : Text) : Text := camelFrom false false false name

/-! ## Values -/

/-- Whether a text is written like a number: decimal without superfluous zeros, or base 16. -/
def looksLikeNumber (t : Text) : Bool :=
  match t with
  | 0x30 :: u :: rest =>
    if u == 0x2E then isDecimal t
    else (u == 0x78 || u == 0x58) && !rest.isEmpty && rest.all CodeUnit.isHexDigit
  | 0x2D :: rest => isDecimal rest
  | _ => isDecimal t
where
  isDecimal (t : Text) : Bool :=
    let (d, rest) := DecimalLiteral.scan t
    d.hasDigits && !t.contains 0x45 && rest.all CodeUnit.isBlank

/-- Whether the part of a number before the point has at most 53 bits. -/
def isSmall : Binary64 → Bool
  | .finite _ m e => (Binary64.finite false m e).less (.ofNat (Nat.pow 2 53))
  | _ => false

def isNegative (t : Text) : Bool :=
  match t with
  | 0x2D :: rest =>
    let (d, rest) := DecimalLiteral.scan rest
    rest.isEmpty && d.exponent.isNone && match d.fraction with
      | some digits => !digits.isEmpty
      | none => !d.whole.isEmpty
  | _ => false

/-- Whether a text is a number that may stand right after the letter of a flag. -/
def isAttachedNumber (t : Text) : Bool :=
  let (d, rest) := DecimalLiteral.scan (if t.head? == some 0x2D then t.drop 1 else t)
  rest.isEmpty && !d.whole.isEmpty && d.fraction != some [] && !t.contains 0x45 && !t.contains 0x2B

def dropQuotes (t : Text) : Text :=
  match t with
  | quote :: rest =>
    if (quote == 0x27 || quote == 0x22) && rest.getLast? == some quote then rest.dropLast else t
  | [] => []

def isTruthName (t : Text) : Bool := t == ofString "true" || t == ofString "false"

/-- What a flag of a kind makes of a value.  A flag that is not known makes numbers of texts that look
like small numbers. -/
def FlagKind.convert : Option FlagKind → Value → Value
  | some .switch, .text t => .bool (t == ofString "true")
  | some .number, .text t => .number (.ofText t)
  | some .number, .bool b => .number (if b then .ofNat 1 else 0)
  | none, .text t =>
    if looksLikeNumber t && isSmall (.ofText t) then .number (.ofText t) else .text t
  | _, v => v

/-- What a flag of a kind is worth without a value. -/
def FlagKind.worth : Option FlagKind → Option Value
  | some .text => some (.text [])
  | some .number => none
  | _ => some (.bool true)

namespace Arguments

def empty : Arguments := ⟨[], []⟩

def word (a : Arguments) (t : Text) : Arguments := { a with words := a.words ++ [t] }

/-! ## Setting flags -/

def find? (a : Arguments) (name : Text) : Option (Option Value) :=
  (a.given.find? fun g => g.1 == name).map (·.2)

/-- The names of a flag.  A name of several words may be run together once it has been used. -/
def names (a : Arguments) (f : Flag) (used : Text) : List Text :=
  let joined := if f.name.contains 0x2D && (used == f.name || (a.find? f.name).isSome) then
    [camelCase f.name] else []
  f.name :: (f.letter.toList.map fun u => [u]) ++ joined

def flagNamed? (a : Arguments) (flags : List Flag) (name : Text) : Option Flag :=
  flags.find? fun f => (a.names f name).contains name

def kindOf (a : Arguments) (flags : List Flag) (name : Text) : Option FlagKind :=
  (a.flagNamed? flags name).map (·.kind)

def put (a : Arguments) (name : Text) (v : Option Value) : Arguments :=
  if (a.find? name).isSome then
    { a with given := a.given.map fun g => if g.1 == name then (name, v) else g }
  else { a with given := a.given ++ [(name, v)] }

/-- Puts a value under a name.  Values that are no switch and come more than once make a list. -/
def add (a : Arguments) (again : Bool) (name : Text) (v : Option Value) : Arguments :=
  a.put name <| match a.find? name with
    | some (some (.list items)) => some (.list (items ++ [v.getD .null]))
    | some (some old) => if again then v else some (.list [old, v.getD .null])
    | _ => v

def addField (a : Arguments) (name field : Text) (v : Option Value) : Arguments :=
  let v := v.getD .null
  a.put name <| match a.find? name with
    | some (some (.record fields)) => some (.record (Value.setField field v fields))
    | some (some (.list items)) => some (.list (items ++ [.record [(field, v)]]))
    | some (some old) => some (.list [old, .record [(field, v)]])
    | _ => some (.record [(field, v)])

/-- Gives a flag a value, under all its names.  A name with a dot means a field of a record. -/
def set (a : Arguments) (flags : List Flag) (name : Text) (v : Option Value) : Arguments :=
  let kind := a.kindOf flags name
  let v := v.map (FlagKind.convert kind)
  let others (name : Text) := match a.flagNamed? flags name with
    | some f => (a.names f name).filter (· != name)
    | none => []
  match name.splitOn 0x2E with
  | first :: part :: parts =>
    (first :: others first).foldl (fun a n => a.addField n (Text.join [0x2E] (part :: parts)) v) a
  | _ => (name :: others name).foldl (fun a n => a.add (kind == some .switch) n v) a

def setBare (a : Arguments) (flags : List Flag) (name : Text) : Arguments :=
  a.set flags name (FlagKind.worth (a.kindOf flags name))

/-- Gives a flag the next argument, if that can be its value, and says whether it was. -/
def setNext (a : Arguments) (flags : List Flag) (name : Text) (next? : Option Text)
    (isFlag : Text → Bool) : Arguments × Bool :=
  match next? with
  | some next =>
    if (!isFlag next && a.kindOf flags name != some .switch) || isTruthName next then
      (a.set flags name (some (.text next)), true)
    else (a.setBare flags name, false)
  | none => (a.setBare flags name, false)

/-! ## Reading -/

def readLong (a : Arguments) (flags : List Flag) (t : Text) (next? : Option Text) : Arguments × Bool :=
  let name := t.takeWhile (· != 0x3D)
  if (t.drop 1).contains 0x3D then
    let value := dropQuotes (t.drop (name.length + 1))
    (if name.isEmpty then a else a.set flags name (some (.text value)), false)
  else if t.startsWith (ofString "no-") && 3 < t.length then
    (a.set flags (t.drop 3) (some (.bool false)), false)
  else a.setNext flags t next? fun next => next.head? == some 0x2D && !isNegative next

/-- Whether an argument is a flag for the last letter after a dash: dashes, one or two, and a name. -/
def followsAsFlag : Text → Bool
  | 0x2D :: 0x2D :: u :: _ => u != 0x2D
  | 0x2D :: u :: _ => u != 0x2D
  | _ => false

def readLetters (flags : List Flag) (next? : Option Text) (a : Arguments) : Text → Arguments × Bool
  | [] => (a, false)
  | [u] =>
    if u == 0x2D then (a, false)
    else a.setNext flags [u] next? fun next => followsAsFlag next && !isNegative next
  | u :: v :: rest =>
    let value (t : Text) := (a.set flags [u] (some (.text t)), false)
    if v == 0x3D && !rest.isEmpty then value rest
    else if v == 0x2D && rest.isEmpty then value [v]
    else if u.isLetter && isAttachedNumber (v :: rest) then value (v :: rest)
    else if !v.isWord && !rest.isEmpty then value (v :: rest)
    else (a.setBare flags [u]).readLetters flags next? (v :: rest)

/-- Reads a letter and a dot after one dash, which mean a field. -/
def readDotted (a : Arguments) (flags : List Flag) (t : Text) (next? : Option Text) : Arguments × Bool :=
  if (t.drop 3).contains 0x3D then
    let name := t.takeWhile (· != 0x3D)
    (a.set flags name (some (.text (t.drop (name.length + 1)))), false)
  else
    match next? with
    | some next =>
      if next.head? == some 0x2D then (a.setBare flags t, false)
      else (a.set flags t (some (.text next)), true)
    | none => (a.setBare flags t, false)

/-- Reads one argument that is not `--`, and says whether it took the next one with it. -/
def readOne (a : Arguments) (flags : List Flag) (arg : Text) (next? : Option Text) : Arguments × Bool :=
  let bare := arg.dropWhile (· == 0x2D)
  if 3 ≤ arg.length - bare.length && bare.head?.all (· == 0x3D) then (a.word arg, false)
  else
    match arg with
    | 0x2D :: 0x2D :: t => a.readLong flags t next?
    | 0x2D :: u :: rest =>
      if isNegative arg then (a.word arg, false)
      else if rest.head? == some 0x2E && 2 ≤ rest.length then a.readDotted flags (u :: rest) next?
      else readLetters flags next? a (u :: rest)
    | _ => (a.word arg, false)

/-- Reads arguments; `skip` tells whether the first has been taken as a value. -/
def readFrom (flags : List Flag) (a : Arguments) : (skip : Bool) → List Text → Arguments
  | _, [] => a
  | true, _ :: rest => readFrom flags a false rest
  | false, arg :: rest =>
    if arg == ofString "--" then { a with words := a.words ++ rest }
    else
      let (a, taken) := a.readOne flags arg rest.head?
      readFrom flags a taken rest

def read (flags : List Flag) (args : List Text) : Arguments := readFrom flags empty false args

/-! ## Answers -/

/-- The value of a flag, by the last of the names that come to the same name run together. -/
def value? (a : Arguments) (name : Text) : Option Value :=
  ((a.given.reverse.find? fun g => 1 < g.1.length && camelCase g.1 == camelCase name).map (·.2)).join

end Arguments

end Typeahead
