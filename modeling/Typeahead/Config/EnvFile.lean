import Typeahead.Config.Environment

/-!
# Environment files

A file of variables holds lines such as `export NAME=value # comment`.  A value may be in quotes,
and then it may hold comment signs and line breaks.  Where a line can be read in several ways the
reading counts that gives each part as much as it can take, the earlier part first; so the functions
here return all that may be left of a text, best first.  What is no such line is passed over.
-/

namespace Typeahead.EnvFile

/-! ## Parts of a line -/

/-- What may be left after units that satisfy `f`, the most first. -/
def after (f : CodeUnit → Bool) : Text → List Text
  | [] => [[]]
  | u :: rest => if f u then after f rest ++ [u :: rest] else [u :: rest]

def afterBlanks : Text → List Text := after CodeUnit.isBlank

def afterSome (f : CodeUnit → Bool) (t : Text) : List Text := (after f t).dropLast

def afterExport (t : Text) : List Text :=
  let word := Text.ofString "export"
  (if t.startsWith word then afterSome CodeUnit.isBlank (t.drop word.length) else []) ++ [t]

def isNameUnit (u : CodeUnit) : Bool := u.isWord || u == 0x2E || u == 0x2D

/-- What may be left after the sign between a name and its value.  Blanks after the sign belong to
the value if they can. -/
def afterSign (t : Text) : List Text :=
  let equals := (afterBlanks t).flatMap fun t =>
    match t with
    | 0x3D :: rest => (afterBlanks rest).reverse
    | _ => []
  let colon := match t with
    | 0x3A :: rest => (afterSome CodeUnit.isBlank rest).reverse
    | _ => []
  equals ++ colon

/-- What may be left after a closing quote.  A quote after a backslash need not be the closing one. -/
def afterClosing (quote : CodeUnit) : Text → List Text
  | [] => []
  | 0x5C :: u :: rest =>
    if u == quote then afterClosing quote rest ++ [rest] else afterClosing quote (u :: rest)
  | u :: rest => if u == quote then [rest] else afterClosing quote rest

def afterQuoted (quote : CodeUnit) (t : Text) : List Text :=
  (afterBlanks t).flatMap fun t =>
    match t with
    | u :: rest => if u == quote then afterClosing quote rest else []
    | [] => []

def isPlainUnit (u : CodeUnit) : Bool := u != 0x23 && u != 0x0A && u != 0x0D

def afterValue (t : Text) : List Text :=
  afterQuoted 0x27 t ++ afterQuoted 0x22 t ++ afterQuoted 0x60 t ++ afterSome isPlainUnit t ++ [t]

def afterComment : Text → Text
  | 0x23 :: rest => rest.dropWhile fun u => !u.endsLine
  | t => t

def afterLine? (t : Text) : Option Text :=
  ((afterBlanks t).map afterComment).find? fun t => t.head?.all CodeUnit.endsLine

/-! ## Lines -/

/-- A name with its value as written, and what is left after its line. -/
structure Line where
  name : Text
  value : Text
  rest : Text
deriving Repr, DecidableEq

def taken (t rest : Text) : Text := t.take (t.length - rest.length)

def Line.read? (t : Text) : Option Line :=
  (afterBlanks t).findSome? fun t =>
    (afterExport t).findSome? fun named =>
      (afterSome isNameUnit named).findSome? fun signed =>
        (afterSign signed).findSome? fun valued =>
          (afterValue valued).findSome? fun ended =>
            (afterLine? ended).map fun rest => ⟨taken named signed, taken valued ended, rest⟩

/-- A value without its quotes.  In double quotes `\n` and `\r` stand for line breaks. -/
def unquote (value : Text) : Text :=
  let t := value.trim
  let inner := match t with
    | quote :: rest =>
      if (quote == 0x27 || quote == 0x22 || quote == 0x60) && rest.getLast? == some quote then
        rest.dropLast
      else t
    | [] => []
  if t.head? == some 0x22 then
    (inner.replace (Text.ofString "\\n") [0x0A]).replace (Text.ofString "\\r") [0x0D]
  else inner

/-- The variables that lines give, from left to right; `fresh` tells whether a line may start here, and
the first `skip` units belong to a line that has been read. -/
def readFrom : (fresh : Bool) → (skip : Nat) → Text → List (Text × Text)
  | _, _, [] => []
  | _, skip + 1, u :: rest => readFrom u.endsLine skip rest
  | false, 0, u :: rest => readFrom u.endsLine 0 rest
  | true, 0, u :: rest =>
    match Line.read? (u :: rest) with
    | some line =>
      (line.name, unquote line.value) :: readFrom u.endsLine (rest.length - line.rest.length) rest
    | none => readFrom u.endsLine 0 rest

def read (t : Text) : List (Text × Text) :=
  readFrom true 0 ((t.replace [0x0D, 0x0A] [0x0A]).replace [0x0D] [0x0A])

end Typeahead.EnvFile
