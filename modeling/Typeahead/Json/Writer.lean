import Typeahead.Data.Value

/-!
# Writing JSON

A value as JSON on one line, or with one item a line and two spaces for each level.  Numbers that
JSON cannot spell are written as `null`.
-/

namespace Typeahead.Json

open Text (ofString)

def escapeUnit (u : CodeUnit) : Text :=
  if u == 0x22 then ofString "\\\""
  else if u == 0x5C then ofString "\\\\"
  else if u == 0x08 then ofString "\\b"
  else if u == 0x0C then ofString "\\f"
  else if u == 0x0A then ofString "\\n"
  else if u == 0x0D then ofString "\\r"
  else if u == 0x09 then ofString "\\t"
  else if u < 0x10 then ofString "\\u000" ++ Text.digits 16 u.toNat
  else if u < 0x20 then ofString "\\u00" ++ Text.digits 16 u.toNat
  else [u]

def quote (t : Text) : Text := 0x22 :: t.flatMap escapeUnit ++ [0x22]

def number (n : Binary64) : Text := if n.isFinite then n.toText else ofString "null"

def newline (level : Nat) : Text := 0x0A :: List.replicate (2 * level) 0x20

/-- What stands between the brackets: the parts, on one line or on lines of their own. -/
def block (wide : Bool) (level : Nat) (parts : List Text) : Text :=
  if parts.isEmpty then []
  else if wide then
    newline (level + 1) ++ Text.join (0x2C :: newline (level + 1)) parts ++ newline level
  else Text.join [0x2C] parts

mutual

/-- A value on the given level; `wide` gives each item a line of its own. -/
def write (wide : Bool) (level : Nat) : Value → Text
  | .null => ofString "null"
  | .bool true => ofString "true"
  | .bool false => ofString "false"
  | .number n => number n
  | .text t => quote t
  | .list items => [0x5B] ++ block wide level (writeItems wide (level + 1) items) ++ [0x5D]
  | .record fields => [0x7B] ++ block wide level (writeFields wide (level + 1) fields) ++ [0x7D]

def writeItems (wide : Bool) (level : Nat) : List Value → List Text
  | [] => []
  | v :: rest => write wide level v :: writeItems wide level rest

def writeFields (wide : Bool) (level : Nat) : List (Text × Value) → List Text
  | [] => []
  | (name, v) :: rest =>
    (quote name ++ ofString (if wide then ": " else ":") ++ write wide level v) :: writeFields wide level rest

end

def compact (v : Value) : Text := write false 0 v

def indented (v : Value) : Text := write true 0 v

end Typeahead.Json
