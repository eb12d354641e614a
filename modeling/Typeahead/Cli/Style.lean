import Typeahead.Config.Environment
import Typeahead.Number.Read

/-!
# Styled text

Colours on a terminal.  A style is switched on before a text and off after it; it is off at line
breaks, and on again after each place where the text itself switches it off.
-/

namespace Typeahead

open Text (ofString)

/-- The numbers of the sequences that switch a style on and off. -/
structure Style where
  on : Nat
  off : Nat
deriving Repr, DecidableEq

namespace Style

def red : Style := ⟨31, 39⟩

def yellow : Style := ⟨33, 39⟩

def gray : Style := ⟨90, 39⟩

def dim : Style := ⟨2, 22⟩

def sequence (n : Nat) : Text := [0x1B, 0x5B] ++ Text.digits 10 n ++ [0x6D]

/-- Puts `before` before each line break and `behind` behind it. -/
def aroundBreaks (before behind : Text) : Text → Text
  | [] => []
  | 0x0D :: 0x0A :: rest => before ++ [0x0D, 0x0A] ++ behind ++ aroundBreaks before behind rest
  | u :: rest =>
    if u == 0x0A then before ++ [0x0A] ++ behind ++ aroundBreaks before behind rest
    else u :: aroundBreaks before behind rest

def paint (s : Style) (coloured : Bool) (t : Text) : Text :=
  if !coloured || t.isEmpty then t
  else
    let on := sequence s.on
    let off := sequence s.off
    on ++ aroundBreaks off on (t.replace off (off ++ on)) ++ off

end Style

/-! ## Whether there is colour -/

inductive ColourWish where
  | off
  | on
  | unsaid
deriving Repr, DecidableEq

namespace ColourWish

/-- What a value of `FORCE_COLOR` says: a level, of which zero is no colour. -/
def ofLevel (t : Text) : ColourWish :=
  if t.isEmpty || t == ofString "true" then .on
  else if t == ofString "false" then .off
  else
    let (negative, t) := DecimalLiteral.scanSign (t.dropWhile CodeUnit.isBlank)
    let digits := (DecimalLiteral.scanDigits t).1
    if digits.isEmpty then .unsaid
    else if Text.digitsValue 10 digits == 0 then .off
    else if negative then .unsaid
    else .on

def anyFlag (args : List Text) (names : List String) : Bool :=
  names.any fun name => (args.takeWhile (· != ofString "--")).contains (ofString ("--" ++ name))

/-- What the environment says, or else the flags. -/
def of (env : Environment) (args : List Text) : ColourWish :=
  match env.get? "FORCE_COLOR" with
  | some level => ofLevel level
  | none =>
    if anyFlag args ["no-color", "no-colors", "color=false", "color=never"] then .off
    else if anyFlag args ["color", "colors", "color=true", "color=always"] then .on
    else .unsaid

/-- Whether text is coloured where nobody sees it on a terminal. -/
def coloured (env : Environment) (args : List Text) : Bool :=
  match of env args with
  | .off => false
  | .on => true
  | .unsaid => anyFlag args ["color=16m", "color=full", "color=truecolor", "color=256"]

end ColourWish

end Typeahead
