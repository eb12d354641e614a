import Typeahead.Control.Pattern

/-!
# The control grammar

What counts as a control span unless told otherwise: the escape sequences of ECMA-48 and its
relatives, and the five single controls that shells send around echoed keys (backspace, line feed,
carriage return, delete and bell).  Each form is a function that gives the length of the form at the
head of a text; `Control.length?` tries them in order and the first that matches wins.
-/

namespace Typeahead.Control

/-! ## Single controls -/

def backspace : CodeUnit := 0x08
def lineFeed : CodeUnit := 0x0A
def carriageReturn : CodeUnit := 0x0D
def bell : CodeUnit := 0x07
def delete : CodeUnit := 0x7F
def escape : CodeUnit := 0x1B

def isSingle (u : CodeUnit) : Bool :=
  u == backspace || u == lineFeed || u == carriageReturn || u == delete || u == bell

def isC1 (u : CodeUnit) : Bool := 0x80 ≤ u && u ≤ 0x9F

/-- Cancel, substitute, escape and the C1 controls never stand inside a control string. -/
def endsString (u : CodeUnit) : Bool := u == 0x18 || u == 0x1A || u == escape || isC1 u

/-! ## Parts of forms -/

def runThen (f : CodeUnit → Bool) (next : Text → Option Nat) (t : Text) : Option Nat :=
  (next (t.dropWhile f)).map ((t.takeWhile f).length + ·)

/-- A string terminator: `ESC \` or its one-unit form. -/
def terminator? : Text → Option Nat
  | 0x1B :: 0x5C :: _ => some 2
  | 0x9C :: _ => some 1
  | _ => none

def bellOrTerminator? : Text → Option Nat
  | 0x07 :: _ => some 1
  | t => terminator? t

def unit? (f : CodeUnit → Bool) : Text → Option Nat
  | u :: _ => if f u then some 1 else none
  | [] => none

/-! ## Forms -/

/-- Sets one colour of the console palette, or resets it: `ESC ] P` with seven hexadecimal digits,
or `ESC ] R`.  A terminator may follow. -/
def palette? : Text → Option Nat
  | 0x1B :: 0x5D :: 0x50 :: rest =>
    if (rest.take 7).length == 7 && (rest.take 7).all CodeUnit.isHexDigit then
      some (10 + (bellOrTerminator? (rest.drop 7)).getD 0)
    else none
  | 0x1B :: 0x5D :: 0x52 :: rest => some (3 + (bellOrTerminator? rest).getD 0)
  | _ => none

def commandText? : Text → Option Nat :=
  runThen (fun u => !(u == bell || endsString u)) bellOrTerminator?

def systemCommand? : Text → Option Nat
  | 0x1B :: 0x5D :: rest => (commandText? rest).map (2 + ·)
  | 0x9D :: rest => (commandText? rest).map (1 + ·)
  | _ => none

/-- After `ESC`: device control string, start of string, privacy message, program command, title. -/
def opensString (u : CodeUnit) : Bool :=
  u == 0x50 || u == 0x58 || u == 0x5E || u == 0x5F || u == 0x6B

def opensStringC1 (u : CodeUnit) : Bool := u == 0x90 || u == 0x98 || u == 0x9E || u == 0x9F

def stringText? : Text → Option Nat := runThen (fun u => !endsString u) terminator?

def controlString? : Text → Option Nat
  | [] => none
  | 0x1B :: rest =>
    match rest with
    | u :: rest => if opensString u then (stringText? rest).map (2 + ·) else none
    | [] => none
  | u :: rest => if opensStringC1 u then (stringText? rest).map (1 + ·) else none

def isParameter (u : CodeUnit) : Bool := 0x30 ≤ u && u ≤ 0x3F

/-- Units between the parameters and the end of a sequence. -/
def isIntermediate (u : CodeUnit) : Bool := 0x20 ≤ u && u ≤ 0x2F

def isFinal (u : CodeUnit) : Bool := 0x40 ≤ u && u ≤ 0x7E

def sequenceBody? : Text → Option Nat := runThen isParameter (runThen isIntermediate (unit? isFinal))

def controlSequence? : Text → Option Nat
  | 0x1B :: 0x5B :: rest => (sequenceBody? rest).map (2 + ·)
  | 0x9B :: rest => (sequenceBody? rest).map (1 + ·)
  | _ => none

/-- Units that form an escape sequence right after `ESC`: `0-9 A-P R-T Z c f-o q-u y = > < ~ | }`. -/
def isShortFinal (u : CodeUnit) : Bool :=
  (0x30 ≤ u && u ≤ 0x39) || (0x41 ≤ u && u ≤ 0x50) || (0x52 ≤ u && u ≤ 0x54) || u == 0x5A || u == 0x63 ||
  (0x66 ≤ u && u ≤ 0x6F) || (0x71 ≤ u && u ≤ 0x75) || u == 0x79 || u == 0x3D || u == 0x3E || u == 0x3C ||
  u == 0x7E || u == 0x7C || u == 0x7D

def isLongFinal (u : CodeUnit) : Bool := 0x30 ≤ u && u ≤ 0x7E

def escapeSequence? : Text → Option Nat
  | 0x1B :: u :: rest =>
    if isIntermediate u then (runThen isIntermediate (unit? isLongFinal) rest).map (2 + ·)
    else if isShortFinal u then some 2
    else none
  | _ => none

def single? : Text → Option Nat := unit? isSingle

def length? (t : Text) : Option Nat :=
  palette? t <|> systemCommand? t <|> controlString? t <|> controlSequence? t <|> escapeSequence? t <|>
  single? t

/-- The control grammar as a pattern; what stands before a span never matters. -/
def pattern : Pattern := fun _ after => length? after

end Typeahead.Control

namespace Typeahead.Classifier

def standard : Classifier := Control.pattern.classifier

end Typeahead.Classifier
