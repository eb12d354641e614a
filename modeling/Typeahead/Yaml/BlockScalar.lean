import Typeahead.Yaml.Scan

/-!
# Block scalars

Scalars whose lines are set apart by their indentation, kept as they are or folded.  The mark before
them may give the indentation, and tells what becomes of the line ends after the text.
-/

namespace Typeahead.Yaml

inductive Chomping where
  | clip | strip | keep
deriving Repr, DecidableEq

structure BlockHeader where
  chomping : Chomping
  width : Option Nat

def blockHeader : (fuel : Nat) → BlockHeader → Scan BlockHeader
  | 0, h => pure h
  | fuel + 1, h => do
    match (← here).head? with
    | none => return h
    | some u =>
      if u == 0x2B || u == 0x2D then
        need (h.chomping == .clip)
        pass 1
        blockHeader fuel { h with chomping := if u == 0x2B then .keep else .strip }
      else if u.isDigit then
        need (u != 0x30 && h.width.isNone)
        pass 1
        blockHeader fuel { h with width := some (u.toNat - 0x30) }
      else return h

/-- A block scalar while its lines are read: the indentation of its text, and whether that is
settled; how many empty lines were passed; and whether the last line was indented more. -/
structure BlockBody where
  text : Text
  width : Nat
  settled : Bool
  started : Bool
  empty : Nat
  deeper : Bool

/-- The line ends that come before the next line of text. -/
def BlockBody.breaks (b : BlockBody) : Text :=
  List.replicate (if b.started then b.empty + 1 else b.empty) 0x0A

def BlockBody.close (b : BlockBody) (chomping : Chomping) : Text :=
  match chomping with
  | .keep => b.text ++ b.breaks
  | .clip => if b.started then b.text ++ [0x0A] else b.text
  | .strip => b.text

def BlockBody.addLine (b : BlockBody) (folding : Bool) (line : Text) : BlockBody :=
  let deeper := line.head?.any isBlank
  let between :=
    if !folding || deeper then b.breaks
    else if b.deeper then List.replicate (b.empty + 1) 0x0A
    else if b.empty == 0 then (if b.started then [0x20] else [])
    else List.replicate b.empty 0x0A
  { b with
    text := b.text ++ between ++ line, settled := true, started := true, empty := 0
    deeper := folding && deeper }

def blockLines (folding : Bool) (chomping : Chomping) : (fuel : Nat) → BlockBody → Scan Text
  | 0, _ => failure
  | fuel + 1, b => do
    let c ← here
    if c.rest.isEmpty then return b.text
    let some c := c.lineBreak? | failure
    let c := c.measureIndent (if b.settled then some b.width else none)
    let b := if b.settled then b else { b with width := max b.width c.indent }
    if c.headIs isBreak then
      goTo c
      blockLines folding chomping fuel { b with empty := b.empty + 1 }
    else if c.indent < b.width then
      goTo c
      return b.close chomping
    else
      let line := c.rest.takeWhile fun u => !isBreak u
      need (line.all isPrintable)
      goTo c.dropLine
      blockLines folding chomping fuel (b.addLine folding line)

def blockScalar? (indent : Int) : Scan (Option Text) := do
  let c ← here
  if !c.headIs (fun u => u == 0x7C || u == 0x3E) then return none
  let folding := c.headIs (· == 0x3E)
  pass 1
  let h ← blockHeader (c.rest.length + 1) ⟨.clip, none⟩
  let c ← here
  if c.headIs isBlank then
    let c := c.dropWhile isBlank
    goTo (if c.headIs (· == 0x23) then c.dropLine else c)
  let width := match h.width with
    | some n => indent + n - 1
    | none => indent
  some <$> blockLines folding h.chomping (c.rest.length + 1)
    ⟨[], width.toNat, h.width.isSome, false, 0, false⟩

end Typeahead.Yaml
