import Typeahead.Yaml.Scan

/-!
# Plain and quoted scalars

Scalars without quotes, in single quotes and in double quotes.  They may go on over several lines,
which are folded: one line end is a space, and each further one a line feed.
-/

namespace Typeahead.Yaml

/-- Whether a plain scalar ends before `u`, with `previous` before it and `rest` after. -/
def endsPlain (inFlow : Bool) (previous : Option CodeUnit) (u : CodeUnit) (rest : Text) : Bool :=
  isBreak u ||
  (u == 0x3A && rest.head?.any (fun v => isGap v || (inFlow && isFlowMark v))) ||
  (u == 0x23 && previous.any isGap) ||
  (inFlow && isFlowMark u)

def plainLength (inFlow : Bool) : (previous : Option CodeUnit) → Text → Nat
  | _, [] => 0
  | previous, u :: rest =>
    if endsPlain inFlow previous u rest then 0 else 1 + plainLength inFlow (some u) rest

def Cursor.plainStops (c : Cursor) (inFlow : Bool) : Bool :=
  c.atMarker || plainLength inFlow c.previous c.rest == 0

/-- Reads the lines of a plain scalar; `done` is the text of the lines before. -/
def plainLines (indent : Int) (inFlow : Bool) : (fuel : Nat) → (done : Text) → Scan Text
  | 0, _ => failure
  | fuel + 1, done => do
    let c ← here
    let n := plainLength inFlow c.previous c.rest
    let piece := dropEndBlanks (c.rest.take n)
    need (piece.all isPrintable)
    let after := c.drop n
    let done := done ++ piece
    if after.headIs isBreak then
      let (next, breaks) := after.skipGaps
      if indent ≤ next.indent then
        goTo next
        if next.plainStops inFlow then return done
        else plainLines indent inFlow fuel (done ++ folded breaks)
      else
        goTo { c.drop piece.length with tabbed := next.tabbed }
        return done
    else
      goTo after
      return done

def isIndicator (u : CodeUnit) : Bool :=
  isGap u || isFlowMark u || u == 0x23 || u == 0x26 || u == 0x2A || u == 0x21 || u == 0x7C || u == 0x3E ||
  u == 0x27 || u == 0x22 || u == 0x25 || u == 0x40 || u == 0x60

def plainScalar? (indent : Int) (inFlow : Bool) : Scan (Option Text) := do
  let c ← here
  let hyphen := c.headIs fun u => u == 0x3F || u == 0x2D
  let gap := c.nextIs fun u => isGap u || (inFlow && isFlowMark u)
  if c.rest.isEmpty || c.headIs isIndicator || (hyphen && gap) || c.plainStops inFlow then return none
  else some <$> plainLines indent inFlow (c.rest.length + 1) []

def singleQuoted : (fuel : Nat) → (done : Text) → Scan Text
  | 0, _ => failure
  | fuel + 1, done => do
    let c ← here
    match c.rest with
    | [] => failure
    | 0x27 :: 0x27 :: _ => pass 2; singleQuoted fuel (0x27 :: done)
    | 0x27 :: _ => pass 1; return done.reverse
    | u :: _ =>
      if isBreak u then
        let (next, breaks) := c.skipGaps
        goTo next
        singleQuoted fuel ((folded breaks).reverse ++ done)
      else
        need (!c.atMarker && isQuotable u)
        pass 1
        singleQuoted fuel (u :: done)

def unescape? (u : CodeUnit) : Option CodeUnit :=
  match u with
  | 0x30 => some 0x00
  | 0x61 => some 0x07
  | 0x62 => some 0x08
  | 0x74 => some 0x09
  | 0x09 => some 0x09
  | 0x6E => some 0x0A
  | 0x76 => some 0x0B
  | 0x66 => some 0x0C
  | 0x72 => some 0x0D
  | 0x65 => some 0x1B
  | 0x20 => some 0x20
  | 0x22 => some 0x22
  | 0x2F => some 0x2F
  | 0x5C => some 0x5C
  | 0x4E => some 0x85
  | 0x5F => some 0xA0
  | 0x4C => some 0x2028
  | 0x50 => some 0x2029
  | _ => none

def hexLength? (u : CodeUnit) : Option Nat :=
  if u == 0x78 then some 2 else if u == 0x75 then some 4 else if u == 0x55 then some 8 else none

def doubleQuoted : (fuel : Nat) → (done : Text) → Scan Text
  | 0, _ => failure
  | fuel + 1, done => do
    let c ← here
    match c.rest with
    | [] => failure
    | 0x22 :: _ => pass 1; return done.reverse
    | 0x5C :: rest =>
      match rest with
      | [] => failure
      | u :: rest =>
        if isBreak u then
          goTo (c.drop 1).skipGaps.1
          doubleQuoted fuel done
        else
          match unescape? u, hexLength? u with
          | some v, _ => pass 2; doubleQuoted fuel (v :: done)
          | none, some n =>
            let digits := rest.take n
            need (digits.length == n && digits.all CodeUnit.isHexDigit)
            pass (2 + n)
            doubleQuoted fuel ((Text.ofCodePoint (Text.digitsValue 16 digits)).reverse ++ done)
          | none, none => failure
    | u :: _ =>
      if isBreak u then
        let (next, breaks) := c.skipGaps
        goTo next
        doubleQuoted fuel ((folded breaks).reverse ++ done)
      else
        need (!c.atMarker && isQuotable u)
        pass 1
        doubleQuoted fuel (u :: done)

end Typeahead.Yaml
