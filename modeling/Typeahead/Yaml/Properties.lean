import Typeahead.Yaml.Scan

/-!
# Tags, anchors and aliases

What may stand before a node: a tag that decides on its value, and a name by which an alias calls it
again.
-/

namespace Typeahead.Yaml

open Text (ofString)

/-- The part of the line up to a gap, or also to a flow mark. -/
def word (orFlowMark : Bool) : Scan Text := do
  let t := (← here).rest.takeWhile fun u => !(isGap u || (orFlowMark && isFlowMark u))
  pass t.length
  return t

def tagNamed (name : Text) : Tag :=
  let core : List (String × CoreTag) :=
    [("null", .null), ("bool", .bool), ("int", .int), ("float", .float), ("timestamp", .timestamp),
     ("merge", .merge), ("binary", .binary), ("str", .str), ("seq", .seq), ("omap", .omap),
     ("pairs", .pairs), ("map", .map), ("set", .set)]
  if name == ofString "?" then .implicit
  else if name == ofString "!" then .untyped
  else match core.find? fun (short, _) => name == ofString ("tag:yaml.org,2002:" ++ short) with
    | some (_, tag) => .core tag
    | none => .unknown

/-- Whether a text is a tag handle: `!`, `!!`, or letters and hyphens between two marks. -/
def isHandle (t : Text) : Bool :=
  t == ofString "!" || t == ofString "!!" ||
  (2 < t.length && t.head? == some 0x21 && t.getLast? == some 0x21 &&
    (t.drop 1).dropLast.all fun u => u.isLetter || u == 0x2D)

/-- Decodes `%` escapes of ASCII characters; others are no part of a known tag. -/
def decodeTag? (fuel : Nat) (t : Text) : Option Text :=
  match fuel, t with
  | 0, _ => none
  | _, [] => some []
  | fuel + 1, 0x25 :: rest =>
    if (rest.take 2).length == 2 && (rest.take 2).all CodeUnit.isHexDigit then
      (decodeTag? fuel (rest.drop 2)).map ((Text.digitsValue 16 (rest.take 2)).toUInt16 :: ·)
    else none
  | fuel + 1, u :: rest => (decodeTag? fuel rest).map (u :: ·)

def isTagUnit (u : CodeUnit) : Bool :=
  u.isLetter || u.isDigit || (ofString "-#;/?:@&=+$,_.!~*'()[]%").contains u

def isTagName (t : Text) : Bool :=
  match t with
  | [] => true
  | u :: rest => (u == 0x21 || !isFlowMark u) && rest.all isTagUnit

def readTag : Scan Tag := do
  pass 1
  let c ← here
  if c.headIs (· == 0x3C) then
    let name := (c.rest.drop 1).takeWhile (· != 0x3E)
    need (name.length + 1 < c.rest.length && isTagName name)
    goTo (c.drop (name.length + 2))
    return tagNamed (← (decodeTag? (name.length + 1) name : Option Text))
  else
    let t ← word false
    let t := 0x21 :: t
    -- the handle ends at the last mark
    let suffix := (t.reverse.takeWhile (· != 0x21)).reverse
    let handle := t.take (t.length - suffix.length)
    need (isHandle handle && !suffix.any isFlowMark && isTagName suffix)
    let suffix ← (decodeTag? (suffix.length + 1) suffix : Option Text)
    match (← get).handles.find? fun h => h.1 == handle with
    | some (_, start) => return tagNamed (start ++ suffix)
    | none =>
      if handle == ofString "!" then return tagNamed (handle ++ suffix)
      else if handle == ofString "!!" then return tagNamed (ofString "tag:yaml.org,2002:" ++ suffix)
      else failure

/-- What comes before a node: its tag and name, whether it starts a line, whether block collections
may follow, and how its indentation compares with that of the node around it. -/
structure Properties where
  tag : Option Tag
  anchor : Option Text
  atLineStart : Bool
  allowBlocks : Bool
  placed : Ordering

/-- How the indentation of the line compares with that of the node around it. -/
def placed (parent : Int) : Scan Ordering := do return compare ((← here).indent : Int) parent

def properties (parent : Int) (blockStyles : Bool) : (fuel : Nat) → Properties → Scan Properties
  | 0, _ => failure
  | fuel + 1, p => do
    let c ← here
    let next : Option Properties ←
      if c.headIs (· == 0x21) then do
        need p.tag.isNone
        let tag ← readTag
        pure (some { p with tag := some tag })
      else if c.headIs (· == 0x26) then do
        need p.anchor.isNone
        pass 1
        let name ← word true
        need (!name.isEmpty)
        pure (some { p with anchor := some name })
      else pure none
    match next with
    | none => return p
    | some p =>
      if (← skip) == 0 then properties parent blockStyles fuel { p with allowBlocks := false }
      else
        properties parent blockStyles fuel
          { p with atLineStart := true, allowBlocks := blockStyles, placed := ← placed parent }

/-- An alias for a node that has begun.  Inside the node that it names it stands for the empty list or
record with which that node begins, so no value holds itself. -/
def alias? : Scan (Option Value) := do
  if !(← here).headIs (· == 0x2A) then return none
  pass 1
  let name ← word true
  need (!name.isEmpty)
  let some (_, v) := (← get).anchors.find? fun a => a.1 == name | failure
  let _ ← skip
  return some v

end Typeahead.Yaml
