import Typeahead.Yaml.BlockScalar
import Typeahead.Yaml.Construct
import Typeahead.Yaml.FlowScalar
import Typeahead.Yaml.Properties

/-!
# Reading YAML

Reads the one document of a text.  The layout decides what belongs together: a node is read with the
indentation of the node around it, and a collection goes on as long as its entries start in its
column.  Bounds named `fuel` come from the length of the text and never run out before it does.
-/

namespace Typeahead.Yaml

open Text (ofString)

/-! ## Nodes -/

/-- Where a node stands: in a block collection, as the value of a mapping or a document, inside a flow
collection, or as the key of a mapping. -/
inductive Context where
  | blockIn | blockOut | flowIn | flowOut
deriving Repr, DecidableEq

def Context.isBlock : Context → Bool
  | .blockIn | .blockOut => true
  | _ => false

/-- A mapping while it is read: its entries, the key that waits for a value, and whether that key was
written with a question mark. -/
structure MapState where
  entries : Entries
  keyTag : Option Tag
  key : Value
  explicitKey : Bool
  detected : Bool

def MapState.store (m : MapState) (v : Value) : Scan MapState := do
  let entries ← (m.entries.store? m.keyTag m.key v : Option Entries)
  return { m with entries, keyTag := none, key := .null }

/-- What came of an attempt to read a block mapping: a mapping, a node that turned out not to be a
key, or nothing.  `tried` tells whether a key was looked for. -/
inductive MapResult where
  | mapping (fields : List (Text × Value))
  | kept (node : Node)
  | nothing (tried : Bool)

def MapState.finish (m : MapState) (tried : Bool) : Scan MapResult := do
  let m ← if m.explicitKey then m.store .null else pure m
  if m.detected then return .mapping m.entries.fields else return .nothing tried

/-- What a node holds, before its tag is applied; `plain` tells whether it is a plain scalar. -/
structure Content where
  value : Value
  form : Option Form
  plain : Bool

def Content.sequence (items : List Value) : Content := ⟨.list items, some .sequence, false⟩

def Content.mapping (fields : List (Text × Value)) : Content := ⟨.record fields, some .mapping, false⟩

def Content.text (t : Text) : Content := ⟨.text t, some .scalar, false⟩

/-- A scalar of any style, or an alias, if one starts here.  Only in a block may it be a block scalar,
and an alias has no properties of its own. -/
def scalar? (indent : Int) (ctx : Context) (bare : Bool) : Scan (Option Content) := do
  let c ← here
  let block ← if ctx.isBlock then blockScalar? indent else pure none
  if let some t := block then return some (.text t)
  if c.headIs (· == 0x27) then
    pass 1
    return some (.text (← singleQuoted (c.rest.length + 1) []))
  if c.headIs (· == 0x22) then
    pass 1
    return some (.text (← doubleQuoted (c.rest.length + 1) []))
  if let some v ← alias? then
    need bare
    return some ⟨v, none, false⟩
  let plain ← plainScalar? indent (ctx == .flowIn)
  return plain.map fun t => { Content.text t with plain := true }

mutual

def readNode (fuel : Nat) (parent : Int) (ctx : Context) (seek compact : Bool) : Scan Node :=
  match fuel with
  | 0 => failure
  | fuel + 1 => do
    let breaks ← if seek then skip else pure 0
    let order ← if breaks == 0 then pure .gt else placed parent
    let p : Properties := ⟨none, none, breaks != 0, ctx.isBlock, order⟩
    let p ← if order == .gt then properties parent ctx.isBlock ((← here).rest.length + 1) p else pure p
    let blocks := p.allowBlocks && (p.atLineStart || compact)
    let column := (← here).column
    let flowIndent := if ctx.isBlock then parent + 1 else parent
    let (p, content) ←
      if p.placed == .gt then readContent fuel p flowIndent column ctx blocks
      else if p.placed == .eq && ctx == .blockOut && blocks then do
        let items ← blockSequence? fuel p.anchor column
        pure (p, items.map .sequence)
      else pure (p, none)
    let tag := if p.tag.isNone && content.any (·.plain) then some .implicit else p.tag
    let present := content.isSome || tag.isSome || p.anchor.isSome
    let value := (content.map (·.value)).getD .null
    let node ← (applyTag ⟨value, content.bind (·.form), tag, present⟩ : Option Node)
    anchorAs p.anchor node.value
    return node

/-- Reads what a node with the given properties holds.  A search for a block mapping that finds no key
forgets the properties. -/
def readContent (fuel : Nat) (p : Properties) (flowIndent : Int) (column : Nat) (ctx : Context)
    (blocks : Bool) : Scan (Properties × Option Content) :=
  match fuel with
  | 0 => failure
  | fuel + 1 => do
    let items ← if blocks then blockSequence? fuel p.anchor column else pure none
    if let some items := items then return (p, some (.sequence items))
    let found ← if blocks then blockMapping fuel p.anchor column flowIndent else pure (.nothing false)
    match found with
    | .mapping fields => return (p, some (.mapping fields))
    | .kept node => return (p, some ⟨node.value, node.form, false⟩)
    | .nothing tried =>
      let p := if tried then { p with tag := none, anchor := none } else p
      let c ← here
      if c.headIs (· == 0x5B) then
        anchorAs p.anchor (.list [])
        pass 1
        let (items, _) ← flowItems fuel flowIndent false [] ⟨[], []⟩ true
        return (p, some (.sequence items))
      if c.headIs (· == 0x7B) then
        anchorAs p.anchor (.record [])
        pass 1
        let (_, fields) ← flowItems fuel flowIndent true [] ⟨[], []⟩ true
        return (p, some (.mapping fields))
      return (p, ← scalar? flowIndent ctx (p.tag.isNone && p.anchor.isNone))

/-- The items of a block sequence whose marks stand in `column`, if one starts here. -/
def blockSequence? (fuel : Nat) (anchor : Option Text) (column : Nat) : Scan (Option (List Value)) :=
  match fuel with
  | 0 => failure
  | fuel + 1 => do
    if (← here).tabbed then return none
    anchorAs anchor (.list [])
    sequenceItems fuel column [] false

def sequenceItems (fuel : Nat) (column : Nat) (done : List Value) (detected : Bool) :
    Scan (Option (List Value)) :=
  match fuel with
  | 0 => failure
  | fuel + 1 => do
    let c ← here
    let finish : Option (List Value) := if detected then some done.reverse else none
    if c.rest.isEmpty then return finish
    need (!c.tabbed)
    if !(c.headIs (· == 0x2D) && c.nextIs isGap) then return finish
    pass 1
    let breaks ← skip
    let c ← here
    if breaks != 0 && c.indent ≤ column then sequenceItems fuel column (.null :: done) true
    else
      let node ← readNode fuel column .blockIn false true
      let _ ← skip
      let next ← here
      need (!((next.line == c.line || column < next.indent) && !next.rest.isEmpty))
      let done := node.value :: done
      if next.indent < column then return some done.reverse
      else sequenceItems fuel column done true

/-- A block mapping whose keys stand in `column`, if one starts here. -/
def blockMapping (fuel : Nat) (anchor : Option Text) (column : Nat) (flowIndent : Int) : Scan MapResult :=
  match fuel with
  | 0 => failure
  | fuel + 1 => do
    if (← here).tabbed then return .nothing false
    anchorAs anchor (.record [])
    mappingEntries fuel column flowIndent ⟨⟨[], []⟩, none, .null, false, false⟩

def mappingEntries (fuel : Nat) (column : Nat) (flowIndent : Int) (m : MapState) : Scan MapResult :=
  match fuel with
  | 0 => failure
  | fuel + 1 => do
    let c ← here
    if c.rest.isEmpty then return ← m.finish false
    need (m.explicitKey || !c.tabbed)
    if c.headIs (fun u => u == 0x3F || u == 0x3A) && c.nextIs isGap then
      if c.headIs (· == 0x3F) then
        let m ← if m.explicitKey then m.store .null else pure m
        pass 1
        mappingValue fuel column flowIndent c.line true { m with detected := true, explicitKey := true }
      else
        need m.explicitKey
        pass 1
        mappingValue fuel column flowIndent c.line true { m with explicitKey := false }
    else
      let node ← readNode fuel flowIndent .flowOut false true
      if !node.present then return ← m.finish true
      let after := (← here).dropWhile isBlank
      if (← here).line != c.line then
        need (!m.detected)
        return .kept node
      else if after.headIs (· == 0x3A) then
        need (after.nextIs isGap)
        goTo (after.drop 1)
        let m ← if m.explicitKey then m.store .null else pure m
        mappingValue fuel column flowIndent c.line false
          { m with detected := true, explicitKey := false, keyTag := node.tag, key := node.value }
      else
        need (!m.detected)
        goTo after
        return .kept node

/-- Reads what follows the mark of a key or of a value, in the line `line`. -/
def mappingValue (fuel : Nat) (column : Nat) (flowIndent : Int) (line : Nat) (compact : Bool)
    (m : MapState) : Scan MapResult :=
  match fuel with
  | 0 => failure
  | fuel + 1 => do
    let node ← readNode fuel column .blockOut true compact
    let v := if node.present then node.value else .null
    let m ←
      if m.explicitKey then pure (if node.present then { m with key := v } else m)
      else m.store v
    let _ ← skip
    let next ← here
    need (!((next.line == line || column < next.indent) && !next.rest.isEmpty))
    if next.indent < column then m.finish false
    else mappingEntries fuel column flowIndent m

/-- Reads the entries of a flow collection up to its end; `done` holds the items before, last first,
and `ready` tells whether an entry may follow. -/
def flowItems (fuel : Nat) (indent : Int) (mapping : Bool) (done : List Value) (entries : Entries)
    (ready : Bool) : Scan (List Value × List (Text × Value)) :=
  match fuel with
  | 0 => failure
  | fuel + 1 => do
    let _ ← skip
    let c ← here
    need (!c.rest.isEmpty)
    if c.headIs (· == if mapping then 0x7D else 0x5D) then
      pass 1
      return (done.reverse, entries.fields)
    need (ready && !c.headIs (· == 0x2C))
    let explicitPair := c.headIs (· == 0x3F) && c.nextIs isGap
    if explicitPair then
      pass 1
      let _ ← skip
    let line := (← here).line
    let key ← readNode fuel indent .flowIn false true
    let _ ← skip
    let c ← here
    let pair := (explicitPair || c.line == line) && c.headIs (· == 0x3A)
    let v ← if pair then do
        pass 1
        let _ ← skip
        readNode fuel indent .flowIn false true
      else pure ⟨.null, none, none, false⟩
    let (done, entries) ←
      if mapping then do
        let entries ← (entries.store? key.tag key.value v.value : Option Entries)
        pure (done, entries)
      else if pair || explicitPair then do
        let single ← (Entries.store? ⟨[], entries.merged⟩ key.tag key.value v.value : Option Entries)
        pure (.record single.fields :: done, ⟨[], single.merged⟩)
      else pure (key.value :: done, entries)
    let _ ← skip
    let comma := (← here).headIs (· == 0x2C)
    if comma then pass 1
    flowItems fuel indent mapping done entries comma

end

/-! ## Documents -/

def arguments : (fuel : Nat) → Scan (List Text)
  | 0 => failure
  | fuel + 1 => do
    let c := (← here).dropWhile isBlank
    goTo c
    if c.rest.isEmpty || c.headIs isBreak then return []
    if c.headIs (· == 0x23) then
      goTo c.dropLine
      return []
    let argument ← word false
    return argument :: (← arguments fuel)

def isVersion (t : Text) : Bool :=
  let major := t.takeWhile CodeUnit.isDigit
  match t.dropWhile CodeUnit.isDigit with
  | 0x2E :: minor =>
    !major.isEmpty && !minor.isEmpty && minor.all CodeUnit.isDigit && Text.digitsValue 10 major == 1
  | _ => false

def directive (versioned : Bool) (name : Text) (args : List Text) : Scan Bool :=
  if name == ofString "YAML" then do
    need (!versioned)
    match args with
    | [version] => need (isVersion version)
    | _ => failure
    return true
  else if name == ofString "TAG" then do
    match args with
    | [handle, start] =>
      need (isHandle handle && !((← get).handles.any fun h => h.1 == handle))
      need (!start.isEmpty && isTagName start)
      let start ← (decodeTag? (start.length + 1) start : Option Text)
      modify fun s => { s with handles := (handle, start) :: s.handles }
    | _ => failure
    return versioned
  else return versioned

def directives : (fuel : Nat) → (versioned found : Bool) → Scan Bool
  | 0, _, _ => failure
  | fuel + 1, versioned, found => do
    if (← here).rest.isEmpty then return found
    let _ ← skip
    let c ← here
    if 0 < c.indent || !c.headIs (· == 0x25) then return found
    pass 1
    let name ← word false
    need (!name.isEmpty)
    let args ← arguments (c.rest.length + 1)
    let c ← here
    if !c.rest.isEmpty then
      let some next := c.lineBreak? | failure
      goTo next
    directives fuel (← directive versioned name args) true

def document : Scan Value := do
  let found ← directives ((← here).rest.length + 1) false false
  let _ ← skip
  let c ← here
  if c.indent == 0 && c.rest.take 3 == [0x2D, 0x2D, 0x2D] then
    pass 3
    let _ ← skip
  else need (!found)
  let c ← here
  let node ← readNode (8 * c.rest.length + 32) ((c.indent : Int) - 1) .blockOut false true
  let _ ← skip
  let c ← here
  if c.atMarker then
    if c.headIs (· == 0x2E) then
      pass 3
      let _ ← skip
  else need (c.rest.length ≤ 1)
  return node.value

def prepared (t : Text) : Text :=
  let t := if t.getLast?.all isBreak then t else t ++ [0x0A]
  if t.head? == some 0xFEFF then t.drop 1 else t

/-- The value of the one document in a text, or nothing if the text is refused.  A text without a
document is `null`. -/
def read? (t : Text) : Option Value := do
  let t := prepared t
  if t.contains 0 then none
  else
    let c := (Cursor.start t).measureIndent none
    if c.rest.length ≤ 1 then some .null
    else
      let (v, s) ← document.run ⟨c, [], []⟩
      if s.cursor.rest.length ≤ 1 then some v else none

end Typeahead.Yaml
