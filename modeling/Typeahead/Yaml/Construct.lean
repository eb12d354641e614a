import Typeahead.Yaml.Scan

/-!
# Values of nodes

What a node that was read is worth: the entries of mappings with their merges, and the values that
tags make.  Binary data is a record with a field for each byte.  The bytes are not kept, so where their
text would count, in a line that quotes them or as a key, it reads `[object Object]`.
-/

namespace Typeahead.Yaml

open Text (ofString)

/-! ## Mappings -/

/-- The entries of a mapping, and the keys that came from a merge and may still be set. -/
structure Entries where
  fields : List (Text × Value)
  merged : List Text

def keyItem? : Value → Option Value
  | .list _ => none
  | .record _ => some (.text (ofString "[object Object]"))
  | v => some v

def keyText? : Value → Option Text
  | .list items => do Value.quoted? (.list (← items.mapM keyItem?))
  | .record _ => some (ofString "[object Object]")
  | v => v.quoted?

/-- Adds entries from other mappings, except those that are there. -/
def Entries.mergeFields (e : Entries) (fields : List (Text × Value)) : Entries :=
  fields.foldl (fun e (name, v) =>
    if (Value.field? name e.fields).isSome then e
    else ⟨e.fields ++ [(name, v)], name :: e.merged⟩) e

def Entries.merge? (e : Entries) : Value → Option Entries
  | .record fields => some (e.mergeFields fields)
  | .list items =>
    some (e.mergeFields (items.zipIdx.map fun (v, i) => (Text.digits 10 i, v)))
  | _ => none

/-- Adds an entry.  A key may not come twice, but a key that came from a merge may be set. -/
def Entries.store? (e : Entries) (tag : Option Tag) (key v : Value) : Option Entries := do
  let name ← keyText? key
  if tag == some (.core .merge) then
    match v with
    | .list sources => sources.foldlM Entries.merge? e
    | source => e.merge? source
  else if (Value.field? name e.fields).isSome && !e.merged.contains name then none
  else some ⟨Value.setField name v e.fields, e.merged.filter (· != name)⟩

/-! ## Values by tag -/

def single? : Value → Option (Text × Value)
  | .record [entry] => some entry
  | _ => none

def distinct : List Text → Bool
  | [] => true
  | name :: rest => !rest.contains name && distinct rest

/-- The value that a core tag makes of what was read, if it accepts that. -/
def construct? (tag : CoreTag) (v : Value) : Option Value :=
  match tag, v with
  | .str, .null => some (.text [])
  | .str, v => some v
  | .null, .null => some .null
  | .merge, .null => some .null
  | .seq, .null => some (.list [])
  | .omap, .null => some (.list [])
  | .pairs, .null => some (.list [])
  | .map, .null => some (.record [])
  | .set, .null => some (.record [])
  | .seq, v => some v
  | .map, v => some v
  | .set, .record fields =>
    if fields.all fun (_, v) => match v with | .null => true | _ => false then some v else none
  | .omap, .list items => do
    let entries ← items.mapM single?
    if distinct (entries.map (·.1)) then some v else none
  | .pairs, .list items => do
    let entries ← items.mapM single?
    some (.list (entries.map fun (name, v) => .list [.text name, v]))
  | .int, .text t => (int? t).map .number
  | .float, .text t => (float? t).map .number
  | .timestamp, .text t => if isTimestamp t then some dateValue else none
  | .merge, .text t => if t == ofString "<<" then some v else none
  | .binary, .text t =>
    (base64Size? t).map fun n => .record ((List.range n).map fun i => (Text.digits 10 i, .number 0))
  | .null, .text t => do
    let (tag, v) ← resolve? t
    if tag == .null then some v else none
  | .bool, .text t => do
    let (tag, v) ← resolve? t
    if tag == .bool then some v else none
  | _, _ => none

def CoreTag.form : CoreTag → Form
  | .seq | .omap | .pairs => .sequence
  | .map | .set => .mapping
  | _ => .scalar

def isNull : Value → Bool
  | .null => true
  | _ => false

def applyTag (node : Node) : Option Node :=
  match node.tag with
  | none | some .untyped => some node
  | some .unknown => none
  | some .implicit =>
    if !isNull node.value && node.form != some .scalar then none
    else
      match node.value with
      | .text t =>
        match resolve? t with
        | some (tag, v) => some { node with value := v, tag := some (.core tag) }
        | none => some node
      | _ => some node
  | some (.core tag) =>
    if !isNull node.value && node.form != some tag.form then none
    else (construct? tag node.value).map fun v => { node with value := v }

end Typeahead.Yaml
