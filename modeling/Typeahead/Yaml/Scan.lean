import Typeahead.Yaml.Cursor
import Typeahead.Yaml.Scalar

/-!
# Steps of the reader

What the reader holds while it goes through a text, and the nodes that it makes.  A step moves the
cursor on, or refuses the text.
-/

namespace Typeahead.Yaml

/-- A tag as written: one of the core schema, the tag that asks for no rule, or an unknown one. -/
inductive Tag where
  | core (tag : CoreTag)
  | untyped
  | implicit
  | unknown
deriving Repr, DecidableEq

inductive Form where
  | scalar | sequence | mapping
deriving Repr, DecidableEq

/-- A node that was read: its value and form, the tag that decided on the value, and whether there
was anything at all. -/
structure Node where
  value : Value
  form : Option Form
  tag : Option Tag
  present : Bool

structure State where
  cursor : Cursor
  anchors : List (Text × Value)
  handles : List (Text × Text)

abbrev Scan := StateT State Option

def here : Scan Cursor := do return (← get).cursor

def goTo (c : Cursor) : Scan Unit := modify fun s => { s with cursor := c }

def pass (n : Nat) : Scan Unit := do goTo ((← here).drop n)

def skip : Scan Nat := do
  let (c, breaks) := (← here).skip
  goTo c
  return breaks

def need (condition : Bool) : Scan Unit := if condition then pure () else failure

def anchorAs (name : Option Text) (v : Value) : Scan Unit :=
  match name with
  | some name => modify fun s => { s with anchors := (name, v) :: s.anchors }
  | none => pure ()

end Typeahead.Yaml
