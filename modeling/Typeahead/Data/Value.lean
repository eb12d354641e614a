import Typeahead.Number.Format

/-!
# Document values

What a JSON or YAML document holds: nothing, truth values, numbers, text, lists, and records with
named fields.  Field names of a record do not repeat; a later field of a name replaces the earlier.
-/

namespace Typeahead

inductive Value where
  | null
  | bool (b : Bool)
  | number (n : Binary64)
  | text (t : Text)
  | list (items : List Value)
  | record (fields : List (Text × Value))
deriving Repr, Inhabited

namespace Value

def field? (name : Text) : List (Text × Value) → Option Value
  | [] => none
  | (key, v) :: rest => if key == name then some v else field? name rest

/-- Sets the field `name`: in its place if it is there, and at the end if it is not. -/
def setField (name : Text) (v : Value) : List (Text × Value) → List (Text × Value)
  | [] => [(name, v)]
  | (key, w) :: rest => if key == name then (key, v) :: rest else (key, w) :: setField name v rest

/-! ## Values inside a sentence -/

mutual

/-- A value as it is quoted in a sentence: a list is its items with commas between them, and a record
is not spelled out.  A record with a field of its own named `toString` cannot be quoted. -/
def quoted? : Value → Option Text
  | .null => some (Text.ofString "null")
  | .bool true => some (Text.ofString "true")
  | .bool false => some (Text.ofString "false")
  | .number n => some n.toText
  | .text t => some t
  | .list items => (quotedItems? items).map (Text.join [0x2C])
  | .record fields =>
    if (field? (Text.ofString "toString") fields).isSome then none
    else some (Text.ofString "[object Object]")

/-- The items of a list as they are quoted; `null` leaves its place empty. -/
def quotedItems? : List Value → Option (List Text)
  | [] => some []
  | .null :: rest => (quotedItems? rest).map ([] :: ·)
  | v :: rest => do return (← quoted? v) :: (← quotedItems? rest)

end

def texts? : List Value → Option (List Text)
  | [] => some []
  | .text t :: rest => (texts? rest).map (t :: ·)
  | _ :: _ => none

/-! ## Equality -/

mutual

def decEq : (v w : Value) → Decidable (v = w)
  | .null, w =>
    match w with
    | .null => .isTrue rfl
    | .bool _ | .number _ | .text _ | .list _ | .record _ => .isFalse nofun
  | .bool a, w =>
    match w with
    | .bool b => decidable_of_iff (a = b) ⟨congrArg bool, bool.inj⟩
    | .null | .number _ | .text _ | .list _ | .record _ => .isFalse nofun
  | .number a, w =>
    match w with
    | .number b => decidable_of_iff (a = b) ⟨congrArg number, number.inj⟩
    | .null | .bool _ | .text _ | .list _ | .record _ => .isFalse nofun
  | .text a, w =>
    match w with
    | .text b => decidable_of_iff (a = b) ⟨congrArg text, text.inj⟩
    | .null | .bool _ | .number _ | .list _ | .record _ => .isFalse nofun
  | .list a, w =>
    match w with
    | .list b =>
      have := decEqItems a b
      decidable_of_iff (a = b) ⟨congrArg list, list.inj⟩
    | .null | .bool _ | .number _ | .text _ | .record _ => .isFalse nofun
  | .record a, w =>
    match w with
    | .record b =>
      have := decEqFields a b
      decidable_of_iff (a = b) ⟨congrArg record, record.inj⟩
    | .null | .bool _ | .number _ | .text _ | .list _ => .isFalse nofun

def decEqItems : (a b : List Value) → Decidable (a = b)
  | [], [] => .isTrue rfl
  | [], _ :: _ | _ :: _, [] => .isFalse nofun
  | v :: a, w :: b =>
    have := decEq v w
    have := decEqItems a b
    decidable_of_iff (v = w ∧ a = b) List.cons_eq_cons.symm

def decEqFields : (a b : List (Text × Value)) → Decidable (a = b)
  | [], [] => .isTrue rfl
  | [], _ :: _ | _ :: _, [] => .isFalse nofun
  | (name, v) :: a, (other, w) :: b =>
    have := decEq v w
    have := decEqFields a b
    decidable_of_iff ((name = other ∧ v = w) ∧ a = b) (by rw [List.cons_eq_cons, Prod.mk.injEq])

end

instance : DecidableEq Value := decEq

end Value

end Typeahead
