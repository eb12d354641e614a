import Typeahead.Data.Value

/-!
# Session scripts

A script is a list of steps of a recorded session.  In a document each step is a record of one
field, which names the step.  The first step that is none is blamed by its index.  Of a document that
cannot be read only the format is told, and not the message of its reader.
-/

namespace Typeahead

/-- One step of a recorded session: keys typed one by one, a burst of input, a chunk of remote output,
time that passes, echo held back, or a session cleared.  A step of any other kind does nothing. -/
inductive SessionStep where
  | type (data : Text)
  | input (data : Text)
  | output (data : Text)
  | wait (millis : Binary64)
  | pause (millis : Binary64)
  | clear
  | other
deriving Repr, DecidableEq

inductive StepFault where
  | notRecord
  | notOneField
  | notText (key : Text)
  | notMillis (key : Text)
  | clearNotTrue
  | unknownKey (key : Text)
deriving Repr, DecidableEq

inductive ScriptError where
  | unreadable (format : String)
  | notList
  | step (index : Nat) (fault : StepFault)
deriving Repr, DecidableEq

open Text (ofString)

def StepFault.message : StepFault → Text
  | .notRecord => ofString "expected an object"
  | .notOneField => ofString "expected exactly one of type, input, output, wait, pause, clear"
  | .notText key => ofString "'" ++ key ++ ofString "' must be a string"
  | .notMillis key => ofString "'" ++ key ++ ofString "' must be a non-negative number of milliseconds"
  | .clearNotTrue => ofString "'clear' must be true"
  | .unknownKey key => ofString "unknown step '" ++ key ++ ofString "'"

namespace ScriptError

def message : ScriptError → Text
  | .unreadable format => ofString ("could not parse " ++ format)
  | .notList => ofString "a session script must be a list of steps"
  | .step index fault =>
    ofString "step " ++ Text.digits 10 index ++ ofString ": " ++ fault.message

def stepIndex? : ScriptError → Option Nat
  | .step index _ => some index
  | _ => none

end ScriptError

namespace SessionStep

def ofText (make : Text → SessionStep) (key : Text) : Value → Except StepFault SessionStep
  | .text data => .ok (make data)
  | _ => .error (.notText key)

def ofMillis (make : Binary64 → SessionStep) (key : Text) : Value → Except StepFault SessionStep
  | .number millis => if millis.isDuration then .ok (make millis) else .error (.notMillis key)
  | _ => .error (.notMillis key)

def ofField (key : Text) (v : Value) : Except StepFault SessionStep :=
  if key == ofString "type" then ofText .type key v
  else if key == ofString "input" then ofText .input key v
  else if key == ofString "output" then ofText .output key v
  else if key == ofString "wait" then ofMillis .wait key v
  else if key == ofString "pause" then ofMillis .pause key v
  else if key == ofString "clear" then
    match v with
    | .bool true => .ok .clear
    | _ => .error .clearNotTrue
  else .error (.unknownKey key)

def ofValue : Value → Except StepFault SessionStep
  | .record [(key, v)] => ofField key v
  | .record _ => .error .notOneField
  | _ => .error .notRecord

/-- The steps that the values spell, the first of which has the given index. -/
def ofValues (index : Nat) : List Value → Except ScriptError (List SessionStep)
  | [] => .ok []
  | v :: rest =>
    match ofValue v with
    | .error fault => .error (.step index fault)
    | .ok step =>
      match ofValues (index + 1) rest with
      | .error e => .error e
      | .ok steps => .ok (step :: steps)

/-- The steps of a document, which is a list of steps or a record whose field `steps` is one. -/
def ofDocument (document : Value) : Except ScriptError (List SessionStep) :=
  let steps := match document with
    | .record fields => (Value.field? (ofString "steps") fields).getD .null
    | v => v
  match steps with
  | .list items => ofValues 0 items
  | _ => .error .notList

end SessionStep

end Typeahead
