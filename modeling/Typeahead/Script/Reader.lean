import Typeahead.Files.Path
import Typeahead.Json.Reader
import Typeahead.Script.Step
import Typeahead.Yaml.Reader

/-!
# Reading scripts

A script is a JSON document if the path of its file says so, and a YAML document otherwise.
-/

namespace Typeahead

inductive ScriptFormat where
  | json
  | yaml
deriving Repr, DecidableEq

namespace ScriptFormat

def ofPath (path : Text) : ScriptFormat := if Path.hasExt path [".json"] then .json else .yaml

def extension : ScriptFormat → String
  | .json => "json"
  | .yaml => "yaml"

def name : ScriptFormat → String
  | .json => "JSON"
  | .yaml => "YAML"

def document? : ScriptFormat → Text → Option Value
  | .json, t => Json.read? t
  | .yaml, t => Yaml.read? t

def parse (f : ScriptFormat) (t : Text) : Except ScriptError (List SessionStep) :=
  match f.document? t with
  | some document => SessionStep.ofDocument document
  | none => .error (.unreadable f.name)

end ScriptFormat

end Typeahead
