import Typeahead.Config.Basic
import Typeahead.Config.Environment
import Typeahead.Files.FileTree
import Typeahead.Files.Path
import Typeahead.Json.Reader
import Typeahead.Json.Writer
import Typeahead.Yaml.Reader
import Typeahead.Yaml.Writer

/-!
# Settings in files and in the environment

Settings come from the environment, then from a file, then from the defaults; each of the three
settings is found on its own.  A value in the file that is no setting is dropped with a line in the
log, and so is a file that cannot be read as a record.  A file that is a directory is an error, and
so is a value that the log cannot quote.  The line about a file that its reader refuses names the kind
of failure only: the words in which a reader tells what it met, and where, are not modelled.
-/

namespace Typeahead

open Text (ofString)

/-! ## Where settings are kept -/

def EchoConfig.defaultPath (home : Text) : Text :=
  Path.child (Path.child home (ofString ".termecho")) (ofString "config.json")

/-- Files that stand in for the default file where it is missing, in order. -/
def EchoConfig.fallbackPaths (home : Text) : List Text :=
  ["config.yaml", "config.yml"].map fun name =>
    Path.child (Path.child home (ofString ".termecho")) (ofString name)

/-- Whether the settings at a path are kept as YAML; anything else is JSON. -/
def EchoConfig.isYamlPath (path : Text) : Bool := Path.hasExt path [".yaml", ".yml"]

/-! ## Values of settings -/

/-- A truth value, as such or as one of the texts `true`, `1`, `false` and `0`. -/
def Value.flag? : Value → Option Bool
  | .bool b => some b
  | .text t =>
    if t == ofString "true" || t == ofString "1" then some true
    else if t == ofString "false" || t == ofString "0" then some false
    else none
  | _ => none

/-- A number of milliseconds, as such or as text: finite and not negative. -/
def Value.millis? (v : Value) : Option Binary64 :=
  match v with
  | .number n => if n.isDuration then some n else none
  | .text t =>
    if t.trim.isEmpty then none
    else if (Binary64.ofText t).isDuration then some (.ofText t)
    else none
  | _ => none

def Value.keys? : Value → Option (List Text)
  | .list items => Value.texts? items
  | _ => none

/-- What a file says about the settings, before anything is known of the values. -/
structure StoredConfig where
  localEcho : Option Value
  pauseMillis : Option Value
  pauseOn : Option Value
deriving Repr

namespace StoredConfig

def empty : StoredConfig := ⟨none, none, none⟩

def ofFields (fields : List (Text × Value)) : StoredConfig :=
  let field (name : String) := Value.field? (ofString name) fields
  ⟨field "localEcho", field "pauseMillis", field "pauseOn"⟩

end StoredConfig

/-! ## Resolving -/

def EchoConfig.resolve (stored : StoredConfig) (env : Environment) : EchoConfig where
  localEcho :=
    ((env.value? "TERMECHO_LOCAL_ECHO").bind Value.flag? <|> stored.localEcho.bind Value.flag?).getD
      EchoConfig.default.localEcho
  pauseMillis :=
    ((env.value? "TERMECHO_PAUSE_MS").bind Value.millis? <|> stored.pauseMillis.bind Value.millis?).getD
      EchoConfig.default.pauseMillis
  pauseOn := (stored.pauseOn.bind Value.keys?).getD EchoConfig.default.pauseOn

inductive ConfigError where
  | file (e : FileError)
  | unquotable
deriving Repr, DecidableEq

def ConfigError.message : ConfigError → Text
  | .file e => e.message
  | .unquotable => ofString "Cannot convert object to primitive value"

def warning (t : Text) : Text := ofString "[termecho] Warning: " ++ t

def dropped (name kind : String) (quoted : Option Text) : Text :=
  let got := match quoted with
    | some t => ofString " (got '" ++ t ++ ofString "')"
    | none => []
  warning (ofString ("'" ++ name ++ "' in config is not " ++ kind) ++ got ++
    ofString ". Ignoring this value.")

/-- The line about a value that is present and no setting, with the value quoted. -/
def droppedValue {α : Type} (name kind : String) (read? : Value → Option α) :
    Option Value → List (Except ConfigError Text)
  | none => []
  | some v =>
    if (read? v).isSome then []
    else match v.quoted? with
      | some t => [.ok (dropped name kind (some t))]
      | none => [.error .unquotable]

namespace StoredConfig

def complaints (s : StoredConfig) : List (Except ConfigError Text) :=
  droppedValue "localEcho" "a boolean" Value.flag? s.localEcho ++
  droppedValue "pauseMillis" "a non-negative number" Value.millis? s.pauseMillis ++
  match s.pauseOn with
  | none => []
  | some v => if v.keys?.isSome then [] else [.ok (dropped "pauseOn" "a list of strings" none)]

end StoredConfig

def untilError : List (Except ConfigError Text) → List Text × Option ConfigError
  | [] => ([], none)
  | .error e :: _ => ([], some e)
  | .ok line :: rest =>
    let (lines, e) := untilError rest
    (line :: lines, e)

/-! ## Loading -/

structure Loaded (α : Type) where
  log : List Text
  outcome : Except ConfigError α

namespace StoredConfig

/-- What the bytes of a file say.  The line about a file that cannot be read ends with the name of the
exception; the message of the exception is left out. -/
def ofBytes (path : Text) (bytes : Utf8.Bytes) : StoredConfig × List Text :=
  let t := Utf8.decode bytes
  let yaml := EchoConfig.isYamlPath path
  match if yaml then Yaml.read? t else Json.read? t with
  | some (.record fields) => (ofFields fields, [])
  | some _ => (empty, [warning (path ++ ofString " does not contain an object. Ignoring it.")])
  | none =>
    let kind := if yaml then "YAMLException" else "SyntaxError"
    (empty, [warning (ofString "failed to parse " ++ path ++ ofString (": " ++ kind))])

end StoredConfig

namespace EchoConfig

/-- The file to read: the one that is named, or one that stands in for the default file. -/
def pathToRead (files : FileTree) (home path : Text) : Text :=
  if !files.exists? path && path == defaultPath home then
    ((fallbackPaths home).find? fun path => files.exists? path).getD path
  else path

def settle (stored : StoredConfig) (env : Environment) (log : List Text) : Loaded EchoConfig :=
  let (lines, e) := untilError stored.complaints
  ⟨log ++ lines, match e with
    | some e => .error e
    | none => .ok (resolve stored env)⟩

def load (files : FileTree) (home path : Text) (env : Environment) : Loaded EchoConfig :=
  let path := pathToRead files home path
  if files.exists? path then
    match files.read path with
    | .error e => ⟨[], .error (.file e)⟩
    | .ok bytes =>
      let (stored, log) := StoredConfig.ofBytes path bytes
      settle stored env log
  else settle .empty env []

/-! ## Saving -/

def fields (c : EchoConfig) : List (Text × Value) :=
  [(ofString "localEcho", .bool c.localEcho), (ofString "pauseMillis", .number c.pauseMillis),
    (ofString "pauseOn", .list (c.pauseOn.map .text))]

def toValue (c : EchoConfig) : Value := .record c.fields

def toText (c : EchoConfig) (path : Text) : Text :=
  if isYamlPath path then Yaml.write c.toValue else Json.indented c.toValue

/-- Writes settings to the file at a path, in a directory that is made if it is missing. -/
def save (files : FileTree) (c : EchoConfig) (path : Text) : Except FileError FileTree := do
  let dir := Path.parent path
  let files ← if files.exists? dir then .ok files else files.makeDirectories dir
  files.write path (Utf8.encode (c.toText path))

end EchoConfig

end Typeahead
