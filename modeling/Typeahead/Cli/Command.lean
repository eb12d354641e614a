import Typeahead.Cli.Arguments
import Typeahead.Cli.Report
import Typeahead.Config.EnvFile
import Typeahead.Config.Load
import Typeahead.Script.Reader

/-!
# The command

`termecho replay <script>` replays a script and prints a report.  The environment is completed from
environment files, settings come from it and from the file of settings, and flags override them.
-/

namespace Typeahead

open Text (ofString)

/-! ## Settings from flags -/

def Value.isTrue : Value → Bool
  | .null => false
  | .bool b => b
  | .number n => n.less 0 || Binary64.less 0 n
  | .text t => !t.isEmpty
  | .list _ => true
  | .record _ => true

def Value.toNumber : Value → Binary64
  | .number n => n
  | .bool true => .ofNat 1
  | .bool false => 0
  | .text t => .ofText t
  | _ => .nan

/-- Settings, and how they are shown: those that come from flags appear as they were given. -/
structure Chosen where
  config : EchoConfig
  shown : List (Text × Value)

namespace Chosen

def ofConfig (c : EchoConfig) : Chosen := ⟨c, c.fields⟩

def withLocalEcho (c : Chosen) : Option Value → Chosen
  | none => c
  | some v =>
    ⟨{ c.config with localEcho := v.isTrue }, Value.setField (ofString "localEcho") v c.shown⟩

def withPause (c : Chosen) : Option Value → Chosen
  | none => c
  | some v =>
    ⟨{ c.config with pauseMillis := v.toNumber }, Value.setField (ofString "pauseMillis") v c.shown⟩

end Chosen

namespace Command

/-! ## What the command knows -/

def flags : List Flag :=
  [⟨ofString "help", .switch, some 0x68⟩, ⟨ofString "version", .switch, none⟩,
    ⟨ofString "config", .text, some 0x63⟩, ⟨ofString "local-echo", .switch, none⟩,
    ⟨ofString "pause-ms", .number, none⟩, ⟨ofString "json", .switch, none⟩,
    ⟨ofString "raw", .switch, none⟩]

def version : Text := ofString "0.1.0"

def help : Text := Text.unlines (["",
  "  Local-echo reconciliation for remote terminal sessions",
  "",
  "  Usage",
  "    $ termecho replay <script>",
  "",
  "  Replays a recorded session (YAML or JSON) through local echo and prints",
  "  what the screen would have shown.",
  "",
  "  Options",
  "    -h, --help              Show usage and exit",
  "    --version               Print version and exit",
  "    -c, --config <path>     Config file to use (default: ~/.termecho/config.json)",
  "    --no-local-echo         Replay with local echo turned off",
  "    --pause-ms <n>          Override how long a pause trigger suspends echo",
  "    --json                  Print the full replay result as JSON",
  "    --raw                   Print every display write with control characters escaped",
  "",
  "  Examples",
  "    $ termecho replay session.yaml",
  "    $ termecho replay --raw --pause-ms 0 session.json",
  ""].map ofString)

/-- Where the command runs: the files there are, the home directory, and the environment. -/
structure Surroundings where
  files : FileTree
  home : Text
  environment : Environment

/-- What comes of the command: what it prints, what goes to the log, and how it ends. -/
structure Outcome where
  exitCode : Nat
  output : Text
  errors : Text
  log : List Text
deriving Repr, DecidableEq

def Outcome.printed (exitCode : Nat) (t : Text) : Outcome := ⟨exitCode, t, [], []⟩

namespace Surroundings

def variablesIn (s : Surroundings) (path : Text) : List (Text × Text) :=
  match s.files.read path with
  | .ok bytes => EnvFile.read (Utf8.decode bytes)
  | .error _ => []

/-- The environment, completed from the file in the working directory and then from the file in the
home directory. -/
def fullEnvironment (s : Surroundings) : Environment :=
  (s.environment.extend (s.variablesIn (ofString ".env"))).extend
    (s.variablesIn (Path.child s.home (ofString ".termecho.env")))

def logs (s : Surroundings) : Bool := (s.fullEnvironment.value? "DEBUG").isSome

/-- Loads the settings from the file that a flag names; a flag without a path means no file. -/
def loadConfig (s : Surroundings) (path? : Option Value) : Loaded EchoConfig :=
  let env := s.fullEnvironment
  match path? with
  | none => EchoConfig.load s.files s.home (EchoConfig.defaultPath s.home) env
  | some (.text path) => EchoConfig.load s.files s.home path env
  | some _ => EchoConfig.settle .empty env []

end Surroundings

/-! ## What the command may ask for -/

def variableNames : List String :=
  ["DEBUG", "FORCE_COLOR", "TERMECHO_LOCAL_ECHO", "TERMECHO_PAUSE_MS"]

def paths (home : Text) (args : List Text) : List Text :=
  let a := Arguments.read flags args
  let config := match a.value? (ofString "config") with
    | some (.text path) => [path]
    | _ => EchoConfig.defaultPath home :: EchoConfig.fallbackPaths home
  [ofString ".env", Path.child home (ofString ".termecho.env")] ++ config ++ a.words

/-! ## Running -/

inductive Failure where
  | config (e : ConfigError)
  | file (e : FileError)
  | script (e : ScriptError)
  | repeated (flag : Text)
deriving Repr, DecidableEq

def Failure.message : Failure → Text
  | .config e => e.message
  | .file e => e.message
  | .script e => ofString "Invalid session script: " ++ e.message
  | .repeated flag => ofString "The flag --" ++ flag ++ ofString " can only be set once."

def reportForm (a : Arguments) : ReportForm :=
  let asked (name : String) := (a.value? (ofString name)).any Value.isTrue
  if asked "json" then .json else if asked "raw" then .raw else .display

def notice (path : Text) (c : Chosen) : Text :=
  ofString "[cli] replaying " ++ path ++ ofString " with " ++ Json.compact (.record c.shown)

def script (s : Surroundings) (path : Text) : Except Failure (List SessionStep) :=
  match s.files.read path with
  | .error e => .error (.file e)
  | .ok bytes =>
    match (ScriptFormat.ofPath path).parse (Utf8.decode bytes) with
    | .error e => .error (.script e)
    | .ok steps => .ok steps

def replay (s : Surroundings) (a : Arguments) (coloured : Bool) (path : Text) :
    Except Failure Text × List Text :=
  let loaded := s.loadConfig (a.value? (ofString "config"))
  match loaded.outcome with
  | .error e => (.error (.config e), loaded.log)
  | .ok config =>
    let chosen := ((Chosen.ofConfig config).withLocalEcho (a.value? (ofString "localEcho"))).withPause
      (a.value? (ofString "pauseMs"))
    let log := loaded.log ++ [notice path chosen]
    match script s path with
    | .error e => (.error e, log)
    | .ok steps =>
      let (r, lines) := Replay.run steps chosen.config
      (.ok (r.report (reportForm a) coloured), log ++ lines)

def Outcome.failed (coloured : Bool) (e : Failure) (log : List Text) : Outcome :=
  ⟨1, [], Style.red.paint coloured e.message ++ [0x0A], log⟩

def repeated? (a : Arguments) : Option Text :=
  (flags.map fun f => camelCase f.name).find? fun name =>
    match a.value? name with
    | some (.list _) => true
    | _ => false

def isAlone (args : List Text) (a : Arguments) (name : String) : Bool :=
  args.length == 1 && a.words.isEmpty &&
    match a.find? (ofString name) with
    | some (some (.bool true)) => true
    | _ => false

def run (s : Surroundings) (args : List Text) : Outcome :=
  let a := Arguments.read flags args
  let coloured := ColourWish.coloured s.fullEnvironment args
  if isAlone args a "version" then .printed 0 (version ++ [0x0A])
  else if isAlone args a "help" then .printed 0 (help ++ [0x0A])
  else
    match repeated? a with
    | some flag => .failed false (.repeated flag) []
    | none =>
      match a.words with
      | command :: path :: _ =>
        if command == ofString "replay" then
          match replay s a coloured path with
          | (.ok report, log) => ⟨0, report, [], log⟩
          | (.error e, log) => .failed coloured e log
        else .printed 1 (help ++ [0x0A])
      | _ => .printed 1 (help ++ [0x0A])

end Command

end Typeahead
