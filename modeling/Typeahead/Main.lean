import Std.Time.Format
import Typeahead.Cli.Command
import Typeahead.Log.File

/-!
# The program

Looks at the files and the variables that the command may ask for, begins a log if one is wanted,
carries out the command, appends to the log and prints what comes of it.
-/

namespace Typeahead.Program

open Text (ofString)

/-- What stands at a place on the disk; `onward` tells whether the way leads on from there. -/
def look (place : List Text) (onward : Bool) : IO (Option FileNode) := do
  try
    let bytes ← IO.FS.readBinFile ("/" ++ (Text.join [0x2F] place).toString)
    return some (.file bytes.toList)
  catch e =>
    match e with
    | .inappropriateType .. => return some .directory
    | .permissionDenied .. => return if onward then some .directory else none
    | _ => return none

/-- Puts into a tree what stands at the places that the parts of a path pass. -/
def survey (files : FileTree) (place : List Text) : List Text → IO FileTree
  | [] => return files
  | part :: rest => do
    let place := FileTree.step place part
    match ← look place (!rest.isEmpty) with
    | some .directory => survey (files.put place .directory) place rest
    | some node => return files.put place node
    | none => return files

def surveyAll (files : FileTree) : List Text → IO FileTree
  | [] => return files
  | path :: rest => do
    let files ← survey files (files.origin path) (path.splitOn 0x2F)
    surveyAll files rest

def processEnvironment : List String → IO Environment
  | [] => return []
  | name :: rest => do
    let others ← processEnvironment rest
    match ← IO.getEnv name with
    | some value => return (ofString name, ofString value) :: others
    | none => return others

def now : IO Text := do
  let time ← Std.Time.PlainDateTime.now
  return ofString (time.format "uuuu-MM-dd'T'HH:mm:ss")

/-! ## The log -/

/-- The disk at hand.  A link is a second name for its target: no other kind can be made here. -/
def disk : LogFile.Disk IO where
  makeDirectories path := IO.FS.createDirAll path.toString
  write path bytes := IO.FS.writeBinFile path.toString ⟨bytes.toArray⟩
  link path target := do
    try IO.FS.removeFile path.toString catch _ => pure ()
    IO.FS.hardLink target.toString path.toString

def appendTo (path : Text) (bytes : Utf8.Bytes) : IO (Option Text) := do
  try
    let file ← IO.FS.Handle.mk path.toString .append
    file.write ⟨bytes.toArray⟩
    return none
  catch e => return some (ofString (toString e))

def keepLog (path : Text) (lines : List Text) : IO Unit := do
  let time ← now
  let reports ← LogFile.keep (appendTo path) (lines.map (LogFile.entry time))
  reports.forM fun report => IO.eprintln report.toString

/-! ## A run -/

def run (args : List Text) : IO UInt32 := do
  let home := ofString ((← IO.getEnv "HOME").getD "/")
  let here := ((ofString (← IO.currentDir).toString).splitOn 0x2F).filter fun part => !part.isEmpty
  let files ← surveyAll ⟨[(here, .directory)], here⟩ (Command.paths home args)
  let environment ← processEnvironment Command.variableNames
  let surroundings : Command.Surroundings := ⟨files, home, environment⟩
  let started ← now
  if surroundings.logs then LogFile.create disk home started
  let outcome := Command.run surroundings args
  if surroundings.logs then keepLog (LogFile.pathAt home started) outcome.log
  IO.print outcome.output.toString
  IO.eprint outcome.errors.toString
  return outcome.exitCode.toUInt32

end Typeahead.Program

def main (args : List String) : IO UInt32 := Typeahead.Program.run (args.map Typeahead.Text.ofString)
