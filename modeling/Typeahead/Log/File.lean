import Typeahead.Files.FileTree
import Typeahead.Files.Path
import Typeahead.Log.Writer

/-!
# The log file

A log file is kept for each run, below the home directory, and a link leads to the latest one.  A
batch that cannot be appended is lost, and the loss is reported.  What is done to the disk is told for
any disk (`LogFile.create`, `LogFile.keep`); a tree of files is one.
-/

namespace Typeahead.LogFile

open Text (ofString)

def directory (home : Text) : Text :=
  Path.child (Path.child home (ofString ".local")) (ofString "termecho")

def pathAt (home time : Text) : Text :=
  Path.child (directory home) (ofString "termecho-" ++ time ++ ofString ".log")

def latest (home : Text) : Text := Path.child (directory home) (ofString "termecho-latest.log")

def entry (time message : Text) : Text := ofString "[" ++ time ++ ofString "] " ++ message ++ [0x0A]

def reportLine (failure : Text) : Text :=
  ofString "[termecho] failed to write log: Error: " ++ failure

/-! ## Any disk -/

/-- What can be done to a disk, and fails as `m` fails. -/
structure Disk (m : Type → Type) where
  makeDirectories (path : Text) : m Unit
  write (path : Text) (bytes : Utf8.Bytes) : m Unit
  link (path target : Text) : m Unit

section
variable {m : Type → Type} [Monad m]

/-- Makes the empty file of a run that begins now, and lets the link lead to it. -/
def create (disk : Disk m) (home time : Text) : m Unit := do
  disk.makeDirectories (directory home)
  disk.write (pathAt home time) []
  disk.link (latest home) (pathAt home time)

/-- Appends the batch under way and all that waits, and gathers the reports.  `append` tells how
appending failed, if it did. -/
def drain (append : Utf8.Bytes → m (Option Text)) (w : LogWriter) : m (List Text) :=
  match _h : w.inFlight with
  | none => return []
  | some batch => do
    let failure ← append (Utf8.encode batch.flatten)
    let reports ← drain append (w.settle failure).1
    return (failure.map reportLine).toList ++ reports
termination_by w.backlog
decreasing_by exact LogWriter.backlog_settle_lt _h _

/-- Writes entries that come faster than they can be appended. -/
def keep (append : Utf8.Bytes → m (Option Text)) (entries : List Text) : m (List Text) :=
  drain append (LogWriter.idle.handleAll (entries.map .entry)).1

end

/-! ## A tree of files -/

def treeDisk : Disk (StateT FileTree (Except FileError)) where
  makeDirectories path files := (files.makeDirectories path).map ((), ·)
  write path bytes files := (files.write path bytes).map ((), ·)
  link path target files := (files.link path target).map ((), ·)

def appendTo (path : Text) (bytes : Utf8.Bytes) : StateM FileTree (Option Text) := fun files =>
  match files.append path bytes with
  | .ok files => (none, files)
  | .error e => (some e.message, files)

def start (files : FileTree) (home time : Text) : Except FileError FileTree :=
  ((create treeDisk home time).run files).map (·.2)

def record (files : FileTree) (path : Text) (entries : List Text) : FileTree × List Text :=
  let (reports, files) := (keep (appendTo path) entries).run files
  (files, reports)

end Typeahead.LogFile
