import Typeahead.Files.Path
import Typeahead.Text.Utf8

/-!
# Files

Directories, files and links as a value: what is where, and what it takes to read and to write.
A path that begins with a slash starts at the directory that holds everything, and any other path
at the working directory.  `.` and `..` are followed step by step, so every directory on the way has
to be there.

A link is kept but never followed, where a disk would go on to its target: nothing is read through
one, it is no directory on the way, and a file that is written at its place takes the place itself.
-/

namespace Typeahead

/-- What stands at a path. -/
inductive FileNode where
  | directory
  | file (bytes : Utf8.Bytes)
  | link (target : Text)
deriving Repr, DecidableEq

inductive FileFault where
  | missing
  | notDirectory
  | isDirectory
deriving Repr, DecidableEq

namespace FileFault

def code : FileFault → String
  | .missing => "ENOENT"
  | .notDirectory => "ENOTDIR"
  | .isDirectory => "EISDIR"

def words : FileFault → String
  | .missing => "no such file or directory"
  | .notDirectory => "not a directory"
  | .isDirectory => "illegal operation on a directory"

end FileFault

/-- What was refused: the fault, the operation, and the path it was given. -/
structure FileError where
  fault : FileFault
  operation : String
  path : Option Text
deriving Repr, DecidableEq

def FileError.message (e : FileError) : Text :=
  Text.ofString (e.fault.code ++ ": " ++ e.fault.words ++ ", " ++ e.operation) ++
    match e.path with
    | some path => Text.ofString " '" ++ path ++ Text.ofString "'"
    | none => []

/-- Everything below one directory, each entry named by the parts of its path, and the place where
relative paths start. -/
structure FileTree where
  entries : List (List Text × FileNode)
  workingPlace : List Text
deriving Repr, DecidableEq

namespace FileTree

def empty : FileTree := ⟨[], []⟩

def node? (t : FileTree) (place : List Text) : Option FileNode :=
  if place.isEmpty then some .directory else (t.entries.find? fun e => e.1 == place).map (·.2)

def put (t : FileTree) (place : List Text) (node : FileNode) : FileTree :=
  { t with entries := (place, node) :: t.entries.filter fun e => e.1 != place }

/-- Takes away what stands at a place and below it. -/
def remove (t : FileTree) (place : List Text) : FileTree :=
  { t with entries := t.entries.filter fun e => !place.isPrefixOf e.1 }

/-! ## Paths -/

def step (place : List Text) (part : Text) : List Text :=
  if part == [] || part == [0x2E] then place
  else if part == [0x2E, 0x2E] then place.dropLast
  else place ++ [part]

/-- Follows the parts of a path; all but the last place have to be directories. -/
def follow (t : FileTree) (place : List Text) : List Text → Except FileFault (List Text)
  | [] => .ok place
  | part :: rest =>
    match t.node? place with
    | none => .error .missing
    | some .directory => t.follow (step place part) rest
    | some _ => .error .notDirectory

def origin (t : FileTree) (path : Text) : List Text :=
  if path.head? == some 0x2F then [] else t.workingPlace

def place? (t : FileTree) (path : Text) : Except FileFault (List Text) :=
  if path.isEmpty then .error .missing else t.follow (t.origin path) (path.splitOn 0x2F)

def exists? (t : FileTree) (path : Text) : Bool :=
  match t.place? path with
  | .ok place => (t.node? place).isSome
  | .error _ => false

/-! ## Reading and writing -/

def read (t : FileTree) (path : Text) : Except FileError Utf8.Bytes :=
  match t.place? path with
  | .error fault => .error ⟨fault, "open", some path⟩
  | .ok place =>
    match t.node? place with
    | some (.file bytes) => .ok bytes
    | some .directory => .error ⟨.isDirectory, "read", none⟩
    | _ => .error ⟨.missing, "open", some path⟩

/-- Writes a file; its directory has to be there.  A slash at the end of a path asks for a directory. -/
def write (t : FileTree) (path : Text) (bytes : Utf8.Bytes) : Except FileError FileTree :=
  match t.place? (Path.dropSlashes path) with
  | .error fault => .error ⟨fault, "open", some path⟩
  | .ok place =>
    if t.node? place == some .directory || path.getLast? == some 0x2F then
      .error ⟨.isDirectory, "open", some path⟩
    else .ok (t.put place (.file bytes))

def append (t : FileTree) (path : Text) (bytes : Utf8.Bytes) : Except FileError FileTree :=
  match t.read path with
  | .ok old => t.write path (old ++ bytes)
  | .error _ => t.write path bytes

/-- Puts a link to `target` at a path.  A file or a link that stands there is taken away first. -/
def link (t : FileTree) (path target : Text) : Except FileError FileTree :=
  match t.place? path with
  | .error fault => .error ⟨fault, "symlink", some path⟩
  | .ok place =>
    match t.node? place with
    | some .directory => .error ⟨.isDirectory, "unlink", some path⟩
    | _ => .ok ((t.remove place).put place (.link target))

def makeAlong (t : FileTree) (place : List Text) : List Text → Except FileFault FileTree
  | [] =>
    match t.node? place with
    | none => .ok (t.put place .directory)
    | some .directory => .ok t
    | some _ => .error .notDirectory
  | part :: rest =>
    match t.node? place with
    | none => (t.put place .directory).makeAlong (step place part) rest
    | some .directory => t.makeAlong (step place part) rest
    | some _ => .error .notDirectory

def makeDirectories (t : FileTree) (path : Text) : Except FileError FileTree :=
  match t.makeAlong (t.origin path) (path.splitOn 0x2F) with
  | .ok t => .ok t
  | .error fault => .error ⟨fault, "mkdir", some path⟩

end FileTree

end Typeahead
