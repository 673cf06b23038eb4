import Dissect.Failure
import Dissect.Text.Lower

/-!
The files below a directory, sorted by what they are for.
-/

namespace Dissect

inductive ResourceKind
  | picture
  | sound
  | data
  deriving DecidableEq, Repr

namespace ResourceKind

def tag : ResourceKind → String
  | picture => "Image"
  | sound => "Audio"
  | data => "Data"

/-- The kind of resource that an extension stands for. -/
def ofExtension? (extension : String) : Option ResourceKind :=
  if ["ico", "png", "jpg", "jpeg", "bmp", "gif"].contains extension then some picture
  else if ["wav", "mp3"].contains extension then some sound
  else if ["txt", "dat", "res"].contains extension then some data
  else none

end ResourceKind

structure Resource where
  path : String
  size : Nat
  kind : ResourceKind
  deriving DecidableEq, Repr

structure Listing where
  binaries : List String := []
  /-- Configuration files, by their paths and by the names that lead to them. -/
  configurations : List (String × List String) := []
  resources : List Resource := []
  deriving DecidableEq, Repr

namespace Listing

def binaryExtensions : List String := ["exe", "dll", "so", "dylib", "sys", "ocx"]

def configurationExtensions : List String := [
  "ini", "cfg", "config", "xml", "json", "yaml", "yml", "toml", "properties"]

/-- The extension of a file in lower case. -/
def extension? (path : String) : Option String := (Path.extension? path).map Text.lower

/-- The content starts as an executable does. -/
def isExecutable (content : Bytes) : Bool :=
  4 ≤ content.length &&
    match Format.detect (content.take 4) with
    | .pe | .elf | .machO => true
    | .zip | .unknown => false

/-- A file that starts as an executable does. -/
def hasExecutableHeader (disk : Disk) (path : String) : Bool :=
  match disk.read path with
  | .ok content => isExecutable content
  | .error _ => false

/-- A file is binary if its extension says so, if it has none, or if it starts as an executable
does. -/
def isBinary (disk : Disk) (path : String) : Bool :=
  match extension? path with
  | some e => binaryExtensions.contains e || hasExecutableHeader disk path
  | none => true

def isConfiguration (path : String) : Bool :=
  match extension? path with
  | some e => configurationExtensions.contains e
  | none => false

def resourceKind? (path : String) : Option ResourceKind :=
  (extension? path).bind ResourceKind.ofExtension?

/-- The path of a file that names lead to from a directory. -/
def pathBelow (dir : String) (names : List String) : String := names.foldl Path.join dir

/-- Sorts files that were found below a directory. -/
def ofFound (disk : Disk) (dir : String) (found : List Found) : Listing where
  binaries := (found.map fun f => pathBelow dir f.1).filter (isBinary disk)
  configurations :=
    (found.map fun f => (pathBelow dir f.1, f.1)).filter fun c => isConfiguration c.1
  resources := found.filterMap fun f =>
    (resourceKind? (pathBelow dir f.1)).map fun kind => ⟨pathBelow dir f.1, f.2.length, kind⟩

/-- Why a node below a directory stops the listing: the program cannot look into a directory, or
the path of a resource is too long to ask for its size. -/
def failure? (disk : Disk) (dir : String) : List String × Node → Option Failure
  | (names, .dir _) =>
    let path := pathBelow dir names
    if Disk.maxPath < path.utf8ByteSize then some (.io path .nameTooLong)
    else if disk.denies path then some (.io path .denied)
    else none
  | (names, .file _) =>
    let path := pathBelow dir names
    if Disk.maxPath < path.utf8ByteSize then
      (resourceKind? path).map fun _ => .noSize path .nameTooLong
    else none

/-- Lists all files below a directory. -/
def scan (disk : Disk) (dir : String) : Except Failure Listing :=
  match disk.node dir with
  | .error fault => .error (.io dir fault)
  | .ok node =>
    match node.all.findSome? (failure? disk dir) with
    | some failure => .error failure
    | none => .ok (ofFound disk dir node.files)

/-- The file to start from: the first with the extension of a program, else the first executable
without extension, else the first binary. -/
def main? (disk : Disk) (l : Listing) : Option String :=
  ((l.binaries.find? fun p => extension? p == some "exe").or
    (l.binaries.find? fun p => (Path.extension? p).isNone && hasExecutableHeader disk p)).or
    l.binaries.head?

end Listing

end Dissect
