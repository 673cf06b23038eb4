import Dissect.Dependency.Basic
import Dissect.Failure
import Dissect.Image.Parse

/-!
Following imports from file to file, breadth first.

Import lists are kept per file, so that a walker reads no file twice.
-/

namespace Dissect

structure Walker where
  /-- Directories searched after those of the program itself. -/
  searchPaths : List String
  maxFileSize : Nat
  /-- Import lists that are known, the latest of a file first. -/
  known : List (Path.Key × List String) := []
  deriving DecidableEq, Repr

namespace Walker

/-- A walker that knows nothing yet. -/
def ofSettings (settings : Settings) : Walker where
  searchPaths := settings.dependencies.searchPaths
  maxFileSize := settings.limits.maxFileSize

/-- The imports of a file as they stand in it; none if the file cannot be read. -/
def readImports (w : Walker) (disk : Disk) (path : String) : List String :=
  match disk.open path w.maxFileSize with
  | .error _ => []
  | .ok data =>
    match Image.parse data with
    | .error _ => []
    | .ok image => image.libraries

/-- Keeps an import list for a file. -/
def remember (w : Walker) (disk : Disk) (path : String) (imports : List String) : Walker :=
  { w with known := (disk.key path, imports) :: w.known }

/-- The imports of a file, read unless they are known. -/
def imports (w : Walker) (disk : Disk) (path : String) : List String × Walker :=
  match List.lookup (disk.key path) w.known with
  | some names => (names, w)
  | none =>
    let names := w.readImports disk path
    (names, w.remember disk path names)

/-- The name leads to nowhere but to an entry of a directory. -/
def isPlainName (name : String) : Bool :=
  !name.isEmpty && name != "." && name != ".." &&
    !name.toList.contains '/' && !name.toList.contains '\\'

/-- The directories in which libraries of a program are looked for, in order. -/
def directories (w : Walker) (base : String) : List String :=
  [base, Path.join base "lib", Path.join base "bin"] ++ w.searchPaths

/-- The paths at which a library is looked for, in order. -/
def candidates (w : Walker) (base name : String) : List String :=
  if isPlainName name then (w.directories base).map fun dir => Path.join dir name else []

/-- The path of a library. -/
def find? (w : Walker) (disk : Disk) (base name : String) : Option String :=
  (w.candidates base name).find? disk.isFile

/-- The directory of a program. -/
def baseOf (main : String) : String := (Path.parent? main).getD "."

/-- State of a walk. -/
structure St where
  walker : Walker
  /-- Files whose imports have been looked at. -/
  visited : List Path.Key := []
  /-- The libraries so far, in the order in which they were met. -/
  found : List Dependency := []
  /-- Files still to be looked at. -/
  queue : List String
  deriving DecidableEq, Repr

/-- Adds an imported name, unless it has been met before. -/
def addImport (disk : Disk) (base : String) (s : St) (name : String) : St :=
  if s.found.any (·.sameName name) then s
  else
    let path := s.walker.find? disk base name
    { s with found := s.found ++ [⟨name, path⟩], queue := s.queue ++ path.toList }

/-- Looks at one file. -/
def visit (disk : Disk) (base : String) (s : St) (file : String) : St :=
  let key := disk.key file
  if s.visited.contains key then s
  else
    let (names, walker) := s.walker.imports disk file
    names.foldl (addImport disk base) { s with walker, visited := key :: s.visited }

/-- Looks at files until the queue is empty, at most as many as the first argument says. -/
def visitAll (disk : Disk) (base : String) : Nat → St → St
  | 0, s => s
  | count + 1, s =>
    match s.queue with
    | [] => s
    | file :: queue => visitAll disk base count (visit disk base { s with queue } file)

/-- All libraries that can be reached from a program, in the order in which they are met. Each
library in the queue is another file, so there are at most as many as there are files. -/
def walk (w : Walker) (disk : Disk) (main : String) : List Dependency × Walker :=
  let s := visitAll disk (baseOf main) (disk.fileCount + 1) { walker := w, queue := [main] }
  (s.found, s.walker)

end Walker

end Dissect
