import Dissect.Disk.Fault
import Dissect.Disk.Path
import Dissect.Disk.Tree
import Dissect.Text.Utf8

/-!
The files that a program sees: one tree, and the directory in it from which relative paths start.

Some files cannot be opened and some directories not be listed, because the program may not do so.
All directories can be passed through. Without links, the place of a file is the only one, and a
walk from file to file ends after as many of them as there are.
-/

namespace Dissect

structure Disk where
  root : Node := .dir []
  /-- Names that lead from the root to the directory of relative paths. -/
  current : List String := []
  /-- Places of files and directories that the program may not open, to read or to write. -/
  denied : List (List String) := []

namespace Disk

/-- Greatest number of bytes in a name. -/
def maxName : Nat := 255

/-- Greatest number of bytes in a path. -/
def maxPath : Nat := 4095

/-- Goes one segment further from a place in the tree. -/
def enter (disk : Disk) (place : List String) (segment : String) : Except Fault (List String) :=
  match disk.root.get? place with
  | some (.dir es) =>
    if Path.isEmptySegment segment then .ok place
    else if segment = ".." then .ok place.dropLast
    else if maxName < segment.utf8ByteSize then .error .nameTooLong
    else if (Entries.get? es segment).isSome then .ok (place ++ [segment])
    else .error .notFound
  | some (.file _) => .error .notDirectory
  | none => .error .notFound

/-- Where the segments of a path start. -/
def origin (disk : Disk) (path : String) : List String :=
  if Path.isAbsolute path then [] else disk.current

/-- Faults that every use of a path shows, whatever the tree. -/
def textFault? (path : String) : Option Fault :=
  if path.toList.contains (Char.ofNat 0) then some .zeroInName
  else if path.isEmpty then some .notFound
  else none

/-- Faults of a path that is used as a whole, whatever the tree. -/
def pathFault? (path : String) : Option Fault :=
  (textFault? path).or (if maxPath < path.utf8ByteSize then some .nameTooLong else none)

/-- The place that a path leads to when it is followed one segment at a time, so that only its names
may not be too long. -/
def follow (disk : Disk) (path : String) : Except Fault (List String) :=
  match textFault? path with
  | some fault => .error fault
  | none => (Path.segments path).foldlM disk.enter (disk.origin path)

/-- The place that a path leads to when it is used as a whole. -/
def locate (disk : Disk) (path : String) : Except Fault (List String) :=
  match pathFault? path with
  | some fault => .error fault
  | none => disk.follow path

/-- What stands at a path. -/
def node (disk : Disk) (path : String) : Except Fault Node := do
  match disk.root.get? (← disk.locate path) with
  | some n => return n
  | none => throw .notFound

/-- The program may not open what stands at a path. -/
def denies (disk : Disk) (path : String) : Bool :=
  match disk.locate path with
  | .ok place => disk.denied.contains place
  | .error _ => false

def isFile (disk : Disk) (path : String) : Bool :=
  match disk.node path with
  | .ok (.file _) => true
  | _ => false

/-- What tells one file from another: the place of the file, or the path as it is if nothing stands
there. -/
def key (disk : Disk) (path : String) : Path.Key :=
  match disk.follow path with
  | .ok place => ⟨true, place⟩
  | .error _ => Path.key path

/-- The content of a file. -/
def read (disk : Disk) (path : String) : Except Fault Bytes := do
  let node ← disk.node path
  if disk.denies path then throw .denied
  match node with
  | .file content => return content
  | .dir _ => throw .isDirectory

/-- The content of a file as text. -/
def readText (disk : Disk) (path : String) : Except Fault String := do
  match Utf8.decode? (← disk.read path) with
  | some text => return text
  | none => throw .notText

/-- Goes one part further from a place in a tree, to a new directory if nothing stands there. -/
def enterNew (root : Node) (place : List String) (part : String) : Node × List String :=
  if part = "." then (root, place)
  else if part = ".." then (root, place.dropLast)
  else
    let below := place ++ [part]
    if (root.get? below).isSome then (root, below) else (Node.put (.dir []) below root, below)

/-- The disk with directories along some parts of a path, and the place that they lead to. Also a
directory that a later part leaves again is made. -/
def makeParts (disk : Disk) (path : String) (parts : List String) : Disk × List String :=
  let (root, place) := parts.foldl (fun (root, place) => enterNew root place)
    (disk.root, disk.origin path)
  ({ disk with root }, place)

/-- Makes a directory, and those on the way to it. -/
def makeDir (disk : Disk) (path : String) : Disk := (disk.makeParts path (Path.parts path)).1

/-- Puts a file at a path, with directories on the way to it. -/
def put (disk : Disk) (path : String) (content : Bytes) : Disk :=
  let parts := Path.parts path
  let (disk, above) := disk.makeParts path parts.dropLast
  { disk with root := Node.put (.file content) (above ++ parts.getLast?.toList) disk.root }

/-- Removes what stands at a path. -/
def remove (disk : Disk) (path : String) : Disk :=
  match disk.locate path with
  | .ok place => { disk with root := Node.erase place disk.root }
  | .error _ => disk

/-- The segments of a path up to the last that is not empty, and whether a slash comes after it. -/
def lastSegment (path : String) : List String × Bool :=
  let all := Path.segments path
  let kept := (all.reverse.dropWhile (· == "")).reverse
  (kept, kept.length < all.length)

/-- Writes a file, whose directory must be there. -/
def write (disk : Disk) (path : String) (content : Bytes) : Except Fault Disk := do
  match pathFault? path with
  | some fault => throw fault
  | none =>
    let (segments, slash) := lastSegment path
    match segments.getLast? with
    | none => throw .isDirectory
    | some name =>
      let above ← segments.dropLast.foldlM disk.enter (disk.origin path)
      match disk.root.get? above with
      | some (.dir es) =>
        if name = "." ∨ name = ".." ∨ slash then throw .isDirectory
        else if maxName < name.utf8ByteSize then throw .nameTooLong
        else
          let place := above ++ [name]
          match Entries.get? es name with
          | some (.dir _) => throw .isDirectory
          | old =>
            -- a new file is an entry that is written into its directory
            if disk.denied.contains place || (old.isNone && disk.denied.contains above) then
              throw .denied
            else return { disk with root := Node.put (.file content) place disk.root }
      | _ => throw .notDirectory

/-- Number of files on the disk. -/
def fileCount (disk : Disk) : Nat := disk.root.files.length

end Disk

end Dissect
