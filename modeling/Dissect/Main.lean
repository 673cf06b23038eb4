import Dissect.CommandLine.Run
import Std.Time.DateTime.Timestamp

/-!
The program: it looks at the files that a run needs, runs, and prints and writes what the run says.
-/

namespace Dissect.Program

/-- Places the file or directory at a path, if there is one, in the picture of the disk. -/
def lookAt (disk : Disk) (path : String) : IO Disk := do
  try
    let real ← IO.FS.realPath path
    if ← real.isDir then return disk.makeDir path
    else return disk.put path (← IO.FS.readBinFile path).toList
  catch _ => return disk

/-- Looks at a path and at the directories that lead to it. -/
def lookAlong (disk : Disk) (path : String) : IO Disk := do
  let segments := Path.segments path
  (List.range segments.length).foldlM (fun disk n =>
    lookAt disk (Path.ofSegments (Path.isAbsolute path) (segments.take (n + 1)))) disk

/-- Looks at all that lies below a directory. -/
partial def lookBelow (disk : Disk) (path : String) : IO Disk := do
  try
    let real ← IO.FS.realPath path
    if ← real.isDir then
      (← real.readDir).foldlM (fun disk entry => do
        let below := Path.join path entry.fileName
        lookBelow (← lookAt disk below) below) disk
    else return disk
  catch _ => return disk

/-- Looks for libraries until all that are imported have been looked for. -/
partial def lookForLibraries (settings : Settings) (path : String) (seen : List String)
    (disk : Disk) : IO Disk := do
  let wanted := (CommandLine.searchedPaths settings disk path).filter fun p => !seen.contains p
  if wanted.isEmpty then return disk
  lookForLibraries settings path (seen ++ wanted) (← wanted.foldlM lookAlong disk)

/-- The part of the disk that a run needs. -/
def lookFor (options : CommandLine.Options) : IO Disk := do
  let current := Path.parts (← IO.currentDir).toString
  let empty : Disk := { root := Node.put (.dir []) current (.dir []), current }
  let disk ← (options.config.toList ++ options.output.toList).foldlM lookAlong empty
  let disk ← lookBelow (← lookAlong disk options.path) options.path
  match CommandLine.settingsFor options disk with
  | .error _ => return disk
  | .ok settings => lookForLibraries settings options.path [] disk

def newStamp : IO CommandLine.Stamp := do
  let random ← IO.getRandomBytes 16
  let now ← Std.Time.Timestamp.now
  return {
    id := CommandLine.Stamp.idText random.toList
    time := CommandLine.Stamp.timeText now.toNanosecondsSinceUnixEpoch.val.toNat }

end Dissect.Program

open Dissect Dissect.Program

def main (args : List String) : IO UInt32 := do
  let disk ← match CommandLine.parse args with
    | .ok options => lookFor options
    | .error _ => pure {}
  let exit := CommandLine.run args (← newStamp) disk
  IO.print exit.output
  IO.eprint exit.errors
  if let some (path, content) := exit.written then
    IO.FS.writeBinFile path (ByteArray.mk content.toArray)
  return UInt32.ofNat exit.code
