import Dissect.Failure
import Dissect.Settings.Document

/-!
Settings in files.
-/

namespace Dissect.Settings

/-- The settings in a file, checked. -/
def loadFile (disk : Disk) (path : String) : Except Failure Settings :=
  match disk.readText path with
  | .error fault => .error (.io path fault)
  | .ok text =>
    match load text with
    | .error fault => .error (.settings fault)
    | .ok s => .ok s

/-- Writes the settings to a file. -/
def saveFile (s : Settings) (disk : Disk) (path : String) : Except Failure Disk :=
  match disk.write path (Utf8.encode s.toText) with
  | .error fault => .error (.io path fault)
  | .ok disk => .ok disk

end Dissect.Settings
