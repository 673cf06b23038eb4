import Dissect.Disk.Basic
import Dissect.Image.ParseError
import Dissect.Settings.Check

/-!
Failures of an analysis as a whole, and of the reading of one file.
-/

namespace Dissect

inductive Failure
  | io (path : String) (fault : Fault)
  | parse (error : ParseError)
  | unsupported (format : Format)
  | tooLarge (path : String) (size limit : Nat)
  | settings (fault : SettingsFault)
  /-- The size of a file that was met in a directory cannot be told. -/
  | noSize (path : String) (fault : Fault)
  deriving DecidableEq, Repr

namespace Failure

def message : Failure → String
  | io path fault => "IO error on " ++ path ++ ": " ++ fault.message
  | parse error => "Parse error: " ++ error.message
  | unsupported format => "Unsupported format: " ++ format.label
  | tooLarge path size limit =>
    "File too large: " ++ path ++ " is " ++ Numeral.decimal size ++ " bytes (limit " ++
      Numeral.decimal limit ++ ")"
  | settings fault => "Configuration error: " ++ fault.message
  | noSize path fault =>
    path ++ ": IO error for operation on " ++ path ++ ": " ++ fault.message

/-- The message, and after it the message of what lies behind the failure. -/
def causes (f : Failure) : List String :=
  match f with
  | io _ fault => [f.message, fault.message]
  | _ => [f.message]

/-- The failure of a file that cannot be read as an image. -/
def ofParseError : ParseError → Failure
  | .unsupportedFormat format => unsupported format
  | .unknownFormat => unsupported .unknown
  | error => parse error

end Failure

/-- The content of a file that is not above a size. -/
def Disk.open (disk : Disk) (path : String) (limit : Nat) : Except Failure Bytes :=
  match disk.read path with
  | .error fault => .error (.io path fault)
  | .ok content =>
    if limit < content.length then .error (.tooLarge path content.length limit) else .ok content

end Dissect
