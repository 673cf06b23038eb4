import Dissect.Analysis.Summary
import Dissect.CommandLine.Options
import Dissect.CommandLine.Stamp
import Dissect.Document.Report
import Dissect.Json.Print
import Dissect.Settings.File

/-!
What the program does for given arguments: what it prints and writes, and its exit code.
-/

namespace Dissect.CommandLine

/-- The end of a run. -/
structure Exit where
  code : Nat
  output : String := ""
  errors : String := ""
  /-- A file that is written, with its content. -/
  written : Option (String × Bytes) := none

def usageText : String :=
  "Usage: dissect [OPTIONS] <PATH>\n"

def helpText : String :=
  "Static analysis of native executables and their dependencies\n\n" ++ usageText ++
  "\nArguments:\n" ++
  "  <PATH>  Binary file or application directory to analyze\n" ++
  "\nOptions:\n" ++
  "  -c, --config <FILE>  JSON configuration file\n" ++
  "  -o, --output <FILE>  Write the JSON result here instead of stdout\n" ++
  "      --no-deps        Do not follow imported libraries\n" ++
  "  -v, --verbose        Debug-level logging\n" ++
  "  -q, --quiet          Only log errors and skip per-file status lines\n" ++
  "  -h, --help           Print help\n" ++
  "  -V, --version        Print version\n"

def versionText : String := "dissect 0.1.0\n"

/-- Lines, each with its end. -/
def lines (ls : List String) : String := String.join (ls.map (· ++ "\n"))

/-- Shifts the lines of a text after the first one. -/
def shiftLines (shift : String) (text : String) : String :=
  String.ofList (text.toList.flatMap fun c => if c = '\n' then '\n' :: shift.toList else [c])

/-- The causes of a failure, with numbers if there are several. -/
def causeLines : List String → List String
  | [] => []
  | [cause] => ["    " ++ shiftLines "    " cause]
  | causes => causes.zipIdx.map fun (cause, n) =>
    "    " ++ Numeral.decimal n ++ ": " ++ shiftLines "       " cause

/-- What is printed when the program gives up. -/
def errorText (context : String) (causes : List String) : String :=
  lines (["Error: " ++ context, "", "Caused by:"] ++ causeLines causes)

/-- The line for the end of the analysis of a file. -/
def statusLine? : Event → Option String
  | .completed path functions strings =>
    some ("ok      " ++ path ++ " (" ++ Numeral.decimal functions ++ " functions, " ++
      Numeral.decimal strings ++ " strings)")
  | .failed path stage message =>
    some ("failed  " ++ path ++ " at " ++ stage.label ++ ": " ++ message)
  | _ => none

/-- The document of a report with its stamp. -/
def reportText (stamp : Stamp) (r : Report) : String :=
  (Json.obj ([("id", .str stamp.id), ("timestamp", .str (stamp.time ++ "Z"))] ++ r.members)).toText

/-- The summary of a report with its stamp. -/
def summaryText (stamp : Stamp) (r : Report) : String :=
  lines (("Analysis " ++ stamp.id ++ " (" ++ stamp.time ++ "+00:00)") :: r.summary)

/-- The settings that the options ask for. -/
def settingsFor (options : Options) (disk : Disk) : Except Failure Settings := do
  let settings ← match options.config with
    | some path => Settings.loadFile disk path
    | none => .ok {}
  return { settings with
    dependencies :=
      { settings.dependencies with
        follow := settings.dependencies.follow && !options.noDependencies } }

/-- Prints or writes a report, with a line for the end of each analysis that was told of. -/
def deliver (options : Options) (stamp : Stamp) (disk : Disk) (r : Report) (log : List Event) :
    Exit :=
  let status := if options.quiet then "" else lines (log.filterMap statusLine?)
  let summary := if options.quiet then "" else summaryText stamp r
  let code := if r.isSuccess then 0 else 1
  let text := reportText stamp r
  match options.output with
  | none => { code, output := text ++ "\n", errors := status ++ summary }
  | some path =>
    match disk.write path (Utf8.encode text) with
    | .ok _ => { code, errors := status ++ summary, written := some (path, Utf8.encode text) }
    | .error fault =>
      { code := 1, errors := status ++ errorText ("writing " ++ path) [fault.message] }

/-- Runs the program with options. -/
def runWith (options : Options) (stamp : Stamp) (disk : Disk) : Exit :=
  match settingsFor options disk with
  | .error failure =>
    let context := "loading configuration from " ++ options.config.getD ""
    { code := 1, errors := errorText context failure.causes }
  | .ok settings =>
    match Report.analyse [] settings disk options.path with
    | .error failure =>
      { code := 1, errors := errorText ("analyzing " ++ options.path) failure.causes }
    | .ok (report, log) => deliver options stamp disk report log

/-- Runs the program. -/
def run (args : List String) (stamp : Stamp) (disk : Disk) : Exit :=
  match parse args with
  | .error .help => { code := 0, output := helpText }
  | .error .version => { code := 0, output := versionText }
  | .error .usage => { code := 2, errors := usageText }
  | .ok options => runWith options stamp disk

/-- The paths at which the libraries of a program are looked for, as far as the disk shows which
libraries these are. -/
def searchedPaths (settings : Settings) (disk : Disk) (path : String) : List String :=
  let main := match Listing.scan disk path with
    | .ok l => (l.main? disk).getD path
    | .error _ => path
  let walker := Walker.ofSettings settings
  if settings.dependencies.follow then
    (walker.walk disk main).1.flatMap fun d => walker.candidates (Walker.baseOf main) d.name
  else []

end Dissect.CommandLine
