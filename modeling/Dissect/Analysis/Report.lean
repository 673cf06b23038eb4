import Dissect.Analysis.File
import Dissect.Analysis.Schedule
import Dissect.Dependency.Walk
import Dissect.Listing
import Dissect.Text.Named

/-!
The analysis of a program with all that belongs to it.
-/

namespace Dissect

structure Report where
  /-- The file or directory that was analysed. -/
  input : String
  /-- The analysis of the program itself. -/
  main : Option FileAnalysis := none
  /-- The libraries that the program imports, in the order in which they are met. -/
  dependencies : List Dependency := []
  /-- The analyses of those libraries that were found, by name. -/
  libraries : Named FileAnalysis := []
  /-- Contents of configuration files, by their paths below the directory. -/
  configurations : Named String := []
  resources : List Resource := []

namespace Report

/-- The analysed files, the program first. -/
def files (r : Report) : List FileAnalysis := r.main.toList ++ r.libraries.map (·.2)

/-- The files whose analysis stopped. -/
def failures (r : Report) : List FileAnalysis := r.files.filter fun a => !a.isSuccess

/-- The analysis of the program itself went through. -/
def isSuccess (r : Report) : Bool := r.main.any (·.isSuccess)

/-- The libraries of an analysed program. -/
def dependenciesOf (settings : Settings) (disk : Disk) (main : FileAnalysis) : List Dependency :=
  match main.image with
  | none => []
  | some image =>
    if settings.dependencies.follow then
      let walker := (Walker.ofSettings settings).remember disk main.path image.libraries
      (walker.walk disk main.path).1
    else []

/-- The libraries that were found, by name, with their paths. -/
def located (ds : List Dependency) : List (String × String) :=
  ds.filterMap fun d => d.path.map fun path => (d.name, path)

/-- Analyses the libraries that were found, each on its own. -/
def runLibraries (settings : Settings) (disk : Disk) (ds : List Dependency) :
    List (String × FileAnalysis × List Event) :=
  (located ds).map fun (name, path) => (name, FileAnalysis.run settings disk path)

/-- What is told of a library. -/
def dependencyEvent (d : Dependency) : Event :=
  match d.path with
  | some path => .resolved d.name path
  | none => .unresolved d.name

/-- What is told in the analysis of a program, and of its libraries if they are looked for. The
libraries are analysed side by side. -/
def events (schedule : Schedule) (settings : Settings) (main : FileAnalysis × List Event)
    (ds : List Dependency) (runs : List (String × FileAnalysis × List Event)) : List Event :=
  main.2 ++
    if settings.dependencies.follow && main.1.image.isSome then
      ds.map dependencyEvent ++ schedule.merge (runs.map (·.2.2)) ++
        [.stageDone main.1.path .dependencies]
    else []

/-- The report on one program, and what is told until it is there. -/
def ofMain (schedule : Schedule) (settings : Settings) (disk : Disk) (input main : String) :
    Report × List Event :=
  let run := FileAnalysis.run settings disk main
  let dependencies := dependenciesOf settings disk run.1
  let runs := runLibraries settings disk dependencies
  let report : Report :=
    { input
      main := some run.1
      dependencies
      libraries := .ofPairs (runs.map fun (name, library, _) => (name, library)) }
  (report, events schedule settings run dependencies runs)

/-- The entry of a configuration file, if it is a text. -/
def configuration? (disk : Disk) (c : String × List String) : Option (String × String) :=
  match disk.readText c.1 with
  | .ok text => some ("/".intercalate c.2, text)
  | .error _ => none

/-- The configuration files of a listing that are texts. -/
def readConfigurations (disk : Disk) (l : Listing) : Named String :=
  .ofPairs (l.configurations.filterMap (configuration? disk))

/-- The report on a directory. -/
def ofListing (schedule : Schedule) (settings : Settings) (disk : Disk) (dir : String)
    (l : Listing) : Report × List Event :=
  let (report, log) :=
    match l.main? disk with
    | some main => ofMain schedule settings disk dir main
    | none => ({ input := dir }, [])
  ({ report with configurations := readConfigurations disk l, resources := l.resources }, log)

/-- Analyses a file or a directory. What is told meanwhile comes with the report. -/
def analyse (schedule : Schedule) (settings : Settings) (disk : Disk) (path : String) :
    Except Failure (Report × List Event) :=
  match disk.node path with
  | .error fault => .error (.io path fault)
  | .ok (.file _) => .ok (ofMain schedule settings disk path path)
  | .ok (.dir _) => (Listing.scan disk path).map (ofListing schedule settings disk path)

end Report

end Dissect
