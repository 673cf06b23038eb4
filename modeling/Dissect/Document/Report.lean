import Dissect.Analysis.Report
import Dissect.Document.Call
import Dissect.Document.Image
import Dissect.Document.Obfuscation
import Dissect.Document.Strings

/-!
Documents of reports.
-/

namespace Dissect

def Dependency.document (d : Dependency) : Json := .obj [
  ("name", .str d.name),
  ("path", .ofOption .str d.path),
  ("kind", .str d.kind.tag),
  ("description", .ofOption .str d.description)]

def Resource.document (r : Resource) : Json := .obj [
  ("path", .str r.path),
  ("size", .nat r.size),
  ("kind", .str r.kind.tag)]

def Halt.document (h : Halt) : Json := .obj [
  ("stage", .str h.stage.tag),
  ("message", .str h.message)]

def FileAnalysis.document (a : FileAnalysis) : Json :=
  .obj [
    ("path", .str a.path),
    ("file_name", .str a.fileName),
    ("file_size", .nat a.size),
    ("format", .str a.format.tag),
    ("structure", .ofOption Image.document a.image),
    ("strings", .ofList .str a.strings),
    ("string_occurrences", .ofList Strings.Occurrence.document a.occurrences),
    ("functions", .ofList Function.document a.functions),
    ("api_calls", .ofList Call.document a.calls),
    ("deobfuscation", .ofOption Deobfuscation.document a.deobfuscation),
    ("failure", .ofOption Halt.document a.halt)]

/-- The members of the document of a report that follow from what was analysed. -/
def Report.members (r : Report) : List (String × Json) := [
  ("input_path", .str r.input),
  ("main_executable", .ofOption (fun a => .str a.path) r.main),
  ("main_analysis", .ofOption FileAnalysis.document r.main),
  ("dependencies", .ofList Dependency.document r.dependencies),
  ("dependency_analyses", .obj (r.libraries.map fun (name, a) => (name, a.document))),
  ("configuration_files", .obj (r.configurations.map fun (path, text) => (path, .str text))),
  ("resources", .ofList Resource.document r.resources)]

def Event.document : Event → Json
  | started path => .obj [("FileStarted", .obj [("path", .str path)])]
  | stageDone path stage =>
    .obj [("StageCompleted", .obj [("path", .str path), ("stage", .str stage.tag)])]
  | completed path functions strings =>
    .obj [("FileCompleted",
      .obj [("path", .str path), ("functions", .nat functions), ("strings", .nat strings)])]
  | failed path stage message =>
    .obj [("FileFailed",
      .obj [("path", .str path), ("stage", .str stage.tag), ("message", .str message)])]
  | resolved name path =>
    .obj [("DependencyResolved", .obj [("name", .str name), ("path", .str path)])]
  | unresolved name => .obj [("DependencyUnresolved", .obj [("name", .str name)])]

end Dissect
