import Dissect.Analysis.Report
import Dissect.Decimal.Fixed

/-!
The summary of a report in a few lines.
-/

namespace Dissect.Report

/-- A number as text. -/
def count (n : Nat) : String := Numeral.decimal n

def imageLines (i : Image) : List String :=
  ["  Format: " ++ i.format.label ++ ", architecture: " ++ i.architecture.label ++
      ", platform: " ++ i.platform.label,
    "  Entry point: " ++ Numeral.hexUpper 1 i.entryPoint.toNat,
    "  Sections: " ++ count i.sections.length ++ ", linked libraries: " ++
      count i.libraries.length] ++
    (i.packer.map ("  Packer: " ++ ·)).toList

def deobfuscationLines (d : Deobfuscation) : List String :=
  if d.isObfuscated then
    ["  Obfuscation: [" ++ ", ".intercalate (d.detected.map (·.tag)) ++ "] (" ++
      Decimal.fixed 0 (d.successRate * 100.0) ++ "% of techniques succeeded)"]
  else []

def mainLines (a : FileAnalysis) : List String :=
  ["Main executable: " ++ a.path ++ " (" ++ count a.size ++ " bytes)"] ++
    (a.halt.map fun halt =>
      "  Failed during " ++ halt.stage.label ++ ": " ++ halt.message).toList ++
    ((a.image.map imageLines).getD []) ++
    ["  Strings: " ++ count a.strings.length ++ ", functions: " ++ count a.functions.length ++
      ", API calls: " ++ count a.calls.length] ++
    ((a.deobfuscation.map deobfuscationLines).getD [])

def dependencyLines (r : Report) : List String :=
  if r.dependencies.isEmpty then []
  else
    ["Dependencies: " ++ count r.dependencies.length ++ " (" ++
      count (r.dependencies.countP (·.path.isSome)) ++ " found on disk, " ++
      count r.libraries.length ++ " analysed)"]

def directoryLines (r : Report) : List String :=
  if r.configurations.isEmpty && r.resources.isEmpty then []
  else
    ["Configuration files: " ++ count r.configurations.length ++ ", resources: " ++
      count r.resources.length]

def failureLines (r : Report) : List String :=
  if r.failures.isEmpty then [] else ["Failed files: " ++ count r.failures.length]

/-- The lines of the summary. -/
def summary (r : Report) : List String :=
  ("Input: " ++ r.input) ::
    match r.main with
    | none => ["No executable found"]
    | some main => mainLines main ++ dependencyLines r ++ directoryLines r ++ failureLines r

end Dissect.Report
