import Dissect.Analysis.Event
import Dissect.Code.Call
import Dissect.Code.Sweep
import Dissect.Failure
import Dissect.Image.Parse
import Dissect.Obfuscation.Deobfuscation
import Dissect.Strings.Extract

/-!
The analysis of one file.

The analysis of a file never fails as such: it stops at the first stage that cannot go on, and says
which stage that was. Each stage that is completed is told of at once, and what it has found is kept
as soon as it is known, or with the last stage.

There is one thing that it does not survive. The program can be built so that it checks its sums,
and then it comes to an end where an address of code is too large for a word.
-/

namespace Dissect

/-- Why the analysis of a file stopped. -/
inductive Halt
  | unreadable (failure : Failure)
  | unknownFormat
  | unparsable (failure : Failure)
  deriving DecidableEq, Repr

namespace Halt

/-- The stage that could not go on. -/
def stage : Halt → Stage
  | unreadable _ | unknownFormat => .detect
  | unparsable _ => .parse

def message : Halt → String
  | unreadable failure | unparsable failure => failure.message
  | unknownFormat => "Unknown binary format"

end Halt

/-- What becomes of a sum that is too large for a word; it depends on how the program is built. -/
inductive Overflow
  /-- The sum goes on from zero. -/
  | wraps
  /-- The program ends. -/
  | aborts
  deriving DecidableEq, Repr

/-- What is known of a file. -/
structure FileAnalysis where
  path : String
  /-- Size of the file, if it could be read. -/
  size : Nat := 0
  format : Format := .unknown
  image : Option Image := none
  strings : List String := []
  occurrences : List Strings.Occurrence := []
  functions : List Function := []
  calls : List Call := []
  deobfuscation : Option Deobfuscation := none
  /-- Why the analysis stopped, if it did. -/
  halt : Option Halt := none
  deriving DecidableEq, Repr

/-- How far the analysis of a file has come. -/
structure Progress where
  /-- What is known so far. -/
  analysis : FileAnalysis
  /-- What has been told. -/
  log : List Event

/-- Why a part of the analysis of a file does not go on. -/
inductive Stop
  /-- The analysis of the file ends. -/
  | halt (halt : Halt)
  /-- The program ends. -/
  | overflow
  deriving DecidableEq, Repr

/-- A part of the analysis of a file: it goes on from what has been reached so far, and can stop. -/
abbrev Pipeline := ExceptT Stop (StateM Progress)

namespace Pipeline

/-- Keeps more of what is known of the file. -/
def keep (more : FileAnalysis → FileAnalysis) : Pipeline Unit :=
  modify fun p => { p with analysis := more p.analysis }

/-- Tells that a stage is completed. -/
def complete (path : String) (stage : Stage) : Pipeline Unit :=
  modify fun p => { p with log := p.log ++ [.stageDone path stage] }

/-- The stages of the analysis of a file, one after the other. -/
def ofFile (overflow : Overflow) (settings : Settings) (disk : Disk) (path : String) :
    Pipeline Unit := do
  let data ← match disk.open path settings.limits.maxFileSize with
    | .ok data => pure data
    | .error failure => throw (.halt (.unreadable failure))
  keep ({ · with size := data.length })
  let format := Format.detect data
  keep ({ · with format })
  if format = .unknown then throw (.halt .unknownFormat)
  complete path .detect
  let image ← match Image.parseAs format data with
    | .ok image => pure image
    | .error e => throw (.halt (.unparsable (.ofParseError e)))
  complete path .parse
  let strings := Strings.values settings.texts data (some image)
  keep ({ · with strings })
  keep ({ · with occurrences := Strings.occurrences settings.texts data })
  complete path .strings
  if overflow = .aborts ∧ Sweep.overflowsIn settings.sweep data image then throw .overflow
  let swept := Sweep.ofImage settings.sweep data image
  complete path .disassembly
  let functions := swept.map Function.withGraph
  complete path .controlFlow
  keep ({ · with calls := Call.inFunctions SignatureTable.usual settings.calls.lookback functions })
  complete path .apiCalls
  let deobfuscation := Deobfuscation.run settings.obfuscation
    (Technique.usual settings.obfuscation) { image, strings, functions }
  complete path .deobfuscation
  keep ({ · with functions, deobfuscation := some deobfuscation, image := some image })

end Pipeline

namespace FileAnalysis

def isSuccess (a : FileAnalysis) : Bool := a.halt.isNone

/-- The texts after deobfuscation. -/
def effectiveStrings (a : FileAnalysis) : List String :=
  (a.deobfuscation.bind (·.improved.strings)).getD a.strings

/-- The functions after deobfuscation. -/
def effectiveFunctions (a : FileAnalysis) : List Function :=
  (a.deobfuscation.bind (·.improved.functions)).getD a.functions

/-- Name of the file without its directory. -/
def fileName (a : FileAnalysis) : String := (Path.fileName? a.path).getD ""

/-- Analyses a file, in a program built one way or the other. What is told meanwhile comes with the
analysis, or without one if the program ends. -/
def runIn (overflow : Overflow) (settings : Settings) (disk : Disk) (path : String) :
    Option FileAnalysis × List Event :=
  let (result, p) := (Pipeline.ofFile overflow settings disk path).run ⟨{ path }, [.started path]⟩
  match result with
  | .ok () =>
    (some p.analysis,
      p.log ++ [.completed path p.analysis.functions.length p.analysis.strings.length])
  | .error (.halt halt) =>
    (some { p.analysis with halt }, p.log ++ [.failed path halt.stage halt.message])
  | .error .overflow => (none, p.log)

/-- Analyses a file, in a program that does not check its sums. -/
def run (settings : Settings) (disk : Disk) (path : String) : FileAnalysis × List Event :=
  let (analysis, log) := runIn .wraps settings disk path
  (analysis.getD { path }, log)

/-- The analysis of a file. -/
def ofFile (settings : Settings) (disk : Disk) (path : String) : FileAnalysis :=
  (run settings disk path).1

end FileAnalysis

end Dissect
