/-!
The stages of the analysis of one file, in the order in which they run.
-/

namespace Dissect

inductive Stage
  | detect
  | parse
  | strings
  | disassembly
  | controlFlow
  | apiCalls
  | deobfuscation
  | dependencies
  deriving DecidableEq, Repr

namespace Stage

def label : Stage → String
  | detect => "detect"
  | parse => "parse"
  | strings => "strings"
  | disassembly => "disassembly"
  | controlFlow => "control-flow"
  | apiCalls => "api-calls"
  | deobfuscation => "deobfuscation"
  | dependencies => "dependencies"

def tag : Stage → String
  | detect => "Detect"
  | parse => "Parse"
  | strings => "Strings"
  | disassembly => "Disassembly"
  | controlFlow => "ControlFlow"
  | apiCalls => "ApiCalls"
  | deobfuscation => "Deobfuscation"
  | dependencies => "Dependencies"

end Stage

end Dissect
