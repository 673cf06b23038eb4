import Dissect.Json.Print
import Dissect.Json.Read
import Dissect.Json.Record
import Dissect.Settings.Check

/-!
Settings as documents.

`Settings.load` reads the text of a document and checks the settings; `Settings.toText` writes them.
-/

namespace Dissect

open Json (Source field?)

namespace TextSettings

def document (s : TextSettings) : Json := .obj [
  ("min_length", .nat s.minLength),
  ("max_length", .nat s.maxLength),
  ("min_printable_ratio", .float s.minPrintableRatio)]

def ofSource? (source : Source) : Option TextSettings := do
  let given ← source.fields? ["min_length", "max_length", "min_printable_ratio"]
  let usual : TextSettings := {}
  return {
    minLength := ← field? given "min_length" Source.nat? usual.minLength
    maxLength := ← field? given "max_length" Source.nat? usual.maxLength
    minPrintableRatio :=
      ← field? given "min_printable_ratio" Source.float? usual.minPrintableRatio }

end TextSettings

namespace SweepSettings

def document (s : SweepSettings) : Json := .obj [
  ("max_instructions_per_function", .nat s.maxInstructions),
  ("max_functions_per_section", .nat s.maxFunctions)]

def ofSource? (source : Source) : Option SweepSettings := do
  let given ← source.fields? ["max_instructions_per_function", "max_functions_per_section"]
  let usual : SweepSettings := {}
  return {
    maxInstructions :=
      ← field? given "max_instructions_per_function" Source.nat? usual.maxInstructions
    maxFunctions := ← field? given "max_functions_per_section" Source.nat? usual.maxFunctions }

end SweepSettings

namespace ObfuscationSettings

def document (s : ObfuscationSettings) : Json := .obj [
  ("jump_ratio_threshold", .float s.jumpRatio),
  ("jump_chain_length", .nat s.jumpChain),
  ("nop_ratio_threshold", .float s.nopRatio),
  ("string_entropy_threshold", .float s.textEntropy),
  ("encrypted_string_ratio", .float s.encryptedRatio),
  ("max_xor_candidates", .nat s.maxXorCandidates),
  ("simplify_min_instructions", .nat s.simplifyAbove)]

def ofSource? (source : Source) : Option ObfuscationSettings := do
  let given ← source.fields? [
    "jump_ratio_threshold", "jump_chain_length", "nop_ratio_threshold",
    "string_entropy_threshold", "encrypted_string_ratio", "max_xor_candidates",
    "simplify_min_instructions"]
  let usual : ObfuscationSettings := {}
  return {
    jumpRatio := ← field? given "jump_ratio_threshold" Source.float? usual.jumpRatio
    jumpChain := ← field? given "jump_chain_length" Source.nat? usual.jumpChain
    nopRatio := ← field? given "nop_ratio_threshold" Source.float? usual.nopRatio
    textEntropy := ← field? given "string_entropy_threshold" Source.float? usual.textEntropy
    encryptedRatio := ← field? given "encrypted_string_ratio" Source.float? usual.encryptedRatio
    maxXorCandidates := ← field? given "max_xor_candidates" Source.nat? usual.maxXorCandidates
    simplifyAbove := ← field? given "simplify_min_instructions" Source.nat? usual.simplifyAbove }

end ObfuscationSettings

namespace CallSettings

def document (s : CallSettings) : Json := .obj [("argument_lookback", .nat s.lookback)]

def ofSource? (source : Source) : Option CallSettings := do
  let given ← source.fields? ["argument_lookback"]
  let usual : CallSettings := {}
  return { lookback := ← field? given "argument_lookback" Source.nat? usual.lookback }

end CallSettings

namespace DependencySettings

def document (s : DependencySettings) : Json := .obj [
  ("analyze_dependencies", .bool s.follow),
  ("system_search_paths", .ofList .str s.searchPaths)]

def ofSource? (source : Source) : Option DependencySettings := do
  let given ← source.fields? ["analyze_dependencies", "system_search_paths"]
  let usual : DependencySettings := {}
  return {
    follow := ← field? given "analyze_dependencies" Source.bool? usual.follow
    searchPaths := ← field? given "system_search_paths" Source.texts? usual.searchPaths }

end DependencySettings

namespace LimitSettings

def document (s : LimitSettings) : Json := .obj [
  ("max_file_size", .nat s.maxFileSize),
  ("worker_threads", .nat s.workers)]

def ofSource? (source : Source) : Option LimitSettings := do
  let given ← source.fields? ["max_file_size", "worker_threads"]
  let usual : LimitSettings := {}
  return {
    maxFileSize := ← field? given "max_file_size" Source.nat? usual.maxFileSize
    workers := ← field? given "worker_threads" Source.nat? usual.workers }

end LimitSettings

namespace Settings

def document (s : Settings) : Json := .obj [
  ("strings", s.texts.document),
  ("disassembly", s.sweep.document),
  ("deobfuscation", s.obfuscation.document),
  ("api", s.calls.document),
  ("dependencies", s.dependencies.document),
  ("limits", s.limits.document)]

def ofSource? (source : Source) : Option Settings := do
  let given ← source.fields? [
    "strings", "disassembly", "deobfuscation", "api", "dependencies", "limits"]
  return {
    texts := ← field? given "strings" TextSettings.ofSource? {}
    sweep := ← field? given "disassembly" SweepSettings.ofSource? {}
    obfuscation := ← field? given "deobfuscation" ObfuscationSettings.ofSource? {}
    calls := ← field? given "api" CallSettings.ofSource? {}
    dependencies := ← field? given "dependencies" DependencySettings.ofSource? {}
    limits := ← field? given "limits" LimitSettings.ofSource? {} }

/-- The text of the settings document. -/
def toText (s : Settings) : String := s.document.toText

/-- The settings in a text, not checked. -/
def ofText? (text : String) : Option Settings := (Source.read? text).bind ofSource?

/-- The settings in a text, checked. -/
def load (text : String) : Except SettingsFault Settings :=
  match ofText? text with
  | none => .error .malformed
  | some s =>
    match s.fault? with
    | some fault => .error fault
    | none => .ok s

end Settings

end Dissect
