import Dissect.Decimal.Shortest
import Dissect.Settings.Basic

/-!
Settings that an analysis can work with.
-/

namespace Dissect

/-- Why settings are refused. -/
inductive SettingsFault
  | malformed
  | minLengthZero
  | lengthsCrossed
  | ratioOutside (name : String) (value : Float)
  | noInstructions
  | noFileSize
  deriving DecidableEq, Repr

namespace SettingsFault

/-- Numbers in messages have no power of ten, and whole ones no point. -/
def numberStyle : Decimal.Style where
  tie := .up
  positional _ := true
  wholeMark := ""
  risingMark := ""

def message : SettingsFault → String
  | malformed => "not a settings document"
  | minLengthZero => "strings.min_length must be at least 1"
  | lengthsCrossed => "strings.max_length must not be below strings.min_length"
  | ratioOutside name value =>
    name ++ " must be within [0, 1], got " ++ Decimal.write numberStyle value
  | noInstructions => "disassembly.max_instructions_per_function must be at least 1"
  | noFileSize => "limits.max_file_size must be non-zero"

end SettingsFault

namespace Settings

/-- The ratios, with the names they have in documents. -/
def ratios (s : Settings) : List (String × Float) := [
  ("strings.min_printable_ratio", s.texts.minPrintableRatio),
  ("deobfuscation.jump_ratio_threshold", s.obfuscation.jumpRatio),
  ("deobfuscation.nop_ratio_threshold", s.obfuscation.nopRatio),
  ("deobfuscation.encrypted_string_ratio", s.obfuscation.encryptedRatio)]

/-- A ratio lies between zero and one. -/
def isRatio (x : Float) : Bool := 0.0 ≤ x && x ≤ 1.0

/-- The first fault of the settings. -/
def fault? (s : Settings) : Option SettingsFault :=
  if s.texts.minLength = 0 then some .minLengthZero
  else if s.texts.maxLength < s.texts.minLength then some .lengthsCrossed
  else
    match s.ratios.find? fun r => !isRatio r.2 with
    | some (name, value) => some (.ratioOutside name value)
    | none =>
      if s.sweep.maxInstructions = 0 then some .noInstructions
      else if s.limits.maxFileSize = 0 then some .noFileSize
      else none

end Settings

end Dissect
