import Dissect.Image.Basic
import Dissect.Obfuscation.Entropy
import Dissect.Obfuscation.Junk
import Dissect.Settings.Basic
import Dissect.Text.Digit
import Dissect.Text.Lower
import Dissect.Text.Part

/-!
Signs of obfuscation in an image, its texts and its functions.
-/

namespace Dissect

/-- A way to hide what a program does. -/
inductive Obfuscation
  | packing
  | stringEncryption
  | controlFlow
  | junkCode
  | antiAnalysis
  | entryPoint
  | sectionChange
  | imports
  deriving DecidableEq, Repr

def Obfuscation.tag : Obfuscation → String
  | packing => "Packing"
  | stringEncryption => "StringEncryption"
  | controlFlow => "ControlFlowObfuscation"
  | junkCode => "JunkCode"
  | antiAnalysis => "AntiAnalysis"
  | entryPoint => "EntryPointObfuscation"
  | sectionChange => "SectionModification"
  | imports => "ImportObfuscation"

/-- What is known of a file: its image, its texts and its functions. -/
structure Findings where
  image : Image
  strings : List String
  functions : List Function
  deriving DecidableEq, Repr

namespace Probe

/-- Parts of section names that packers leave. -/
def packerMarks : List String := ["upx", "aspack", "mew"]

def isLowerLetter (c : Char) : Bool := 'a' ≤ c && c ≤ 'z'

/-- A dot, one or two letters and then digits up to the end. -/
def isNumbered (name : String) : Bool :=
  match name.toList with
  | '.' :: rest =>
    let letters := rest.takeWhile isLowerLetter
    let digits := rest.dropWhile isLowerLetter
    (letters.length == 1 || letters.length == 2) && !digits.isEmpty && digits.all Text.isDigit
  | _ => false

/-- Code that can be changed while it runs, or a name that a packer leaves. -/
def isSuspicious (s : Section) : Bool :=
  (s.flags.execute && s.flags.write) ||
    let name := Text.lower s.name
    packerMarks.any (Text.contains name) || isNumbered name

def suspiciousSections (sections : List Section) : Bool := sections.any isSuspicious

/-- Names of the section where execution usually starts. -/
def isMainCode (name : String) : Bool := name == ".text" || Text.endsWith name ",__text"

/-- Execution starts in a section other than the main code. -/
def hiddenEntry (i : Image) : Bool :=
  (i.sections.filter (·.containsRva i.entryRva)).any fun s => !isMainCode s.name

/-- Share of jumps among the instructions. -/
def jumpRatio (is : List Instruction) : Float :=
  if is.isEmpty then 0
  else Float.ofNat (is.countP (·.isJump)) / Float.ofNat is.length

/-- Greatest number of jumps in a row, where `current` of them have just been met. -/
def jumpChainFrom : Nat → Nat → List Instruction → Nat
  | longest, _, [] => longest
  | longest, current, i :: is =>
    if i.isJump then jumpChainFrom (max longest (current + 1)) (current + 1) is
    else jumpChainFrom longest 0 is

def jumpChain (is : List Instruction) : Nat := jumpChainFrom 0 0 is

/-- A function jumps too much. -/
def tangledFlow (settings : ObfuscationSettings) (fs : List Function) : Bool :=
  fs.any fun f =>
    decide (settings.jumpRatio < jumpRatio f.instructions) ||
      decide (settings.jumpChain < jumpChain f.instructions)

/-- A list of instructions has too many without effect, or one of the kinds that are never meant. -/
def isJunky (settings : ObfuscationSettings) (is : List Instruction) : Bool :=
  decide (Float.ofNat is.length * settings.nopRatio < Float.ofNat (is.countP Junk.isNop)) ||
    is.any Junk.isSelfXor || Junk.hasPair is

def junkCode (settings : ObfuscationSettings) (fs : List Function) : Bool :=
  fs.any fun f => isJunky settings f.instructions

/-- Too many texts look random. -/
def encryptedStrings (settings : ObfuscationSettings) (strings : List String) : Bool :=
  let suspicious := strings.countP fun s => decide (settings.textEntropy < Entropy.ofText s)
  decide (Float.ofNat strings.length * settings.encryptedRatio < Float.ofNat suspicious)

/-- Interrupts that behave differently under a debugger. -/
def debuggerInterrupts : List UInt64 := [0x2D, 0x03]

/-- An instruction by which a program notices that it is watched. -/
def isWatchful (i : Instruction) : Bool :=
  i.mnemonic == "rdtsc" ||
    (i.mnemonic == "int" && (i.target?.map debuggerInterrupts.contains).getD false)

def antiAnalysis (fs : List Function) : Bool := fs.any fun f => f.instructions.any isWatchful

/-- All probes with their answers, in the order in which they are reported. -/
def answers (settings : ObfuscationSettings) (x : Findings) : List (Obfuscation × Bool) := [
  (.packing, x.image.packed),
  (.sectionChange, suspiciousSections x.image.sections),
  (.entryPoint, hiddenEntry x.image),
  (.controlFlow, tangledFlow settings x.functions),
  (.junkCode, junkCode settings x.functions),
  (.stringEncryption, encryptedStrings settings x.strings),
  (.antiAnalysis, antiAnalysis x.functions)]

/-- The kinds of obfuscation of which there are signs. -/
def detect (settings : ObfuscationSettings) (x : Findings) : List Obfuscation :=
  ((answers settings x).filter (·.2)).map (·.1)

end Probe

end Dissect
