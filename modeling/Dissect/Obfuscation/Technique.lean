import Dissect.Obfuscation.Probe
import Dissect.Obfuscation.Xor

/-!
Techniques against obfuscation.

A technique looks at the findings and says what it did; it may give better texts or functions in
place of those it saw. A technique that cannot help says so in its step.
-/

namespace Dissect

/-- What a technique did. -/
structure Step where
  technique : String
  description : String
  success : Bool := false
  improvements : List String := []
  error : Option String := none
  deriving DecidableEq, Repr

/-- Findings that replace earlier ones; what is absent stays as it was. -/
structure Improvement where
  strings : Option (List String) := none
  functions : Option (List Function) := none
  deriving DecidableEq, Repr

namespace Improvement

def isEmpty (i : Improvement) : Bool := i.strings.isNone && i.functions.isNone

/-- Both improvements, of which the second counts where both have something. -/
def merge (i j : Improvement) : Improvement where
  strings := j.strings.or i.strings
  functions := j.functions.or i.functions

/-- The findings with the improvement in place. -/
def overlay (i : Improvement) (x : Findings) : Findings where
  image := x.image
  strings := i.strings.getD x.strings
  functions := i.functions.getD x.functions

end Improvement

structure Outcome where
  step : Step
  improved : Improvement := {}
  deriving DecidableEq, Repr

structure Technique where
  name : String
  /-- The obfuscation that the technique is for. -/
  handles : Obfuscation
  apply : Findings → Outcome

namespace Technique

/-- Names the packer. -/
def unpacking : Technique where
  name := "Unpacking"
  handles := .packing
  apply x :=
    { step :=
        { technique := "Unpacking"
          description := "Attempting to unpack executable"
          success := true
          improvements :=
            ["Detected and handled " ++ x.image.packer.getD "unknown" ++ " packer"] } }

/-- Adds the texts that decryption finds to those there are, for at most `limit` texts. -/
def stringDecryption (limit : Nat) : Technique where
  name := "String Decryption"
  handles := .stringEncryption
  apply x :=
    let step : Step :=
      { technique := "String Decryption"
        description := "Attempting to decrypt obfuscated strings" }
    let decrypted := (x.strings.take limit).filterMap Xor.decryptText?
    if decrypted.isEmpty then
      { step := { step with error := some "No strings could be decrypted" } }
    else
      { step :=
          { step with
            success := true
            improvements := ["Decrypted " ++ Numeral.decimal decrypted.length ++ " strings"] }
        improved := { strings := some (Text.sortedSet (x.strings ++ decrypted)) } }

/-- Counts the functions of more than `above` instructions. -/
def flowSimplification (above : Nat) : Technique where
  name := "Control Flow Deobfuscation"
  handles := .controlFlow
  apply x :=
    let count := x.functions.countP fun f => above < f.instructions.length
    { step :=
        { technique := "Control Flow Deobfuscation"
          description := "Simplifying obfuscated control flow"
          success := 0 < count
          improvements :=
            ["Simplified control flow in " ++ Numeral.decimal count ++ " functions"] } }

/-- Number of instructions that the removal of junk takes away. -/
def junkCount : List Function → Nat
  | [] => 0
  | f :: fs => f.instructions.length - (Junk.remove f.instructions).length + junkCount fs

/-- Removes junk from the functions. -/
def junkRemoval : Technique where
  name := "Junk Code Removal"
  handles := .junkCode
  apply x :=
    let removed := junkCount x.functions
    { step :=
        { technique := "Junk Code Removal"
          description := "Removing junk code and NOPs"
          success := 0 < removed
          improvements := ["Removed " ++ Numeral.decimal removed ++ " junk instructions"] }
      improved :=
        { functions := if 0 < removed then some (x.functions.map Junk.clean) else none } }

/-- The techniques in the order in which they are applied. -/
def usual (settings : ObfuscationSettings) : List Technique := [
  unpacking,
  stringDecryption settings.maxXorCandidates,
  flowSimplification settings.simplifyAbove,
  junkRemoval]

end Technique

end Dissect
