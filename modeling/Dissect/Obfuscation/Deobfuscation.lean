import Dissect.Obfuscation.Technique

/-!
Deobfuscation: the techniques for all obfuscation that was detected, one after the other.

Each technique sees the findings as the successful ones before it have left them.
-/

namespace Dissect

structure Deobfuscation where
  detected : List Obfuscation := []
  steps : List Step := []
  improved : Improvement := {}
  deriving DecidableEq, Repr

namespace Deobfuscation

def isObfuscated (d : Deobfuscation) : Bool := !d.detected.isEmpty

/-- Share of successful steps; zero if there are none. -/
def successRate (d : Deobfuscation) : Float :=
  if d.steps.isEmpty then 0
  else Float.ofNat (d.steps.countP (·.success)) / Float.ofNat d.steps.length

/-- Applies a technique on top of the improvements so far. -/
def applyTechnique (x : Findings) (state : List Step × Improvement) (t : Technique) :
    List Step × Improvement :=
  let outcome := t.apply (state.2.overlay x)
  (state.1 ++ [outcome.step],
    if outcome.step.success then state.2.merge outcome.improved else state.2)

/-- Detects obfuscation and applies those of the techniques that are for it. -/
def run (settings : ObfuscationSettings) (techniques : List Technique) (x : Findings) :
    Deobfuscation :=
  let detected := Probe.detect settings x
  let applied := (techniques.filter fun t => detected.contains t.handles).foldl
    (applyTechnique x) ([], {})
  { detected, steps := applied.1, improved := applied.2 }

end Deobfuscation

end Dissect
