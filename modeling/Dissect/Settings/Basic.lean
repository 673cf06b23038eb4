/-!
Settings of an analysis, with their usual values.
-/

namespace Dissect

/-- Which printable runs of a file count as text. -/
structure TextSettings where
  /-- Least number of characters of a text. -/
  minLength : Nat := 4
  /-- Greatest number of characters of a text. -/
  maxLength : Nat := 1000
  /-- Least share of printable characters. -/
  minPrintableRatio : Float := 0.7
  deriving DecidableEq, Repr

/-- Limits of the sweep over a code section. -/
structure SweepSettings where
  maxInstructions : Nat := 10000
  maxFunctions : Nat := 50000
  deriving DecidableEq, Repr

/-- Thresholds of the probes for obfuscation, and limits of the techniques against it. -/
structure ObfuscationSettings where
  /-- Share of jumps above which the control flow of a function counts as obfuscated. -/
  jumpRatio : Float := 0.30
  /-- Number of jumps in a row above which it does so too. -/
  jumpChain : Nat := 3
  /-- Share of instructions without effect above which a function holds junk. -/
  nopRatio : Float := 0.10
  /-- Entropy above which a text looks encrypted. -/
  textEntropy : Float := 4.5
  /-- Share of such texts above which texts count as encrypted. -/
  encryptedRatio : Float := 0.30
  /-- Number of texts that decryption tries at most. -/
  maxXorCandidates : Nat := 4096
  /-- Number of instructions above which a function is worth simplifying. -/
  simplifyAbove : Nat := 10
  deriving DecidableEq, Repr

/-- How far in front of a call its arguments are looked for. -/
structure CallSettings where
  lookback : Nat := 10
  deriving DecidableEq, Repr

/-- Whether and where imported libraries are looked for. -/
structure DependencySettings where
  follow : Bool := true
  /-- Directories searched after those of the file itself. -/
  searchPaths : List String := [
    "C:\\Windows\\System32", "C:\\Windows\\SysWOW64", "/lib", "/usr/lib", "/usr/local/lib"]
  deriving DecidableEq, Repr

/-- Limits on resources. -/
structure LimitSettings where
  /-- Size in bytes above which a file is not read. -/
  maxFileSize : Nat := 268435456
  /-- Number of workers for dependencies; zero leaves the choice open. -/
  workers : Nat := 0
  deriving DecidableEq, Repr

/-- All settings of an analysis. -/
structure Settings where
  texts : TextSettings := {}
  sweep : SweepSettings := {}
  obfuscation : ObfuscationSettings := {}
  calls : CallSettings := {}
  dependencies : DependencySettings := {}
  limits : LimitSettings := {}
  deriving DecidableEq, Repr

end Dissect
