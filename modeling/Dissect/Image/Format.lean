import Dissect.Bytes

/-!
What kind of file an image is, and what it runs on.

Each of the three types has two spellings: `label` is the one for people, `tag` the one used in
documents.
-/

namespace Dissect

/-- Container format of a file. -/
inductive Format
  | pe
  | elf
  | machO
  | zip
  | unknown
  deriving DecidableEq, Repr

/-- Instruction set of an image. -/
inductive Architecture
  | x86
  | x64
  | arm32
  | arm64
  | unknown
  deriving DecidableEq, Repr

/-- Operating system an image is made for. -/
inductive Platform
  | windows
  | linux
  | macOS
  | unknown
  deriving DecidableEq, Repr

namespace Format

def label : Format → String
  | pe => "PE"
  | elf => "ELF"
  | machO => "Mach-O"
  | zip => "ZIP"
  | unknown => "Unknown"

def tag : Format → String
  | pe => "PE"
  | elf => "ELF"
  | machO => "MachO"
  | zip => "ZipBased"
  | unknown => "Unknown"

/-- The format that the first four bytes announce. A universal Mach-O file is not recognised: its
first bytes are also those of a class file. -/
def detect : Bytes → Format
  | 0x4D :: 0x5A :: _ :: _ :: _ => pe
  | 0x7F :: 0x45 :: 0x4C :: 0x46 :: _ => elf
  | 0xFE :: 0xED :: 0xFA :: 0xCE :: _ => machO
  | 0xFE :: 0xED :: 0xFA :: 0xCF :: _ => machO
  | 0xCE :: 0xFA :: 0xED :: 0xFE :: _ => machO
  | 0xCF :: 0xFA :: 0xED :: 0xFE :: _ => machO
  | 0x50 :: 0x4B :: _ :: _ :: _ => zip
  | _ => unknown

end Format

namespace Architecture

def label : Architecture → String
  | x86 => "x86"
  | x64 => "x64"
  | arm32 => "arm"
  | arm64 => "arm64"
  | unknown => "unknown"

def tag : Architecture → String
  | x86 => "X86"
  | x64 => "X64"
  | arm32 => "Arm32"
  | arm64 => "Arm64"
  | unknown => "Unknown"

/-- Addresses of the architecture have 64 bits. -/
def isWide : Architecture → Bool
  | x64 | arm64 => true
  | _ => false

end Architecture

namespace Platform

def label : Platform → String
  | windows => "Windows"
  | linux => "Linux"
  | macOS => "macOS"
  | unknown => "Unknown"

def tag : Platform → String
  | windows => "Windows"
  | linux => "Linux"
  | macOS => "MacOS"
  | unknown => "Unknown"

end Platform

end Dissect
