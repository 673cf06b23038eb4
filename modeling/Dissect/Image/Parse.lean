import Dissect.Image.Elf
import Dissect.Image.MachO
import Dissect.Image.Pe

/-!
Reading an image of any format.
-/

namespace Dissect.Image

/-- Reads a file in a given format. -/
def parseAs (format : Format) (data : Bytes) : Except ParseError Image :=
  match format with
  | .pe => Pe.parse data
  | .elf => Elf.parse data
  | .machO => MachO.parse data
  | .zip => .error (.unsupportedFormat .zip)
  | .unknown => .error .unknownFormat

/-- Reads a file in the format that its first bytes announce. -/
def parse (data : Bytes) : Except ParseError Image := parseAs (Format.detect data) data

end Dissect.Image
