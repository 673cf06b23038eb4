import Dissect.Bytes
import Dissect.Text.Blank
import Dissect.Text.Utf8

/-!
Names stored in headers: either in a field of fixed width, padded with zero bytes, or anywhere in
the file, ended by a zero byte.
-/

namespace Dissect.Image

/-- The name in a field of fixed width, without white space at its ends. -/
def fixedName (field : Bytes) : String :=
  String.ofList (Text.trim (Utf8.decodeLossy field.untilZero).toList)

/-- The name that starts at a position of the file and has at most `max` bytes. It is empty past the
end of the file. -/
def nameAt (data : Bytes) (offset max : Nat) : String :=
  if data[offset]?.isNone then "" else Utf8.decodeLossy (data.slice offset max).untilZero

end Dissect.Image
