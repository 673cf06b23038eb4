import Dissect.Image.Basic
import Dissect.Json.Basic

/-!
Documents of images.
-/

namespace Dissect

def SectionFlags.document (f : SectionFlags) : Json := .str (" | ".intercalate f.names)

def Section.document (s : Section) : Json := .obj [
  ("name", .str s.name),
  ("virtual_address", .ofWord s.virtualAddress),
  ("virtual_size", .ofWord s.virtualSize),
  ("raw_offset", .ofWord s.rawOffset),
  ("raw_size", .ofWord s.rawSize),
  ("flags", s.flags.document),
  ("kind", .str s.kind.tag)]

def Image.document (i : Image) : Json := .obj [
  ("format", .str i.format.tag),
  ("architecture", .str i.architecture.tag),
  ("platform", .str i.platform.tag),
  ("entry_point", .ofWord i.entryPoint),
  ("image_base", .ofWord i.imageBase),
  ("sections", .ofList Section.document i.sections),
  ("linked_libraries", .ofList .str i.libraries),
  ("packed", .bool i.packed),
  ("packer", .ofOption .str i.packer),
  ("headers", .obj (i.facts.map fun (name, value) => (name, .str value)))]

end Dissect
