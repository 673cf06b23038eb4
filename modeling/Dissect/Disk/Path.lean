/-!
Paths as texts.

A path is a list of segments between slashes. Empty segments and single dots say nothing, but for a
dot at the start of a path; what is left are the parts of the path.
-/

namespace Dissect.Path

/-- The path starts at the root. -/
def isAbsolute (path : String) : Bool := path.toList.head? == some '/'

/-- Cuts a text at every slash. -/
def splitSlashes : List Char → List (List Char)
  | [] => [[]]
  | c :: cs =>
    if c = '/' then [] :: splitSlashes cs
    else
      match splitSlashes cs with
      | s :: rest => (c :: s) :: rest
      | [] => [[c]]

/-- The segments of a path, without the empty one in front of the slash of the root. -/
def segments (path : String) : List String :=
  let all := (splitSlashes path.toList).map String.ofList
  if isAbsolute path then all.drop 1 else all

/-- The path of given segments. -/
def ofSegments (absolute : Bool) (segments : List String) : String :=
  (if absolute then "/" else "") ++ "/".intercalate segments

/-- A segment that says nothing where it stands. -/
def isEmptySegment (s : String) : Bool := s == "" || s == "."

/-- The parts among the segments that stand behind others. -/
def partsAfter (segments : List String) : List String := segments.filter fun s => !isEmptySegment s

/-- The parts of a path. -/
def parts (path : String) : List String :=
  match segments path with
  | "." :: rest => if isAbsolute path then partsAfter rest else "." :: partsAfter rest
  | all => partsAfter all

/-- What two spellings of a path have in common: whether it starts at the root, and its parts. -/
structure Key where
  absolute : Bool
  parts : List String
  deriving DecidableEq, Repr

def key (path : String) : Key := ⟨isAbsolute path, parts path⟩

/-- Leaves out the segments at the end that say nothing. -/
def trimEnd (absolute : Bool) (segments : List String) : List String :=
  match segments with
  | [] => []
  | first :: rest =>
    let kept := (rest.reverse.dropWhile isEmptySegment).reverse
    if kept.isEmpty && (first == "" || (first == "." && absolute)) then [] else first :: kept

/-- The path without its last part; none for a path without parts. -/
def parent? (path : String) : Option String :=
  let absolute := isAbsolute path
  let kept := trimEnd absolute (segments path)
  if kept.isEmpty then none
  else some (ofSegments absolute (trimEnd absolute kept.dropLast))

/-- The last part of a path, if it is a name. -/
def fileName? (path : String) : Option String :=
  match (parts path).getLast? with
  | some name => if name == "." || name == ".." then none else some name
  | none => none

/-- The text after the last dot of a list of characters, unless there is nothing in front of the
dot. -/
def afterLastDot? (name : List Char) : Option (List Char) :=
  let ending := (name.reverse.takeWhile (· != '.')).reverse
  if ending.length + 1 < name.length then some ending else none

/-- The extension of the name of a file. -/
def extension? (path : String) : Option String :=
  (fileName? path).bind fun name => (afterLastDot? name.toList).map String.ofList

/-- A path below another one. -/
def join (base path : String) : String :=
  if isAbsolute path then path
  else if base.isEmpty || base.toList.getLast? == some '/' then base ++ path
  else base ++ "/" ++ path

end Dissect.Path
