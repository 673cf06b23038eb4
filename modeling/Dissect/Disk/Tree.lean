import Dissect.Bytes

/-!
Trees of files and directories.

Names are texts, and there are no links: each file stands at one place, and a tree has no more
places than it shows.
-/

namespace Dissect

/-- A file with its content, or a directory with its entries by name. -/
inductive Node
  | file (content : Bytes)
  | dir (entries : List (String × Node))

/-- The entries of a directory. -/
abbrev Entries := List (String × Node)

namespace Entries

/-- The entry of a name. -/
def get? (entries : Entries) (name : String) : Option Node := List.lookup name entries

/-- Sets the entry of a name. -/
def set (entries : Entries) (name : String) (node : Node) : Entries :=
  entries.filter (fun e => e.1 != name) ++ [(name, node)]

def erase (entries : Entries) (name : String) : Entries := entries.filter fun e => e.1 != name

end Entries

namespace Node

/-- The entries of a directory; a file has none. -/
def entries : Node → Entries
  | file _ => []
  | dir es => es

/-- The node at the end of a list of names. -/
def get? (node : Node) : List String → Option Node
  | [] => some node
  | name :: rest => (node.entries.get? name).bind fun below => below.get? rest

/-- Puts a node at the end of a list of names, with directories on the way to it. -/
def put (new : Node) : List String → Node → Node
  | [], _ => new
  | name :: rest, node =>
    dir (node.entries.set name (put new rest ((node.entries.get? name).getD (dir []))))

/-- Removes the node at the end of a list of names. -/
def erase : List String → Node → Node
  | [], node => node
  | [name], node => dir (node.entries.erase name)
  | name :: rest, node =>
    match node.entries.get? name with
    | some below => dir (node.entries.set name (erase rest below))
    | none => node

end Node

/-- A file found below a directory: the names that lead to it, and its content. -/
abbrev Found := List String × Bytes

mutual

/-- All nodes of a tree with the names that lead to them, depth first, a directory in front of its
entries, which come in the order of their names. -/
def Node.all : Node → List (List String × Node)
  | .file content => [([], .file content)]
  | .dir es =>
    ([], .dir es) ::
      ((Node.allIn es).mergeSort fun a b => decide (a.1 ≤ b.1)).flatMap fun (name, below) =>
        below.map fun (names, node) => (name :: names, node)

/-- The nodes of each of some entries. -/
def Node.allIn : List (String × Node) → List (String × List (List String × Node))
  | [] => []
  | e :: es => (e.1, e.2.all) :: Node.allIn es

end

/-- All files of a tree, in the same order. -/
def Node.files (node : Node) : List Found :=
  node.all.filterMap fun
    | (names, .file content) => some (names, content)
    | (_, .dir _) => none

end Dissect
