import Dissect.Text.Blank
import Dissect.Text.Caseless

/-!
What a text found in a file names, guessed from its spelling.
-/

namespace Dissect.Strings

inductive Kind
  | url
  | filePath
  | registryKey
  | unknown
  deriving DecidableEq, Repr

def Kind.tag : Kind → String
  | url => "Url"
  | filePath => "FilePath"
  | registryKey => "RegistryKey"
  | unknown => "Unknown"

open Text

/-- A scheme, a colon, two slashes, and something that is not white space. -/
def isUrl (cs : List Char) : Bool :=
  ["https", "http", "ftp"].any fun scheme =>
    match afterCaseless? (scheme.toList ++ "://".toList) cs with
    | some (c :: _) => !isBlank c
    | _ => false

/-- A character of the name of a registry root. -/
def isRootChar (c : Char) : Bool := isLetterCaseless c || c == '_'

/-- The name of a registry root, in full or short, and a backslash. -/
def isRegistryKey (cs : List Char) : Bool :=
  (["hklm\\", "hkcu\\"].any fun root => (afterCaseless? root.toList cs).isSome) ||
    match afterCaseless? "hkey_".toList cs with
    | some rest =>
      !(rest.takeWhile isRootChar).isEmpty && (rest.dropWhile isRootChar).head? == some '\\'
    | none => false

/-- A drive, a network share, a directory under the root, or a name with the extension of a program
or library. -/
def isFilePath (cs : List Char) : Bool :=
  (match cs with
    | drive :: ':' :: '\\' :: _ => isLetterCaseless drive
    | '\\' :: '\\' :: _ => true
    | _ => false) ||
  (["/usr/", "/etc/", "/bin/", "/lib/", "/tmp/", "/home/", "/var/", "/opt/"].any fun dir =>
    (afterCaseless? dir.toList cs).isSome) ||
  ([".dll", ".exe", ".sys", ".so", ".dylib"].any fun ext => endsCaseless ext.toList cs)

/-- The guess at what a text names. -/
def classify (text : String) : Kind :=
  let cs := text.toList
  if isUrl cs then .url
  else if isRegistryKey cs then .registryKey
  else if isFilePath cs then .filePath
  else .unknown

end Dissect.Strings
