import Dissect.Text.Lower

/-!
Known library functions, looked up by name without regard to case.
-/

namespace Dissect

/-- What a library function is for. -/
inductive CallCategory
  | fileAccess
  | memory
  | process
  | thread
  | registry
  | network
  | userInterface
  | graphics
  | audio
  | crypto
  | system
  | inputOutput
  | unknown
  deriving DecidableEq, Repr

def CallCategory.tag : CallCategory → String
  | fileAccess => "FileIo"
  | memory => "Memory"
  | process => "Process"
  | thread => "Thread"
  | registry => "Registry"
  | network => "Network"
  | userInterface => "Ui"
  | graphics => "Graphics"
  | audio => "Audio"
  | crypto => "Crypto"
  | system => "System"
  | inputOutput => "Io"
  | unknown => "Unknown"

/-- The declaration of a library function. -/
structure Signature where
  name : String
  category : CallCategory
  description : String
  parameters : List String
  result : String
  deriving DecidableEq, Repr

/-- Declarations in the order in which they were added; a later one of a name replaces an earlier
one. -/
abbrev SignatureTable := List Signature

namespace SignatureTable

def add (table : SignatureTable) (s : Signature) : SignatureTable := s :: table

/-- The declaration of a name, whatever its case. -/
def find? (table : SignatureTable) (name : String) : Option Signature :=
  let key := Text.lower name
  List.find? (fun s => Text.lower s.name == key) table

/-- Functions of the usual system and runtime libraries. -/
def usual : SignatureTable := [
  ⟨"CreateFileA", .fileAccess, "Creates or opens a file or I/O device",
    ["LPCSTR", "DWORD", "DWORD", "LPSECURITY_ATTRIBUTES", "DWORD", "DWORD", "HANDLE"], "HANDLE"⟩,
  ⟨"ReadFile", .fileAccess, "Reads data from the specified file or input/output device",
    ["HANDLE", "LPVOID", "DWORD", "LPDWORD", "LPOVERLAPPED"], "BOOL"⟩,
  ⟨"WriteFile", .fileAccess, "Writes data to the specified file or input/output device",
    ["HANDLE", "LPCVOID", "DWORD", "LPDWORD", "LPOVERLAPPED"], "BOOL"⟩,
  ⟨"VirtualAlloc", .memory,
    "Reserves, commits, or changes the state of pages in the virtual address space",
    ["LPVOID", "SIZE_T", "DWORD", "DWORD"], "LPVOID"⟩,
  ⟨"VirtualFree", .memory, "Releases or decommits pages within the virtual address space",
    ["LPVOID", "SIZE_T", "DWORD"], "BOOL"⟩,
  ⟨"CreateProcessA", .process, "Creates a new process and its primary thread",
    ["LPCSTR", "LPSTR", "LPSECURITY_ATTRIBUTES", "LPSECURITY_ATTRIBUTES", "BOOL", "DWORD",
      "LPVOID", "LPCSTR", "LPSTARTUPINFOA", "LPPROCESS_INFORMATION"], "BOOL"⟩,
  ⟨"RegOpenKeyExA", .registry, "Opens the specified registry key",
    ["HKEY", "LPCSTR", "DWORD", "REGSAM", "PHKEY"], "LSTATUS"⟩,
  ⟨"WSAStartup", .network, "Initiates use of the Winsock DLL", ["WORD", "LPWSADATA"], "int"⟩,
  ⟨"socket", .network, "Creates a socket", ["int", "int", "int"], "SOCKET"⟩,
  ⟨"MessageBoxA", .userInterface, "Displays a modal dialog box",
    ["HWND", "LPCSTR", "LPCSTR", "UINT"], "int"⟩,
  ⟨"CreateWindowExA", .userInterface, "Creates an overlapped, pop-up, or child window",
    ["DWORD", "LPCSTR", "LPCSTR", "DWORD", "int", "int", "int", "int", "HWND", "HMENU",
      "HINSTANCE", "LPVOID"], "HWND"⟩,
  ⟨"malloc", .memory, "Allocates memory", ["size_t"], "void*"⟩,
  ⟨"free", .memory, "Deallocates memory", ["void*"], "void"⟩,
  ⟨"printf", .inputOutput, "Prints formatted output", ["const char*", "..."], "int"⟩,
  ⟨"fopen", .fileAccess, "Opens a file", ["const char*", "const char*"], "FILE*"⟩,
  ⟨"open", .fileAccess, "Opens a file", ["const char*", "int", "..."], "int"⟩,
  ⟨"read", .fileAccess, "Reads from a file descriptor", ["int", "void*", "size_t"], "ssize_t"⟩,
  ⟨"write", .fileAccess, "Writes to a file descriptor", ["int", "const void*", "size_t"],
    "ssize_t"⟩]

end SignatureTable

end Dissect
