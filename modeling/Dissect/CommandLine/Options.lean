import Dissect.Text.Part

/-!
Options on the command line.

Arguments are read from left to right. An option that takes a value waits for it, and is settled
when the next argument has to be dealt with; so a request for help is granted only if all that
stands before it is in order.
-/

namespace Dissect.CommandLine

/-- A place for a value. -/
inductive Slot
  | path
  | config
  | output
  deriving DecidableEq, Repr

inductive Flag
  | noDependencies
  | verbose
  | quiet
  deriving DecidableEq, Repr

/-- Why the reading of the arguments ends early. -/
inductive Stop
  | help
  | version
  | usage
  deriving DecidableEq, Repr

structure Options where
  /-- The file or directory to analyse. -/
  path : String
  config : Option String := none
  output : Option String := none
  noDependencies : Bool := false
  quiet : Bool := false
  deriving DecidableEq, Repr

/-- What an option stands for. -/
inductive Meaning
  | value (slot : Slot)
  | flag (flag : Flag)
  | stop (stop : Stop)
  deriving DecidableEq, Repr

/-- State of the reading. -/
structure St where
  values : List (Slot × String) := []
  flags : List Flag := []
  /-- A place that waits for its value, or that has one which is not settled yet. -/
  pending : Option (Slot × Option String) := none
  /-- All that follows are values. -/
  valuesOnly : Bool := false
  deriving DecidableEq, Repr

def long? : String → Option Meaning
  | "config" => some (.value .config)
  | "output" => some (.value .output)
  | "no-deps" => some (.flag .noDependencies)
  | "verbose" => some (.flag .verbose)
  | "quiet" => some (.flag .quiet)
  | "help" => some (.stop .help)
  | "version" => some (.stop .version)
  | _ => none

def short? : Char → Option Meaning
  | 'c' => some (.value .config)
  | 'o' => some (.value .output)
  | 'v' => some (.flag .verbose)
  | 'q' => some (.flag .quiet)
  | 'h' => some (.stop .help)
  | 'V' => some (.stop .version)
  | _ => none

/-- Gives a place its value, which must not be empty and must be the only one. -/
def St.setValue (s : St) (slot : Slot) (value : String) : Except Stop St :=
  if value.isEmpty || s.values.any (·.1 == slot) then .error .usage
  else .ok { s with values := s.values ++ [(slot, value)] }

/-- Settles what is pending. -/
def St.settle (s : St) : Except Stop St :=
  match s.pending with
  | none => .ok s
  | some (_, none) => .error .usage
  | some (slot, some value) => St.setValue { s with pending := none } slot value

/-- An option that has a value attached to it. -/
def St.attach (s : St) (slot : Slot) (value : String) : Except Stop St := do
  (← s.settle).setValue slot value

/-- An option that waits for its value. -/
def St.await (s : St) (slot : Slot) : Except Stop St := do
  return { ← s.settle with pending := some (slot, none) }

/-- A flag, which may be given once. -/
def St.setFlag (s : St) (flag : Flag) : Except Stop St := do
  let s ← s.settle
  if s.flags.contains flag then throw .usage
  return { s with flags := s.flags ++ [flag] }

/-- An option that ends the reading. -/
def St.stop (s : St) (stop : Stop) : Except Stop St := do
  let _ ← s.settle
  throw stop

/-- An option with its full name, and with a value if one is attached by an equals sign. -/
def St.long (s : St) (name : String) (value : Option String) : Except Stop St :=
  match long? name, value with
  | some (.value slot), some v => s.attach slot v
  | some (.value slot), none => s.await slot
  | some (.flag flag), none => s.setFlag flag
  | some (.stop stop), none => s.stop stop
  | _, _ => .error .usage

/-- Options of one letter each. The rest of the letters after one that takes a value is its
value. -/
def St.short (s : St) : List Char → Except Stop St
  | [] => .ok s
  | c :: rest =>
    match short? c with
    | some (.value slot) =>
      match rest with
      | [] => s.await slot
      | '=' :: value => s.attach slot (String.ofList value)
      | value => s.attach slot (String.ofList value)
    | some (.flag flag) => do (← s.setFlag flag).short rest
    | some (.stop stop) => s.stop stop
    | none => .error .usage

/-- A value that no option waits for. There is place for one. -/
def St.positional (s : St) (value : String) : Except Stop St := do
  let s ← s.settle
  if s.values.any (·.1 == .path) then throw .usage
  return { s with pending := some (.path, some value) }

/-- A value for what waits for one, or for the place without option. -/
def St.value (s : St) (value : String) : Except Stop St :=
  match s.pending with
  | some (slot, none) => .ok { s with pending := some (slot, some value) }
  | _ => s.positional value

/-- Cuts a text at its first equals sign. -/
def cutAtEquals (cs : List Char) : String × Option String :=
  let name := String.ofList (cs.takeWhile (· != '='))
  match cs.dropWhile (· != '=') with
  | _ :: value => (name, some (String.ofList value))
  | [] => (name, none)

/-- Reads one argument. -/
def St.argument (s : St) (arg : String) : Except Stop St :=
  if s.valuesOnly then s.positional arg
  else
    match arg.toList with
    | ['-', '-'] => .ok { s with valuesOnly := true }
    | '-' :: '-' :: rest =>
      let (name, value) := cutAtEquals rest
      s.long name value
    | ['-'] => s.value arg
    | '-' :: letters => s.short letters
    | _ => s.value arg

/-- The value of a place. -/
def St.get? (s : St) (slot : Slot) : Option String := List.lookup slot s.values

/-- Reads all arguments. -/
def parse (args : List String) : Except Stop Options := do
  let s ← args.foldlM St.argument {}
  let s ← s.settle
  let verbose := s.flags.contains .verbose
  let quiet := s.flags.contains .quiet
  match s.get? .path with
  | none => throw .usage
  | some path =>
    if verbose && quiet then throw .usage
    return {
      path
      config := s.get? .config
      output := s.get? .output
      noDependencies := s.flags.contains .noDependencies
      quiet }

end Dissect.CommandLine
