import PressPath.Decimal.Reader

/-! Command line arguments. They are read from left to right, and the first thing
wrong ends the reading, as does a request for help or for the version. What is
neither an option nor its value is a file; after a double dash everything is a file. -/
namespace PressPath.CommandLine

/-- The options that take a value. Each may be given once. -/
inductive ValueOption where
  | moduleName
  | marker
  | output
  | speed
  | zone
  | tool
  | force
deriving Repr, DecidableEq

inductive Switch where
  | sort
  | verbose
  | help
  | version
deriving Repr, DecidableEq

inductive Meaning where
  | takes (option : ValueOption)
  | flips (switch : Switch)
deriving Repr, DecidableEq

def longName? (name : String) : Option Meaning :=
  match name with
  | "module" => some (.takes .moduleName)
  | "marker" => some (.takes .marker)
  | "output" => some (.takes .output)
  | "speed" => some (.takes .speed)
  | "zone" => some (.takes .zone)
  | "tool" => some (.takes .tool)
  | "force" => some (.takes .force)
  | "sort" => some (.flips .sort)
  | "verbose" => some (.flips .verbose)
  | "help" => some (.flips .help)
  | "version" => some (.flips .version)
  | _ => none

def shortName? (c : Char) : Option Meaning :=
  match c with
  | 'm' => some (.takes .moduleName)
  | 'o' => some (.takes .output)
  | 'v' => some (.flips .verbose)
  | 'h' => some (.flips .help)
  | 'V' => some (.flips .version)
  | _ => none

inductive Rejection where
  | unknownOption (name : String)
  | missingValue (option : ValueOption)
  | unusedValue (switch : Switch)
  | repeatedOption (option : ValueOption)
  | repeatedSwitch (switch : Switch)
  | emptyPath
  | notNumber (text : String)
  | noFiles
deriving Repr, DecidableEq

def ValueOption.name : ValueOption → String
  | moduleName => "--module"
  | marker => "--marker"
  | output => "--output"
  | speed => "--speed"
  | zone => "--zone"
  | tool => "--tool"
  | force => "--force"

def Switch.name : Switch → String
  | sort => "--sort"
  | verbose => "--verbose"
  | help => "--help"
  | version => "--version"

def Rejection.message : Rejection → String
  | unknownOption name => "unexpected argument " ++ name
  | missingValue option => option.name ++ " needs a value"
  | unusedValue switch => switch.name ++ " takes no value"
  | repeatedOption option => option.name ++ " is given more than once"
  | repeatedSwitch switch => switch.name ++ " is given more than once"
  | emptyPath => "a path is empty"
  | notNumber text => "not a number: " ++ text
  | noFiles => "no files are given"

structure Invocation where
  files : List String := []
  moduleName : Option String := none
  marker : Option String := none
  output : Option String := none
  speed : Option String := none
  zone : Option String := none
  tool : Option String := none
  force : Option Float := none
  sorts : Bool := false
  verbosity : Nat := 0

inductive Request where
  | help
  | version
  | run (invocation : Invocation)

inductive Stop where
  | help
  | version
  | rejected (reason : Rejection)
deriving Repr, DecidableEq

/-- The option that still waits for its value, if there is one, and whether all further
arguments are files. -/
structure Reading where
  invocation : Invocation := {}
  awaiting : Option ValueOption := none
  onlyFiles : Bool := false

def setOnce {α : Type} (option : ValueOption) (old : Option α) (value : α) :
    Except Stop (Option α) :=
  if old.isSome then .error (.rejected (.repeatedOption option)) else .ok (some value)

def nonemptyPath (path : String) : Except Stop String :=
  if path.isEmpty then .error (.rejected .emptyPath) else .ok path

def number (text : String) : Except Stop Float :=
  match Decimal.read? text with
  | some value => .ok value
  | none => .error (.rejected (.notNumber text))

namespace Invocation

def addFile (inv : Invocation) (path : String) : Except Stop Invocation := do
  return { inv with files := inv.files ++ [← nonemptyPath path] }

def set (inv : Invocation) (option : ValueOption) (text : String) : Except Stop Invocation := do
  match option with
  | .moduleName => return { inv with moduleName := ← setOnce option inv.moduleName text }
  | .marker => return { inv with marker := ← setOnce option inv.marker text }
  | .output => return { inv with output := ← setOnce option inv.output (← nonemptyPath text) }
  | .speed => return { inv with speed := ← setOnce option inv.speed text }
  | .zone => return { inv with zone := ← setOnce option inv.zone text }
  | .tool => return { inv with tool := ← setOnce option inv.tool text }
  | .force => return { inv with force := ← setOnce option inv.force (← number text) }

def flip (inv : Invocation) : Switch → Except Stop Invocation
  | .sort =>
    if inv.sorts then .error (.rejected (.repeatedSwitch .sort))
    else .ok { inv with sorts := true }
  | .verbose => .ok { inv with verbosity := inv.verbosity + 1 }
  | .help => .error .help
  | .version => .error .version

end Invocation

namespace Reading

def addFile (r : Reading) (path : String) : Except Stop Reading := do
  return { r with invocation := ← r.invocation.addFile path }

def set (r : Reading) (option : ValueOption) (text : String) : Except Stop Reading := do
  return { r with invocation := ← r.invocation.set option text, awaiting := none }

def flip (r : Reading) (switch : Switch) : Except Stop Reading := do
  return { r with invocation := ← r.invocation.flip switch }

def long (r : Reading) (text : List Char) : Except Stop Reading :=
  let name := text.takeWhile (· != '=')
  match longName? (String.ofList name), text.dropWhile (· != '=') with
  | some (.takes option), _ :: value => r.set option (String.ofList value)
  | some (.takes option), [] => .ok { r with awaiting := some option }
  | some (.flips switch), [] => r.flip switch
  | some (.flips switch), _ :: _ => .error (.rejected (.unusedValue switch))
  | none, _ => .error (.rejected (.unknownOption (String.ofList ('-' :: '-' :: name))))

/-- Short options in one argument. The first one that takes a value takes all that follows
it, without one equals sign at the front. -/
def short (r : Reading) : List Char → Except Stop Reading
  | [] => .ok r
  | c :: cs =>
    match shortName? c with
    | none => .error (.rejected (.unknownOption (String.ofList ['-', c])))
    | some (.flips switch) =>
      match r.flip switch with
      | .error stop => .error stop
      | .ok next => next.short cs
    | some (.takes option) =>
      match cs with
      | [] => .ok { r with awaiting := some option }
      | '=' :: value => r.set option (String.ofList value)
      | value => r.set option (String.ofList value)

/-- A value of its own may be a single dash but does not start with one otherwise. -/
def isValue (text : List Char) : Bool :=
  text == ['-'] || text.head? != some '-'

def step (r : Reading) (argument : String) : Except Stop Reading :=
  match r.awaiting with
  | some option =>
    if isValue argument.toList then r.set option argument
    else .error (.rejected (.missingValue option))
  | none =>
    if r.onlyFiles then r.addFile argument
    else match argument.toList with
      | ['-', '-'] => .ok { r with onlyFiles := true }
      | '-' :: '-' :: text => r.long text
      | '-' :: c :: cs => r.short (c :: cs)
      | _ => r.addFile argument

def finish (r : Reading) : Except Stop Invocation :=
  match r.awaiting with
  | some option => .error (.rejected (.missingValue option))
  | none => if r.invocation.files.isEmpty then .error (.rejected .noFiles) else .ok r.invocation

end Reading

def readArguments (arguments : List String) : Except Rejection Request :=
  match arguments.foldlM Reading.step {} >>= Reading.finish with
  | .ok invocation => .ok (.run invocation)
  | .error .help => .ok .help
  | .error .version => .ok .version
  | .error (.rejected reason) => .error reason

end PressPath.CommandLine
