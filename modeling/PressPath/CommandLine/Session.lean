import PressPath.CommandLine.Arguments
import PressPath.FileSystem
import PressPath.Job

/-! A run of the program. The files are read in order, the first that cannot be
read ends the run; then the documents are translated, and the module is printed
or stored. Nothing is printed or stored when the run fails. -/
namespace PressPath.CommandLine

structure Outcome where
  exitCode : Nat
  stdout : String
  stderr : String
deriving Repr, DecidableEq

def versionText : String := "gcode2rapid 0.1.0\n"

def helpText : String :=
  String.join (List.map (· ++ "\n")
    ["Translate G-code files into one RAPID module",
      "",
      "Usage: gcode2rapid [OPTIONS] <FILES>...",
      "",
      "Arguments:",
      "  <FILES>...  Input files; each becomes one procedure, in the given order",
      "",
      "Options:",
      "  -m, --module <MODULE>  Module name; if missing, it is taken from the first file's " ++
        "marker command",
      "      --marker <MARKER>  Marker command holding the module name [default: " ++
        Naming.defaultMarker ++ "]",
      "      --sort             Order the files by name before translating",
      "  -o, --output <OUTPUT>  Directory to write `<module>.mod` into; prints to stdout if " ++
        "missing",
      "      --speed <SPEED>    Speed data for all moves",
      "      --zone <ZONE>      Zone data for all moves",
      "      --tool <TOOL>      Tool data for all moves",
      "      --force <FORCE>    Pressing force",
      "  -v, --verbose...       More log output (repeat for more)",
      "  -h, --help             Print help",
      "  -V, --version          Print version"])

/-- Paths are ordered by the names they end in, and those that end in none come first. -/
def namesInOrder : Option String → Option String → Bool
  | none, _ => true
  | some _, none => false
  | some a, some b => decide (a ≤ b)

/-- Sort by name alone. Paths with the same name keep their order. -/
def sortByName (paths : List String) : List String :=
  paths.mergeSort fun a b => namesInOrder (lastName? a) (lastName? b)

def documentName (path : String) : String :=
  (lastName? path).getD path

def accessReport (action path : String) (fault : FileFault) : String :=
  action ++ " " ++ path ++ "\n\nCaused by:\n    " ++ fault.message

structure ReadFailure where
  path : String
  fault : FileFault
deriving Repr, DecidableEq

def decodeText (content : ByteArray) : Except FileFault String :=
  match String.fromUTF8? content with
  | some text => .ok text
  | none => .error .notText

def gather (read : String → Except FileFault ByteArray) :
    List String → Except ReadFailure (List Document)
  | [] => .ok []
  | path :: rest =>
    match read path >>= decodeText with
    | .error fault => .error ⟨path, fault⟩
    | .ok source =>
      match gather read rest with
      | .error failure => .error failure
      | .ok documents => .ok (⟨documentName path, source⟩ :: documents)

namespace Invocation

def order (inv : Invocation) : List String :=
  if inv.sorts then sortByName inv.files else inv.files

def naming (inv : Invocation) : Naming :=
  match inv.moduleName with
  | some name => .given name
  | none => .fromSource (inv.marker.getD Naming.defaultMarker)

def motion (inv : Invocation) : Motion :=
  let usual : Motion := {}
  { usual with
    speed := inv.speed.getD usual.speed
    zone := inv.zone.getD usual.zone
    tool := inv.tool.getD usual.tool
    force := inv.force.getD usual.force }

def job (inv : Invocation) : Job := { naming := inv.naming, motion := inv.motion }

def success (inv : Invocation) (events : List Event) (stdout : String) : Outcome :=
  ⟨0, stdout, Event.report inv.verbosity events⟩

def failure (inv : Invocation) (events : List Event) (message : String) : Outcome :=
  ⟨1, "", Event.report inv.verbosity events ++ "Error: " ++ message ++ "\n"⟩

end Invocation

/-- What is left to do after the files have been read: nothing but to report, or to store a
text and report how that went. -/
inductive Plan where
  | report (outcome : Outcome)
  | store (path text : String) (stored : Outcome) (refused : FileFault → Outcome)

def storePath (directory fileName : String) : String :=
  if directory.toList.getLast? = some '/' then directory ++ fileName
  else directory ++ "/" ++ fileName

namespace Invocation
open Grammar

def plan (inv : Invocation) (documents : Except ReadFailure (List Document)) : Plan :=
  match documents with
  | .error e => .report (inv.failure [] (accessReport "Reading" e.path e.fault))
  | .ok documents =>
    match inv.job.translate .unlimited documents, inv.output with
    | (.error faults, events), _ => .report (inv.failure events (Fault.report faults))
    | (.ok result, events), none => .report (inv.success events result.text)
    | (.ok result, events), some directory =>
      let path := storePath directory result.fileName
      .store path result.text (inv.success (events ++ [.moduleWritten path]) "")
        fun fault => inv.failure events (accessReport "Writing" path fault)

def run (inv : Invocation) (fs : FileSystem) : Outcome × FileSystem :=
  match inv.plan (gather fs.read inv.order) with
  | .report outcome => (outcome, fs)
  | .store path text stored refused =>
    match fs.write path text.toUTF8 with
    | .ok after => (stored, after)
    | .error fault => (refused fault, fs)

end Invocation

def Request.perform (fs : FileSystem) : Request → Outcome × FileSystem
  | help => (⟨0, helpText, ""⟩, fs)
  | version => (⟨0, versionText, ""⟩, fs)
  | run invocation => invocation.run fs

end PressPath.CommandLine
