import PressPath.Draft
import PressPath.Identifier
import PressPath.Sequencer

/-! Jobs. Documents in order become one robot module with a procedure for each.
Every document is tried, and if any is faulty then all faults are reported and
there is no module. -/
namespace PressPath
open Grammar Text

structure Document where
  name : String
  source : String
deriving Repr, DecidableEq

/-- Where the module's name comes from: it is given, or it is the argument of the first
command of the first document whose keyword is the marker. -/
inductive Naming where
  | given (name : String)
  | fromSource (marker : String)
deriving Repr, DecidableEq

namespace Naming

def defaultMarker : String := "PARTNO"

def default : Naming := .fromSource defaultMarker

end Naming

structure Job where
  naming : Naming := .default
  motion : Motion := {}

namespace Document

/-- The commands on the bare lines of the document; refused lines are passed over. -/
def bareCommands (budget : Budget) (d : Document) : List Command :=
  (bareLines d.source.toList).filterMap fun line =>
    match Command.parseLine budget (String.ofList line) with
    | .ok command => command
    | .error _ => none

def markerArgument? (budget : Budget) (marker : String) (d : Document) : Option String :=
  ((d.bareCommands budget).find? fun command => command.keyword == marker).bind Command.argument

/-- The procedure of the document at a position, counted from zero. The position is part of
the name, so no two procedures of a module share one. -/
def procName (index : Nat) (d : Document) : String :=
  Identifier.sanitize (Identifier.stripExtension d.name) ++ "_" ++ Nat.repr (index + 1)

def translate (budget : Budget) (index : Nat) (d : Document) :
    Except Fault (List Statement) × List Event :=
  match Listing.parse budget d.name d.source with
  | .error e => (.error ⟨d.name, e.line, .syntaxError e.message⟩, [])
  | .ok listing =>
    match Sequencer.follow {} listing.entries with
    | (s, some (line, found)) => (.error ⟨d.name, line, .malformedMove found⟩, s.journal.toList)
    | (s, none) =>
      let s := s.close
      let name := d.procName index
      let body := s.statements.toList
      (.ok (.procHeader name :: body ++ [.procFooter]),
        s.journal.toList ++ [.documentTranslated d.name name body.length])

end Document

namespace Job

/-- The name as it was chosen, and the document to blame if it cannot be used. -/
def rawName (budget : Budget) (job : Job) (documents : List Document) : Option String × String :=
  match job.naming, documents with
  | .given name, _ => (some name, "")
  | .fromSource marker, first :: _ => (first.markerArgument? budget marker, first.name)
  | .fromSource _, [] => (none, "")

def moduleName (budget : Budget) (job : Job) (documents : List Document) : Except Fault String :=
  let (raw, document) := job.rawName budget documents
  match raw.map Identifier.sanitize with
  | some name =>
    if Identifier.isValid name then .ok name else .error ⟨document, 0, .missingModuleName⟩
  | none => .error ⟨document, 0, .missingModuleName⟩

structure Progress where
  draft : Draft
  faults : Array Fault := #[]
  journal : Array Event := #[]

def Progress.add (budget : Budget) (motion : Motion) (p : Progress) (entry : Document × Nat) :
    Progress :=
  match entry.1.translate budget entry.2 with
  | (.ok statements, events) =>
    { p with draft := p.draft.extend motion statements, journal := p.journal ++ events.toArray }
  | (.error fault, events) =>
    { p with
      faults := p.faults.push fault
      journal := (p.journal ++ events.toArray).push (.documentFailed fault) }

def Progress.result (motion : Motion) (p : Progress) : Except (List Fault) RobotModule :=
  if p.faults.isEmpty then .ok (p.draft.finish motion) else .error p.faults.toList

def translate (budget : Budget) (job : Job) (documents : List Document) :
    Except (List Fault) RobotModule × List Event :=
  match job.moduleName budget documents with
  | .error fault => (.error [fault], [])
  | .ok name =>
    let start : Progress := { draft := { name := name }, journal := #[.moduleNamed name] }
    let last := documents.zipIdx.foldl (Progress.add budget job.motion) start
    (last.result job.motion, last.journal.toList)

end Job
end PressPath
