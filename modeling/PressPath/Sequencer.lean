import PressPath.Journal
import PressPath.Source.Listing
import PressPath.Statement

/-! Sequencing the moves of one listing. Linear moves that follow one another make
a press block, which starts at the first pose and ends at the last. The word
RAPID closes the block and makes the next move, and only that one, a joint move.
Within an open block every other command is dropped. -/
namespace PressPath

/-- The words that mean something to the sequencer. They are matched exactly. -/
inductive Word where
  | rapid
  | goto
  | fedrat
deriving Repr, DecidableEq

namespace Word

def keyword : Word → String
  | rapid => "RAPID"
  | goto => "GOTO"
  | fedrat => "FEDRAT"

def ofKeyword? (keyword : String) : Option Word :=
  if keyword = "RAPID" then some rapid
  else if keyword = "GOTO" then some goto
  else if keyword = "FEDRAT" then some fedrat
  else none

theorem ofKeyword?_eq_some_iff {text : String} {word : Word} :
    ofKeyword? text = some word ↔ text = word.keyword := by
  constructor
  · intro h
    unfold ofKeyword? at h
    split at h
    · cases Option.some.inj h; assumption
    · split at h
      · cases Option.some.inj h; assumption
      · split at h
        · cases Option.some.inj h; assumption
        · contradiction
  · rintro rfl
    cases word <;> decide

end Word

inductive Mode where
  | joint
  | linear
deriving Repr, DecidableEq

/-- The state of sequencing: the moves of the open block are kept apart, and the last pose is
remembered because the command that closes a block has none. -/
structure Sequencer where
  mode : Mode := .linear
  isOpen : Bool := false
  pending : Array Statement := #[]
  lastPose : Option Pose := none
  statements : Array Statement := #[]
  journal : Array Event := #[]
deriving Repr, DecidableEq

namespace Sequencer

def emit (s : Sequencer) (statement : Statement) : Sequencer :=
  { s with statements := s.statements.push statement }

def record (s : Sequencer) (event : Event) : Sequencer :=
  { s with journal := s.journal.push event }

@[simp] theorem toList_statements_emit (s : Sequencer) (statement : Statement) :
    (s.emit statement).statements.toList = s.statements.toList ++ [statement] := by
  simp [emit]

@[simp] theorem toList_journal_record (s : Sequencer) (event : Event) :
    (s.record event).journal.toList = s.journal.toList ++ [event] := by
  simp [record]

def close (s : Sequencer) : Sequencer :=
  if s.isOpen then
    let ended := match s.lastPose with
      | some pose => (s.record (.blockClosed s.pending.size)).emit (.pressEnd pose)
      | none => s
    { ended with pending := #[], isOpen := false }
  else s

def openAt (s : Sequencer) (pose : Pose) : Sequencer :=
  if s.isOpen then s
  else { (s.record (.blockOpened pose)).emit (.pressStart pose) with isOpen := true }

def pressTo (s : Sequencer) (pose : Pose) : Sequencer :=
  let s := s.emit (.pressMove pose)
  { s with pending := s.pending.push (.pressMove pose) }

def moveTo (s : Sequencer) (pose : Pose) : Sequencer :=
  let s := { s with lastPose := some pose }
  match s.mode with
  | .joint => { s.emit (.jointMove pose) with mode := .linear }
  | .linear => (s.openAt pose).pressTo pose

def passThrough (s : Sequencer) (keyword : String) (statement : Statement) : Sequencer :=
  if s.isOpen then s.record (.commandDropped keyword) else s.emit statement

/-- Take one command. A move that cannot be read is rejected with the number of pose fields
found in it. -/
def feed (s : Sequencer) (c : Command) : Sequencer × Option Nat :=
  match Word.ofKeyword? c.keyword with
  | some .rapid => ({ s with mode := .joint }.close, none)
  | some .goto =>
    match Pose.ofArgument (c.argument.getD "") with
    | .ok pose => (s.moveTo pose, none)
    | .error found => (s, some found)
  | some .fedrat => (s.passThrough c.keyword (.directive c.keyword c.argument), none)
  | none => (s.passThrough c.keyword (.remark c.keyword c.argument), none)

def feedAll (s : Sequencer) (commands : List Command) : Sequencer :=
  commands.foldl (fun s c => (s.feed c).1) s

/-- Take the commands of a listing up to the first rejected one, and give its line and the
number of pose fields found in it. -/
def follow (s : Sequencer) : List NumberedCommand → Sequencer × Option (Nat × Nat)
  | [] => (s, none)
  | entry :: rest =>
    match s.feed entry.command with
    | (next, none) => next.follow rest
    | (next, some found) => (next, some (entry.line, found))

end Sequencer

def sequence (commands : List Command) : List Statement :=
  (Sequencer.feedAll {} commands).close.statements.toList

end PressPath
