import PressPath.Sequencer

/-! What one command does. Its role is read from the command alone, and feeding
it depends on the command through the role only. The equations below say all
that a step of the sequencer can change. -/
namespace PressPath

inductive Role where
  | rapid
  | move (pose : Pose)
  | malformed (found : Nat)
  | aside
deriving Repr, DecidableEq

namespace Role

/-- Whether the role has a say in how the next move is made. -/
def steers : Role → Bool
  | rapid | move _ => true
  | malformed _ | aside => false

def target? : Role → Option Pose
  | move pose => some pose
  | _ => none

end Role

namespace Command

def role (c : Command) : Role :=
  if c.keyword = "RAPID" then .rapid
  else if c.keyword = "GOTO" then
    match Pose.ofArgument (c.argument.getD "") with
    | .ok pose => .move pose
    | .error found => .malformed found
  else .aside

theorem ofArgument_of_role {c : Command} {pose : Pose} (h : c.role = .move pose) :
    Pose.ofArgument (c.argument.getD "") = .ok pose := by
  unfold role at h
  split at h
  · contradiction
  · split at h
    · split at h
      · next accepted haccepted =>
        cases Role.move.inj h
        exact haccepted
      · contradiction
    · contradiction

def note (c : Command) : Statement :=
  if c.keyword = "FEDRAT" then .directive c.keyword c.argument
  else .remark c.keyword c.argument

end Command

namespace Sequencer

theorem feed_eq (s : Sequencer) (c : Command) :
    s.feed c = match c.role with
      | .rapid => ({ s with mode := .joint }.close, none)
      | .move pose => (s.moveTo pose, none)
      | .malformed found => (s, some found)
      | .aside => (s.passThrough c.keyword c.note, none) := by
  unfold feed Command.role Command.note Word.ofKeyword?
  by_cases hrapid : c.keyword = "RAPID"
  · simp [hrapid]
  · by_cases hgoto : c.keyword = "GOTO"
    · simp only [hgoto, ↓reduceIte, String.reduceEq]
      cases Pose.ofArgument (c.argument.getD "") <;> rfl
    · by_cases hfedrat : c.keyword = "FEDRAT"
      · simp [hfedrat]
      · simp [hrapid, hgoto, hfedrat]

theorem feed_rapid {c : Command} (s : Sequencer) (h : c.role = .rapid) :
    s.feed c = ({ s with mode := .joint }.close, none) := by
  rw [feed_eq, h]

theorem feed_move {c : Command} {pose : Pose} (s : Sequencer) (h : c.role = .move pose) :
    s.feed c = (s.moveTo pose, none) := by
  rw [feed_eq, h]

theorem feed_malformed {c : Command} {found : Nat} (s : Sequencer)
    (h : c.role = .malformed found) : s.feed c = (s, some found) := by
  rw [feed_eq, h]

theorem feed_aside {c : Command} (s : Sequencer) (h : c.role = .aside) :
    s.feed c = (s.passThrough c.keyword c.note, none) := by
  rw [feed_eq, h]

theorem feedAll_concat (s : Sequencer) (cs : List Command) (c : Command) :
    s.feedAll (cs ++ [c]) = ((s.feedAll cs).feed c).1 := by
  simp [feedAll]

theorem close_of_closed (s : Sequencer) (hopen : s.isOpen = false) : s.close = s := by
  simp [close, hopen]

theorem close_of_open (s : Sequencer) {pose : Pose} (hopen : s.isOpen = true)
    (hlast : s.lastPose = some pose) :
    s.close = { s with
      isOpen := false
      pending := #[]
      statements := s.statements.push (.pressEnd pose)
      journal := s.journal.push (.blockClosed s.pending.size) } := by
  simp [close, hopen, hlast, record, emit]

@[simp] theorem close_mode (s : Sequencer) : s.close.mode = s.mode := by
  unfold close
  split
  · cases s.lastPose <;> rfl
  · rfl

@[simp] theorem close_isOpen (s : Sequencer) : s.close.isOpen = false := by
  unfold close
  split
  · rfl
  · next hopen => simpa using hopen

theorem moveTo_of_joint (s : Sequencer) (pose : Pose) (hmode : s.mode = .joint) :
    s.moveTo pose = { s with
      mode := .linear
      lastPose := some pose
      statements := s.statements.push (.jointMove pose) } := by
  simp [moveTo, hmode, emit]

theorem moveTo_of_open (s : Sequencer) (pose : Pose) (hmode : s.mode = .linear)
    (hopen : s.isOpen = true) :
    s.moveTo pose = { s with
      pending := s.pending.push (.pressMove pose)
      lastPose := some pose
      statements := s.statements.push (.pressMove pose) } := by
  simp [moveTo, hmode, openAt, hopen, pressTo, emit]

theorem moveTo_of_closed (s : Sequencer) (pose : Pose) (hmode : s.mode = .linear)
    (hopen : s.isOpen = false) :
    s.moveTo pose = { s with
      isOpen := true
      pending := s.pending.push (.pressMove pose)
      lastPose := some pose
      statements := (s.statements.push (.pressStart pose)).push (.pressMove pose)
      journal := s.journal.push (.blockOpened pose) } := by
  simp [moveTo, hmode, openAt, hopen, pressTo, record, emit]

theorem passThrough_of_open (s : Sequencer) (keyword : String) (statement : Statement)
    (hopen : s.isOpen = true) :
    s.passThrough keyword statement =
      { s with journal := s.journal.push (.commandDropped keyword) } := by
  simp [passThrough, hopen, record]

theorem passThrough_of_closed (s : Sequencer) (keyword : String) (statement : Statement)
    (hopen : s.isOpen = false) :
    s.passThrough keyword statement = { s with statements := s.statements.push statement } := by
  simp [passThrough, hopen, emit]

end Sequencer
end PressPath
