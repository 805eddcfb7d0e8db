import PressPath.Motion

/-! The text of a robot module under way. The header comes once, before the first
statement, and always carries the module's own name; the footer ends the text. -/
namespace PressPath

structure RobotModule where
  name : String
  text : String
deriving Repr, DecidableEq

def RobotModule.fileName (m : RobotModule) : String := m.name ++ ".mod"

structure Draft where
  name : String
  text : String := ""
  hasHeader : Bool := false
deriving Repr, DecidableEq

namespace Draft

def withHeader (m : Motion) (d : Draft) : Draft :=
  if d.hasHeader then d
  else { d with text := d.text ++ Statement.render m (.moduleHeader d.name), hasHeader := true }

/-- A module header only makes sure that the draft has one, whatever name it carries. -/
def push (m : Motion) (d : Draft) (statement : Statement) : Draft :=
  let d := d.withHeader m
  match statement with
  | .moduleHeader _ => d
  | _ => { d with text := d.text ++ statement.render m }

def extend (m : Motion) (d : Draft) (statements : List Statement) : Draft :=
  statements.foldl (push m) d

def finish (m : Motion) (d : Draft) : RobotModule :=
  let d := d.withHeader m
  ⟨d.name, d.text ++ Statement.render m .moduleFooter⟩

theorem extend_append (m : Motion) (d : Draft) (first second : List Statement) :
    d.extend m (first ++ second) = (d.extend m first).extend m second := by
  simp [extend]

end Draft
end PressPath
