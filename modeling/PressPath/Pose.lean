import PressPath.Text.Blank

/-! Target poses: a position and an orientation. Their fields stay as they are
written and are never read as numbers. -/
namespace PressPath
open Text

structure Pose where
  x : String
  y : String
  z : String
  q1 : String
  q2 : String
  q3 : String
deriving Repr, DecidableEq

namespace Pose

def arity : Nat := 6

def fields (p : Pose) : List String := [p.x, p.y, p.z, p.q1, p.q2, p.q3]

def render (p : Pose) : String :=
  "p[" ++ ", ".intercalate p.fields ++ "]"

def pieces (argument : String) : List String :=
  (argument.toList.splitOn ',').map fun piece => String.ofList (trimChars piece)

def found (argument : String) : Nat :=
  (pieces argument).countP fun piece => !piece.isEmpty

/-- Read a move's argument. There must be exactly six pieces and none may be empty;
otherwise the answer is the number of pieces that hold something. -/
def ofArgument (argument : String) : Except Nat Pose :=
  match pieces argument with
  | [x, y, z, q1, q2, q3] =>
    if found argument = arity then .ok ⟨x, y, z, q1, q2, q3⟩ else .error (found argument)
  | _ => .error (found argument)

end Pose
end PressPath
