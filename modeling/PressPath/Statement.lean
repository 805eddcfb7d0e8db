import PressPath.Pose

/-! Statements of a robot module. -/
namespace PressPath

inductive Statement where
  | moduleHeader (name : String)
  | procHeader (name : String)
  | jointMove (pose : Pose)
  | pressStart (pose : Pose)
  | pressMove (pose : Pose)
  | pressEnd (pose : Pose)
  | directive (keyword : String) (value : Option String)
  | remark (keyword : String) (value : Option String)
  | procFooter
  | moduleFooter
deriving Repr, DecidableEq

def Statement.isPress : Statement → Bool
  | pressStart _ | pressMove _ | pressEnd _ => true
  | _ => false

end PressPath
