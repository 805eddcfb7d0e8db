import PressPath.Decimal.Numeral
import PressPath.Statement

/-! Motion settings and the text of statements. Every statement is a line of its
own; the header of a module and the footer of a procedure are followed by an
empty line. Instructions are indented and remarks start in the first column. -/
namespace PressPath

structure Motion where
  speed : String := "v1000"
  zone : String := "z10"
  tool : String := "tool0"
  workObject : String := "force_sensor_object"
  forceDirection : Float × Float × Float := (0.0, 0.0, -10.0)
  force : Float := 10.0

namespace Motion

instance : Inhabited Motion := ⟨{}⟩

def renderDirection (m : Motion) : String :=
  "[" ++ Decimal.render m.forceDirection.1 ++ ", " ++ Decimal.render m.forceDirection.2.1 ++ ", " ++
    Decimal.render m.forceDirection.2.2 ++ "]"

def jointTail (m : Motion) : String :=
  ", " ++ m.speed ++ ", " ++ m.zone ++ ", " ++ m.tool ++ ";\n"

def pressTail (m : Motion) : String :=
  ", " ++ m.speed ++ ", " ++ m.zone ++ ", " ++ m.workObject ++ ", " ++ m.renderDirection ++ ", " ++
    Decimal.render m.force ++ ", " ++ m.tool ++ ";\n"

def renderPress (m : Motion) (instruction : String) (pose : Pose) : String :=
  "  " ++ instruction ++ " " ++ pose.render ++ m.pressTail

end Motion

namespace Statement

def renderDirective (keyword : String) : Option String → String
  | some value => "  " ++ keyword ++ ": " ++ value ++ "\n"
  | none => "  " ++ keyword ++ ":\n"

def renderRemark (keyword : String) : Option String → String
  | some value => "! " ++ keyword ++ ": " ++ value ++ "\n"
  | none => "! " ++ keyword ++ "\n"

def render (m : Motion) : Statement → String
  | moduleHeader name => "MODULE " ++ name ++ "\n\n"
  | procHeader name => "PROC Path_" ++ name ++ "()\n"
  | jointMove pose => "  MoveJ " ++ pose.render ++ m.jointTail
  | pressStart pose => m.renderPress "FCPressLStart" pose
  | pressMove pose => m.renderPress "FCPressL" pose
  | pressEnd pose => m.renderPress "FCPressEnd" pose
  | directive keyword value => renderDirective keyword value
  | remark keyword value => renderRemark keyword value
  | procFooter => "ENDPROC\n\n"
  | moduleFooter => "ENDMODULE\n"

end Statement
end PressPath
