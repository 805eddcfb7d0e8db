import PressPath.Fault

/-! What a run tells about itself. Events are kept as values; their wording and
their importance are decided here and nowhere else. -/
namespace PressPath

inductive Level where
  | debug
  | info
  | warn
deriving Repr, DecidableEq

namespace Level

def name : Level → String
  | debug => "DEBUG"
  | info => "INFO"
  | warn => "WARN"

/-- How often more output has to be asked for before a level is shown. -/
def threshold : Level → Nat
  | debug => 2
  | info => 1
  | warn => 0

end Level

inductive Event where
  | moduleNamed (name : String)
  | blockOpened (pose : Pose)
  | commandDropped (keyword : String)
  | blockClosed (moves : Nat)
  | documentTranslated (document procedure : String) (statements : Nat)
  | documentFailed (fault : Fault)
  | moduleWritten (path : String)
deriving Repr, DecidableEq

namespace Event

def level : Event → Level
  | moduleNamed _ | blockOpened _ | commandDropped _ | blockClosed _ => .debug
  | documentTranslated _ _ _ | moduleWritten _ => .info
  | documentFailed _ => .warn

def message : Event → String
  | moduleNamed name => "module name is " ++ name
  | blockOpened pose => "opening press block at " ++ pose.render
  | commandDropped keyword => "dropping " ++ keyword ++ " inside press block"
  | blockClosed moves => "closing press block after " ++ Nat.repr moves ++ " moves"
  | documentTranslated document procedure statements =>
    "translated " ++ document ++ " into Path_" ++ procedure ++ " (" ++ Nat.repr statements ++
      " statements)"
  | documentFailed fault => fault.message
  | moduleWritten path => "wrote " ++ path

def origin : Event → String
  | blockOpened _ | commandDropped _ | blockClosed _ => "(1) gcode2rapid::convert::path: "
  | moduleNamed _ => "(1) gcode2rapid::convert: "
  | _ => ""

def line (e : Event) : String :=
  "[" ++ e.level.name ++ "] " ++ e.origin ++ e.message ++ "\n"

def report (verbosity : Nat) (events : List Event) : String :=
  String.join ((events.filter fun e => decide (e.level.threshold ≤ verbosity)).map line)

@[simp] theorem report_nil (verbosity : Nat) : report verbosity [] = "" := rfl

end Event
end PressPath
