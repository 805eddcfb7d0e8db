import PressPath.Pose

/-! Faults of a run. A fault names the document it was found in, by an empty name
if it concerns the whole run, and the line, by zero if there is none. -/
namespace PressPath

inductive Cause where
  | malformedMove (found : Nat)
  | missingModuleName
  | syntaxError (text : String)
deriving Repr, DecidableEq

def Cause.message : Cause → String
  | malformedMove found =>
    "move needs " ++ Nat.repr Pose.arity ++ " pose fields, found " ++ Nat.repr found
  | missingModuleName => "no usable module name given or found in the source"
  | syntaxError text => text

structure Fault where
  document : String
  line : Nat
  cause : Cause
deriving Repr, DecidableEq

namespace Fault

/-- Where the fault is. The line counts only within a named document. -/
def place (f : Fault) : String :=
  if f.document.isEmpty then "Error: "
  else if f.line = 0 then "Error in " ++ f.document ++ ": "
  else "Error in " ++ f.document ++ " line " ++ Nat.repr f.line ++ ": "

def message (f : Fault) : String := f.place ++ f.cause.message

def report (faults : List Fault) : String :=
  "\n".intercalate (faults.map message)

end Fault
end PressPath
