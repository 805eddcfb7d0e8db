import PressPath.CommandLine.Session

/-! The program itself: files are read before and written after everything else
is decided. -/
namespace PressPath.CommandLine

/-- The system's number of an error, which some operations give with its sign changed. -/
def errorNumber (code : UInt32) : Nat := min code.toNat (Nat.pow 2 32 - code.toNat)

def faultOfError : IO.Error → FileFault
  | .noFileOrDirectory _ _ _ => .notFound
  | .inappropriateType _ code details =>
    match errorNumber code with
    | 20 => .notDirectory
    | 21 => .isDirectory
    | _ => .other details
  | e => .other (toString e)

def readFromDisk (path : String) : IO (Except FileFault ByteArray) := do
  try
    return .ok (← IO.FS.readBinFile path)
  catch e =>
    return .error (faultOfError e)

def writeToDisk (path text : String) : IO (Except FileFault Unit) := do
  try
    IO.FS.writeFile path text
    return .ok ()
  catch e =>
    return .error (faultOfError e)

def Outcome.show (outcome : Outcome) : IO UInt32 := do
  (← IO.getStderr).putStr outcome.stderr
  (← IO.getStdout).putStr outcome.stdout
  return UInt32.ofNat outcome.exitCode

def Invocation.runOnDisk (inv : Invocation) : IO UInt32 := do
  let contents ← inv.order.mapM fun path => do return (path, ← readFromDisk path)
  match inv.plan (gather (fun path => (contents.lookup path).getD (.error .notFound)) inv.order) with
  | .report outcome => outcome.show
  | .store path text stored refused =>
    match ← writeToDisk path text with
    | .ok _ => stored.show
    | .error fault => (refused fault).show

end PressPath.CommandLine

open PressPath.CommandLine in
def main (arguments : List String) : IO UInt32 := do
  match readArguments arguments with
  | .error reason =>
    (← IO.getStderr).putStrLn ("error: " ++ reason.message)
    return 2
  | .ok .help => Outcome.show ⟨0, helpText, ""⟩
  | .ok .version => Outcome.show ⟨0, versionText, ""⟩
  | .ok (.run invocation) => invocation.runOnDisk
