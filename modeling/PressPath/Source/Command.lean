import PressPath.Grammar.Rules
import PressPath.Text.Blank
import PressPath.Text.Location

/-! Commands of a source line. The keyword is everything before the first slash;
the argument is the rest, with further slashes turned into commas. Which keywords
mean something is not decided here. -/
namespace PressPath

structure Command where
  keyword : String
  argument : Option String
deriving Repr, DecidableEq

namespace Command
open Grammar Text

def render (c : Command) : String :=
  match c.argument with
  | some argument => c.keyword ++ "/" ++ argument
  | none => c.keyword

/-- An empty argument is no argument. -/
def ofParts (keyword : String) (segments : List String) : Command :=
  let argument := ",".intercalate segments
  ⟨keyword, if argument.isEmpty then none else some argument⟩

def tokenText (text : List Char) (token : Token Rule) : String :=
  String.ofList (slice token.start token.stop text)

/-- The command that the tokens of a line stand for. A comment stands for none, nor does
a line whose keyword is blank. -/
def ofTokens? (text : List Char) : List (Token Rule) → Option Command
  | ⟨.command, _, _⟩ :: head :: others =>
    let keyword := trim (tokenText text head)
    if keyword.isEmpty then none
    else some (ofParts keyword
      ((others.filter fun token => token.rule == .segment).map (tokenText text)))
  | _ => none

/-- Read one line. Line breaks within the text are ordinary characters, and a blank text
is not given to the grammar. -/
def parseLine (budget : Budget) (text : String) : Except Refusal (Option Command) :=
  let line := trimChars text.toList
  if line.isEmpty then .ok none
  else match recognize budget .line line with
    | .error refusal => .error refusal
    | .ok tokens => .ok (ofTokens? line tokens)

end Command
end PressPath
