import PressPath.Source.Command
import PressPath.Text.Lines

/-! Listings: the commands of a source document, each with the number of its
line. Blank lines and comments are gone but have been counted. -/
namespace PressPath
open Grammar Text

structure NumberedCommand where
  line : Nat
  command : Command
deriving Repr, DecidableEq

structure Listing where
  name : String
  entries : List NumberedCommand
deriving Repr, DecidableEq

/-- A text that the grammar refused: where it lies, in bytes and by line and column, and
the name of the document if it is part of one. -/
structure SyntaxError where
  message : String
  path : Option String
  extent : Extent Nat
  corners : Extent Position
deriving Repr, DecidableEq

namespace SyntaxError

def line (e : SyntaxError) : Nat := e.corners.start.line

def ofRefusal (refusal : Refusal) : SyntaxError where
  message := refusal.message
  path := none
  extent := .point 0
  corners := .point .first

def inDocument (name : String) (text : List Char) (start stop : Nat) (message : String) :
    SyntaxError where
  message := message
  path := some name
  extent := .span start stop
  corners := (Extent.span start stop).map (positionAt text)

end SyntaxError

/-- A line of a document without its end, its number, and the bytes before it. -/
structure SourceLine where
  number : Nat
  offset : Nat
  text : List Char
deriving Repr, DecidableEq

namespace SourceLine

def stop (l : SourceLine) : Nat := l.offset + byteLength l.text

def locate (number offset : Nat) : List (List Char) → List SourceLine
  | [] => []
  | line :: rest =>
    ⟨number, offset, withoutEnd line⟩ :: locate (number + 1) (offset + byteLength line) rest

def ofText (text : List Char) : List SourceLine :=
  locate 1 0 (linesWithEnds text)

def command? (budget : Budget) (name : String) (text : List Char) (l : SourceLine) :
    Except SyntaxError (Option NumberedCommand) :=
  match Command.parseLine budget (String.ofList l.text) with
  | .error refusal => .error (.inDocument name text l.offset l.stop refusal.message)
  | .ok none => .ok none
  | .ok (some command) => .ok (some ⟨l.number, command⟩)

end SourceLine

namespace Listing

def collect (budget : Budget) (name : String) (text : List Char) :
    List SourceLine → Except SyntaxError (List NumberedCommand)
  | [] => .ok []
  | l :: rest =>
    match l.command? budget name text with
    | .error e => .error e
    | .ok found =>
      match collect budget name text rest with
      | .error e => .error e
      | .ok others => .ok (found.toList ++ others)

def parse (budget : Budget) (name source : String) : Except SyntaxError Listing :=
  match collect budget name source.toList (SourceLine.ofText source.toList) with
  | .error e => .error e
  | .ok entries => .ok ⟨name, entries⟩

def commands (l : Listing) : List Command :=
  l.entries.map NumberedCommand.command

def render (l : Listing) : String :=
  String.join (l.commands.map fun command => command.render ++ "\n")

end Listing
end PressPath
