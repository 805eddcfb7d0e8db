/-! Lines of a text. A line feed ends a line and nothing else does. There are
two ways to look at them: with their ends, so that the pieces make up the text
again, and as bare lines, where the end is gone. -/
namespace PressPath.Text

def consLine (c : Char) (lines : List (List Char)) : List (List Char) :=
  if c = '\n' then [c] :: lines
  else match lines with
    | [] => [[c]]
    | line :: rest => (c :: line) :: rest

/-- Cut after every line feed. No line is empty, and a text that ends in a line
feed has no further line after it. -/
def linesWithEnds (cs : List Char) : List (List Char) :=
  cs.foldr consLine []

def isLineEnd (c : Char) : Bool :=
  c == '\n' || c == '\r'

def withoutEnd (line : List Char) : List Char :=
  (line.reverse.dropWhile isLineEnd).reverse

def withoutReturn (piece : List Char) : List Char :=
  match piece.reverse with
  | '\r' :: front => front.reverse
  | _ => piece

/-- Of the pieces between line feeds all but the last were ended by one, and lose
the carriage return that belongs to it. The last is a line only if it holds something. -/
def endedLines : List (List Char) → List (List Char)
  | [] => []
  | [last] => if last.isEmpty then [] else [last]
  | piece :: rest => withoutReturn piece :: endedLines rest

def bareLines (cs : List Char) : List (List Char) :=
  endedLines (cs.splitOn '\n')

end PressPath.Text
