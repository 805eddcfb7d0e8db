import PressPath.Text.Blank

/-! Identifiers of the robot's language: ASCII letters, digits and underscores,
starting with a letter. Any text becomes one by replacing what does not fit,
apart from how it starts. -/
namespace PressPath.Identifier
open Text

def isPart (c : Char) : Bool :=
  c.isAlphanum || c == '_'

def fit (c : Char) : Char :=
  if isPart c then c else '_'

theorem isPart_fit (c : Char) : isPart (fit c) = true := by
  unfold fit
  split
  · assumption
  · decide

def sanitize (s : String) : String :=
  String.ofList ((trimChars s.toList).map fit)

def isValid (s : String) : Bool :=
  match s.toList with
  | [] => false
  | c :: cs => c.isAlpha && (c :: cs).all isPart

def StartsWithLetter (text : String) : Prop := ∃ c ∈ text.toList.head?, c.isAlpha = true

theorem isValid_iff {name : String} :
    isValid name = true ↔ StartsWithLetter name ∧ ∀ c ∈ name.toList, isPart c = true := by
  unfold isValid StartsWithLetter
  cases name.toList with
  | nil => simp
  | cons c cs => simp [Bool.and_eq_true]

/-- The name up to its last dot. The name stays whole if it has no dot or its only dot is its
first character, if nothing follows the dot, or if a slash does. -/
def stripExtension (name : String) : String :=
  let backwards := name.toList.reverse
  let extension := backwards.takeWhile (· != '.')
  match backwards.dropWhile (· != '.') with
  | [] => name
  | _ :: stem =>
    if stem.isEmpty || extension.isEmpty || extension.contains '/' then name
    else String.ofList stem.reverse

end PressPath.Identifier
