/-! Reading numbers. A numeral is an optional sign and either a word for infinity
or for an undefined value, in any case, or digits with an optional point and an
optional exponent. There is at least one digit, before or after the point, and
at least one in an exponent. -/
namespace PressPath.Decimal

inductive Numeral where
  | nan
  | infinite (negative : Bool)
  | finite (negative : Bool) (digits : Nat) (scale : Int)
deriving Repr, DecidableEq

def digitsValue (cs : List Char) : Nat :=
  cs.foldl (fun value c => 10 * value + (c.toNat - '0'.toNat)) 0

def takeSign : List Char → Bool × List Char
  | '-' :: cs => (true, cs)
  | '+' :: cs => (false, cs)
  | cs => (false, cs)

/-- The exponent that makes up all of the text: nothing, or a mark, a sign and digits. -/
def exponent? : List Char → Option Int
  | [] => some 0
  | mark :: cs =>
    let (negative, digits) := takeSign cs
    if (mark == 'e' || mark == 'E') && !digits.isEmpty && digits.all Char.isDigit then
      some (if negative then -(digitsValue digits : Int) else digitsValue digits)
    else none

def takeFraction : List Char → List Char × List Char
  | '.' :: cs => (cs.takeWhile Char.isDigit, cs.dropWhile Char.isDigit)
  | cs => ([], cs)

def unsigned? (negative : Bool) (cs : List Char) : Option Numeral :=
  let word := String.ofList (cs.map Char.toLower)
  if word = "nan" then some .nan
  else if word = "inf" || word = "infinity" then some (.infinite negative)
  else
    let whole := cs.takeWhile Char.isDigit
    let (fraction, rest) := takeFraction (cs.dropWhile Char.isDigit)
    if whole.isEmpty && fraction.isEmpty then none
    else (exponent? rest).map fun exponent =>
      .finite negative (digitsValue (whole ++ fraction)) (exponent - fraction.length)

def Numeral.ofChars? (cs : List Char) : Option Numeral :=
  let (negative, rest) := takeSign cs
  unsigned? negative rest

def negateIf (negative : Bool) (x : Float) : Float :=
  if negative then -x else x

/-- The nearest double. A number of `n` digits with scale `s` is at least `10 ^ (n - 1 + s)` and
below `10 ^ (n + s)`; so beyond these limits the result is infinite or zero, however large
the exponent. -/
def magnitude (digits : Nat) (scale : Int) : Float :=
  let size := ((Nat.toDigits 10 digits).length : Int)
  if digits = 0 || size + scale ≤ -324 then 0.0
  else if 309 ≤ size - 1 + scale then 1.0 / 0.0
  else Float.ofScientific digits (decide (scale < 0)) scale.natAbs

def Numeral.toFloat : Numeral → Float
  | nan => 0.0 / 0.0
  | infinite negative => negateIf negative (1.0 / 0.0)
  | finite negative digits scale => negateIf negative (magnitude digits scale)

def read? (text : String) : Option Float :=
  (Numeral.ofChars? text.toList).map Numeral.toFloat

end PressPath.Decimal
