import PressPath.Decimal.Binary

/-! The shortest decimal of a number: on the coarsest decimal grid that has a
point which reads back as the number, the point nearest to it. If a grid has any
such point then one of the number's two neighbours on that grid is one, so only
these are looked at, in exact arithmetic. -/
namespace PressPath.Decimal

structure Expansion where
  digits : Nat
  scale : Int
deriving Repr, DecidableEq

/-- The neighbour of the number on the grid of step `10 ^ scale` that reads back as it.
Of two the nearer one counts, and the upper one if both are equally near. -/
def neighbour? (b : Binary) (scale : Int) : Option Expansion :=
  let (num, den) := b.quarterOver scale
  let below := b.quarters * num / den
  let excess := b.quarters * num % den
  match b.isReadFrom below scale, b.isReadFrom (below + 1) scale with
  | true, true => some ⟨if 2 * excess < den then below else below + 1, scale⟩
  | true, false => some ⟨below, scale⟩
  | false, true => some ⟨below + 1, scale⟩
  | false, false => none

theorem isReadFrom_of_neighbour? (b : Binary) (scale : Int) (d : Expansion)
    (h : neighbour? b scale = some d) : b.isReadFrom d.digits d.scale = true := by
  unfold neighbour? at h
  dsimp only at h
  split at h
  · next low high =>
    cases Option.some.inj h
    dsimp only
    split <;> assumption
  · next low _ => cases Option.some.inj h; exact low
  · next _ high => cases Option.some.inj h; exact high
  · contradiction

def exact (b : Binary) : Expansion :=
  if b.exponent < 0 then ⟨b.mantissa * Nat.pow 5 (-b.exponent).toNat, b.exponent⟩
  else ⟨b.mantissa * Nat.pow 2 b.exponent.toNat, 0⟩

/-- Try grids from the given one on, each ten times finer than the one before. -/
def firstFrom (b : Binary) (scale : Int) : Nat → Expansion
  | 0 => exact b
  | tries + 1 =>
    match neighbour? b scale with
    | some found => found
    | none => firstFrom b (scale - 1) tries

/-- A scale at which one grid step exceeds the number: the number is below
`2 ^ (log2 mantissa + 1 + exponent)`, and 0.30103 approximates the decimal logarithm of two. -/
def startScale (b : Binary) : Int :=
  ((b.mantissa.log2 : Int) + 1 + b.exponent) * 30103 / 100000 + 2

/-- Seventeen digits always suffice, and the first three grids may be too coarse for one. -/
def shortest (b : Binary) : Expansion :=
  firstFrom b (startScale b) 20

end PressPath.Decimal
