/-! Double precision numbers, decoded from their 64 bits. A finite number is a
whole mantissa times a power of two. The reals that round to it lie between the
midpoints to its neighbours, and a midpoint itself belongs to the even mantissa. -/
namespace PressPath.Decimal

/-- A positive number `mantissa * 2 ^ exponent`. Right above a power of two the gap
below the number is half of the gap above it. -/
structure Binary where
  mantissa : Nat
  exponent : Int
  narrowBelow : Bool
deriving Repr, DecidableEq

inductive Number where
  | nan
  | infinite (negative : Bool)
  | zero (negative : Bool)
  | finite (negative : Bool) (magnitude : Binary)
deriving Repr, DecidableEq

def Number.ofBits (bits : Nat) : Number :=
  let negative := bits / Nat.pow 2 63 % 2 == 1
  let power : Nat := bits / Nat.pow 2 52 % Nat.pow 2 11
  let fraction : Nat := bits % Nat.pow 2 52
  if power = 2047 then
    if fraction = 0 then .infinite negative else .nan
  else if power = 0 then
    if fraction = 0 then .zero negative else .finite negative ⟨fraction, -1074, false⟩
  else
    .finite negative ⟨Nat.pow 2 52 + fraction, (power : Int) - 1075,
      fraction == 0 && decide (1 < power)⟩

namespace Binary

/-- The number and the ends of its interval are multiples of a quarter of its last place;
these are the multiples. -/
def quarters (b : Binary) : Nat := 4 * b.mantissa

def lowerQuarters (b : Binary) : Nat :=
  if b.narrowBelow then 4 * b.mantissa - 1 else 4 * b.mantissa - 2

def upperQuarters (b : Binary) : Nat := 4 * b.mantissa + 2

/-- The ratio of `2 ^ (exponent - 2)`, a quarter of the last place, to `10 ^ scale`. -/
def quarterOver (b : Binary) (scale : Int) : Nat × Nat :=
  let two := b.exponent - 2
  (Nat.pow 2 two.toNat * Nat.pow 10 (-scale).toNat,
    Nat.pow 2 (-two).toNat * Nat.pow 10 scale.toNat)

def isReadFrom (b : Binary) (digits : Nat) (scale : Int) : Bool :=
  let (num, den) := b.quarterOver scale
  if b.mantissa % 2 = 0 then
    decide (b.lowerQuarters * num ≤ digits * den) && decide (digits * den ≤ b.upperQuarters * num)
  else
    decide (b.lowerQuarters * num < digits * den) && decide (digits * den < b.upperQuarters * num)

end Binary
end PressPath.Decimal
