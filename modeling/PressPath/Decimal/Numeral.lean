import PressPath.Decimal.Shortest

/-! Numbers as text. A number is written with the fewest digits that read back
as it, in positional notation whatever its size; a whole number has no point,
and zero keeps its sign. -/
namespace PressPath.Decimal

def zeros (n : Nat) : String :=
  String.ofList (List.replicate n '0')

def positional (d : Expansion) : String :=
  let digits := Nat.toDigits 10 d.digits
  if 0 ≤ d.scale then
    String.ofList digits ++ zeros d.scale.toNat
  else
    let places := (-d.scale).toNat
    if places < digits.length then
      String.ofList (digits.take (digits.length - places)) ++ "." ++
        String.ofList (digits.drop (digits.length - places))
    else
      "0." ++ zeros (places - digits.length) ++ String.ofList digits

def signText (negative : Bool) : String :=
  if negative then "-" else ""

def Number.render : Number → String
  | nan => "NaN"
  | infinite negative => signText negative ++ "inf"
  | zero negative => signText negative ++ "0"
  | finite negative magnitude => signText negative ++ positional (shortest magnitude)

def render (x : Float) : String :=
  (Number.ofBits x.toBits.toNat).render

end PressPath.Decimal
