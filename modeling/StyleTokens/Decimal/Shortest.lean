import StyleTokens.Decimal.Places

/-!
# The shortest decimal

A number is written with the fewest digits that read back as the number. They lie on the coarsest
decimal grid that meets the interval of values which round to it.

## Main definitions

* `Binary.reads`: whether a decimal reads back as a number
* `Binary.shortest`: the digits and the power of ten of the shortest decimal
* `Decimal.shortest`: the number written so, positionally below `10 ^ 16`
-/

namespace StyleTokens

namespace Binary

/-- Whether the neighbour below is at half the distance of the one above. -/
def isNarrowBelow (b : Binary) : Bool :=
  b.mantissa = fullMantissa && leastExponent < b.exponent

/-- Whether the value `n / d` rounds to the number: it lies between the halves of the distances to
the neighbours, with the ends if the mantissa is even. -/
def rounds (b : Binary) (n d : Nat) : Bool :=
  let unit := Nat.pow 2 b.exponent.toNat * d
  let value := 4 * n * b.denominator
  let low := (4 * b.mantissa - if b.isNarrowBelow then 1 else 2) * unit
  let high := (4 * b.mantissa + 2) * unit
  if b.mantissa % 2 = 0 then low ≤ value && value ≤ high else low < value && value < high

/-- Whether the decimal `digits * 10 ^ power` reads back as the number. -/
def reads (b : Binary) (digits : Nat) (power : Int) : Bool :=
  b.rounds (digits * Nat.pow 10 power.toNat) (Nat.pow 10 (-power).toNat)

/-- The multiple of `10 ^ power` below the number, as a factor. -/
def floorOn (b : Binary) (power : Int) : Nat :=
  b.numerator * Nat.pow 10 (-power).toNat / (b.denominator * Nat.pow 10 power.toNat)

/-- The nearest multiple of `10 ^ power`, as a factor. -/
def nearestOn (b : Binary) (power : Int) : Nat :=
  roundDiv (b.numerator * Nat.pow 10 (-power).toNat) (b.denominator * Nat.pow 10 power.toNat)

/-- A decimal on the grid of `10 ^ power` that reads back as the number: the nearest one if it
does, else the neighbour on the other side. -/
def onGrid? (b : Binary) (power : Int) : Option (Nat × Int) :=
  let below := b.floorOn power
  let nearest := b.nearestOn power
  ([nearest, below, below + 1].find? fun digits => b.reads digits power).map (·, power)

/-- The digits and the power of ten of the shortest decimal of a number that is not zero. The
grids are tried from the coarsest one on. -/
def shortest (b : Binary) : Nat × Int :=
  ((List.range 640).findSome? fun (i : Nat) => b.onGrid? (309 - i)).getD (0, 0)

end Binary

namespace Decimal

/-- The digits with a point behind the first `n`, and at least one digit on both sides. -/
def pointed (digits : Text) (n : Nat) : Text :=
  let padded := digits ++ List.replicate (n - digits.length) '0'
  padded.take n ++ '.' :: if padded.length ≤ n then ['0'] else padded.drop n

/-- The digits with zeros in front of them and a point. -/
def belowOne (digits : Text) (zeros : Nat) : Text :=
  '0' :: '.' :: List.replicate zeros '0' ++ digits

/-- The digits with a power of ten. -/
def scientific (digits : Text) (power : Nat) : Text :=
  let mantissa := match digits with
    | [d] => [d]
    | _ => pointed digits 1
  mantissa ++ 'e' :: '+' :: Text.ofNat power

/-- A number of at least a hundredth, written with the digits of its shortest decimal:
positionally below `10 ^ 16`, else with a power of ten. -/
def written (digits : Nat) (power : Int) : Text :=
  let text := Text.ofNat digits
  let size := text.length + power
  if size ≤ 0 then belowOne text (-size).toNat
  else if size ≤ 16 then pointed text size.toNat
  else scientific text (size - 1).toNat

/-- The number with the fewest digits that read back. -/
def shortest (x : Float) : Text :=
  match Binary.ofFloat? x with
  | none => specialText x
  | some b =>
    withSign b.negative
      (if b.mantissa = 0 then "0.0".toList
      else
        let (digits, power) := b.shortest
        written digits power)

end Decimal

end StyleTokens
