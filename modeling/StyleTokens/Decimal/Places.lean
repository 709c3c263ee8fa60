import StyleTokens.Decimal.Binary
import StyleTokens.Text.Basic

/-!
# Two decimal places

A number is rounded to hundredths on its exact value, and a half goes to the even neighbour.

## Main definitions

* `roundDiv`: a quotient rounded to an integer
* `Binary.hundredths`: the magnitude of a number in hundredths
* `Decimal.twoPlaces`: a number written with two places
* `Decimal.roundTwo`: the number nearest to the rounded value
-/

namespace StyleTokens

/-- The quotient rounded to the nearest integer, a half to the even one. -/
def roundDiv (n d : Nat) : Nat :=
  let q := n / d
  let twice := 2 * (n % d)
  if twice < d then q else if d < twice then q + 1 else q + q % 2

/-- The magnitude in hundredths. -/
def Binary.hundredths (b : Binary) : Nat :=
  roundDiv (100 * b.numerator) b.denominator

namespace Decimal

/-- The text behind a minus sign, if there is one. -/
def withSign (negative : Bool) (t : Text) : Text :=
  if negative then '-' :: t else t

/-- The text for a number that is not finite. -/
def specialText (x : Float) : Text :=
  if x < 0 then "-inf".toList else if 0 < x then "inf".toList else "nan".toList

/-- A number of hundredths, written with two places. -/
def ofHundredths (n : Nat) : Text :=
  Text.ofNat (n / 100) ++ '.' :: Text.ofNat (n / 10 % 10) ++ Text.ofNat (n % 10)

/-- The number written with two places. -/
def twoPlaces (x : Float) : Text :=
  match Binary.ofFloat? x with
  | none => specialText x
  | some b => withSign b.negative (ofHundredths b.hundredths)

/-- The number nearest to the value rounded to two places. -/
def roundTwo (x : Float) : Float :=
  match Binary.ofFloat? x with
  | none => x
  | some b =>
    let y := Float.ofScientific b.hundredths true 2
    if b.negative then -y else y

end Decimal

end StyleTokens
