import StyleTokens.Decimal.Places

/-!
# The nearest binary number

A decimal is taken for the double-precision number nearest to it, and a decimal in the middle of
two for the one with the even mantissa. Decimals beyond the greatest number are taken for none.

## Main definitions

* `Binary.nearest?`: the number nearest to a decimal
* `Binary.integer?`: the value of a number without fraction
-/

namespace StyleTokens.Binary

/-- The exponent of the greatest double-precision numbers. -/
def greatestExponent : Int :=
  971

/-- The exponent for the quotient `n / d`: it has a mantissa of full precision, or else is the
least one. -/
def exponentOf (n d : Nat) : Int :=
  let guess : Int := (n.log2 : Int) - d.log2 - 53
  let short := n * Nat.pow 2 (-guess).toNat < Nat.pow 2 53 * (d * Nat.pow 2 guess.toNat)
  let exponent := if short then guess else guess + 1
  if exponent < leastExponent then leastExponent else exponent

/-- The mantissa for the quotient `n / d` and an exponent. -/
def mantissaOf (n d : Nat) (exponent : Int) : Nat :=
  roundDiv (n * Nat.pow 2 (-exponent).toNat) (d * Nat.pow 2 exponent.toNat)

/-- The number nearest to the quotient `n / d`. -/
def nearestQuotient? (negative : Bool) (n d : Nat) : Option Binary :=
  let exponent := exponentOf n d
  let mantissa := mantissaOf n d exponent
  let carried := mantissa = Nat.pow 2 53
  let exponent := if carried then exponent + 1 else exponent
  if greatestExponent < exponent then none
  else some ⟨negative, if carried then fullMantissa else mantissa, exponent⟩

/-- The number nearest to `digits * 10 ^ power`. -/
def nearest? (negative : Bool) (digits : Nat) (power : Int) : Option Binary :=
  let size : Int := (Text.ofNat digits).length + power
  if digits = 0 || size < -330 then some ⟨negative, 0, leastExponent⟩
  else if 310 < size then none
  else nearestQuotient? negative (digits * Nat.pow 10 power.toNat) (Nat.pow 10 (-power).toNat)

/-- The value of a number without fraction. -/
def integer? (b : Binary) : Option Int :=
  if b.numerator % b.denominator = 0 then
    let n := b.numerator / b.denominator
    some (if b.negative then -(n : Int) else n)
  else none

end StyleTokens.Binary
