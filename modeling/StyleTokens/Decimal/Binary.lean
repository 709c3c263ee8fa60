/-!
# Binary numbers

A double-precision number that is finite is an integer times a power of two.

## Main definitions

* `Binary`: a sign, an integer and a power of two
* `Binary.ofFloat?`: the value of a finite double-precision number
* `Binary.numerator`, `Binary.denominator`: the magnitude as a quotient
-/

namespace StyleTokens

/-- The number `mantissa * 2 ^ exponent`, negative or not. -/
structure Binary where
  /-- Whether the number has a minus sign; zero may have one. -/
  negative : Bool
  mantissa : Nat
  /-- The power of two. -/
  exponent : Int
  deriving DecidableEq, Repr

namespace Binary

/-- The exponent of the least double-precision numbers. -/
def leastExponent : Int :=
  -1074

/-- The least mantissa of full precision. -/
def fullMantissa : Nat :=
  Nat.pow 2 52

/-- The number with the given bits: a sign, eleven bits of exponent and fifty-two of mantissa.
There is none if all bits of the exponent are set. -/
def ofBits? (bits : Nat) : Option Binary :=
  let fraction := bits % Nat.pow 2 52
  let scale := bits / Nat.pow 2 52 % Nat.pow 2 11
  let negative := bits / Nat.pow 2 63 % 2 == 1
  if scale = 2047 then none
  else if scale = 0 then some ⟨negative, fraction, leastExponent⟩
  else some ⟨negative, fullMantissa + fraction, leastExponent + (scale - 1 : Nat)⟩

/-- The value of a finite number. -/
def ofFloat? (x : Float) : Option Binary :=
  ofBits? x.toBits.toNat

/-- The numerator of the magnitude. -/
def numerator (b : Binary) : Nat :=
  b.mantissa * Nat.pow 2 b.exponent.toNat

/-- The denominator of the magnitude. -/
def denominator (b : Binary) : Nat :=
  Nat.pow 2 (-b.exponent).toNat

end Binary

end StyleTokens
