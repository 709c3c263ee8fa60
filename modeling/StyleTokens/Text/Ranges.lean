/-!
# Sets of code points

A set of code points is written as the ascending list of its turning points: the set starts at
the first, stops before the second, starts again at the third, and so on. The tables of the
Unicode properties are such lists.

## Main definitions

* `Ranges.holds`: membership
-/

namespace StyleTokens.Ranges

/-- Whether `n` is in the set with the given turning points. -/
def holds : List Nat → Nat → Bool
  | [], _ => false
  | [start], n => start ≤ n
  | start :: stop :: rest, n =>
    if n < start then false else if n < stop then true else holds rest n

end StyleTokens.Ranges
