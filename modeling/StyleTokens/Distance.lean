import StyleTokens.Text.Basic

/-!
# Edit distance

The number of single-character insertions, deletions and substitutions that lead from one text to
another. It is computed row by row: a row holds the distances from what was read of the first
text to every beginning of the second.

## Main definitions

* `Distance.nextRow`: the row for one more character of the first text
* `distance`: the edit distance
* `isWithin`: whether the distance is at most a threshold
-/

namespace StyleTokens

namespace Distance

/-- The distances of a row behind its first one. The row above is overwritten from left to right.
Beside the character read, the arguments are the distance to the left, which is new already, the one
above it, which was saved before it was overwritten, the rest of the second text, and the rest of
the row above, which is old still. -/
def fill (c : Char) : Nat → Nat → Text → List Nat → List Nat
  | left, corner, d :: ds, above :: row =>
    let here := min (min (above + 1) (left + 1)) (corner + if c = d then 0 else 1)
    here :: fill c here above ds row
  | _, _, _, _ => []

/-- The row for one more character of the first text. -/
def nextRow (b : Text) (row : List Nat) (c : Char) : List Nat :=
  match row with
  | [] => []
  | corner :: rest => (corner + 1) :: fill c (corner + 1) corner b rest

/-- The row for the whole first text. -/
def lastRow (a b : Text) : List Nat :=
  a.foldl (nextRow b) (List.range (b.length + 1))

end Distance

/-- The number of single-character edits that lead from one text to the other. No rows are needed
for equal texts, or where one of the texts is empty. -/
def distance (a b : Text) : Nat :=
  if a = b then 0
  else if a.isEmpty then b.length
  else if b.isEmpty then a.length
  else (Distance.lastRow a b).getLastD 0

/-- Whether the distance is at most the threshold. The difference of the lengths, which the
distance never falls below, is looked at first. -/
def isWithin (threshold : Int) (a b : Text) : Bool :=
  if threshold < ((a.length : Int) - b.length).natAbs then false
  else (distance a b : Int) ≤ threshold

end StyleTokens
