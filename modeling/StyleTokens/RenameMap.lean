import StyleTokens.Data.Ascending
import StyleTokens.Field
import StyleTokens.Json.Writer

/-!
# Rename maps

A rename map leads from old names to new ones. It is kept in ascending order of the old names,
without empty names and without names that stay.

## Main definitions

* `RenameMap.ofPairs`, `RenameMap.ofValue`: the map of a list of pairs, and of a JSON object
* `RenameMap.json`: the map as a JSON document
-/

namespace StyleTokens

/-- New names by old ones. -/
structure RenameMap where
  /-- The new name of every old one. -/
  pairs : Table Text Text
  deriving DecidableEq, Repr

namespace RenameMap

/-- Whether a pair changes a name. -/
def changes (old new : Text) : Bool :=
  !old.isEmpty && !new.isEmpty && old ≠ new

/-- The map of a list of pairs, of which the last one with an old name counts. -/
def ofPairs (pairs : List (Text × Text)) : RenameMap where
  pairs := (Table.ofList pairs).filter fun (old, new) => changes old new

/-- The map of a JSON object. -/
def ofValue (v : Json.Value) : Checked RenameMap :=
  ((Field.textMembers v).inside "mapping".toList).map ofPairs

/-- The number of old names. -/
def size (map : RenameMap) : Nat :=
  map.pairs.length

/-- The map as a JSON document. -/
def json (map : RenameMap) : Text :=
  Json.document (.object (map.pairs.map fun (old, new) => (old, .text new)))

end RenameMap

end StyleTokens
