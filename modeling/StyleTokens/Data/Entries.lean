/-!
# Entries in first-seen order

A list of entries in which every key stands once, at the place where it was first seen. Setting
a key that is there changes its value and keeps its place.

## Main definitions

* `Entries`: entries with distinct keys
* `Entries.get?`, `Entries.set`, `Entries.modify`: reading and changing one entry
* `Entries.ofList`: the entries of a list, of which a later one with the same key counts
-/

namespace StyleTokens

/-- Entries with distinct keys, in the order in which the keys were first seen. -/
abbrev Entries (κ α : Type) := List (κ × α)

namespace Entries

variable {κ α : Type} [DecidableEq κ]

/-- The value at `k`. -/
def get? (k : κ) : Entries κ α → Option α
  | [] => none
  | e :: rest => if e.1 = k then some e.2 else get? k rest

/-- The entries with `v` at `k`, a new key standing last. -/
def set (k : κ) (v : α) : Entries κ α → Entries κ α
  | [] => [(k, v)]
  | e :: rest => if e.1 = k then (k, v) :: rest else e :: set k v rest

/-- The entries with the value at `k` made from the one that stood there. -/
def modify (k : κ) (f : Option α → α) (entries : Entries κ α) : Entries κ α :=
  entries.set k (f (entries.get? k))

/-- The entries of a list; of two with one key, the first gives the place and the last the
value. -/
def ofList (list : List (κ × α)) : Entries κ α :=
  list.foldl (fun entries e => entries.set e.1 e.2) []

end Entries

end StyleTokens
