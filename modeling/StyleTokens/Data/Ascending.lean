/-!
# Ascending lists and tables

A set is kept as a strictly ascending list, and a table as a list of entries with strictly
ascending keys, so that equal sets and equal tables are equal lists.

## Main definitions

* `Ascending.insert`, `Ascending.ofList`: a set with one more member, and the set of a list
* `Table.insert`, `Table.erase`, `Table.find?`, `Table.update`: tables
* `Table.keys`: the keys of a table
-/

namespace StyleTokens

namespace Ascending

variable {α : Type} [LT α] [DecidableLT α]

/-- The ascending list with `x` among its members. -/
def insert (x : α) : List α → List α
  | [] => [x]
  | y :: ys => if x < y then x :: y :: ys else if y < x then y :: insert x ys else y :: ys

/-- The members of a list in ascending order, each once. -/
def ofList : List α → List α
  | [] => []
  | x :: xs => insert x (ofList xs)

end Ascending

/-- A table: entries with ascending keys. -/
abbrev Table (κ α : Type) := List (κ × α)

namespace Table

variable {κ α : Type} [LT κ] [DecidableLT κ]

/-- The table with `v` at `k`, in place of what stood there. -/
def insert (k : κ) (v : α) : Table κ α → Table κ α
  | [] => [(k, v)]
  | e :: rest =>
    if k < e.1 then (k, v) :: e :: rest
    else if e.1 < k then e :: insert k v rest
    else (k, v) :: rest

/-- The table without the entry at `k`. -/
def erase (k : κ) : Table κ α → Table κ α
  | [] => []
  | e :: rest => if k < e.1 then e :: rest else if e.1 < k then e :: erase k rest else rest

/-- The entry at `k`. -/
def find? (k : κ) : Table κ α → Option α
  | [] => none
  | e :: rest => if k < e.1 then none else if e.1 < k then find? k rest else some e.2

/-- The table whose entry at `k` is made from the one that stood there. -/
def update (k : κ) (f : Option α → α) (table : Table κ α) : Table κ α :=
  table.insert k (f (table.find? k))

/-- The table of a list of entries; of two entries with one key the later one counts. -/
def ofList (entries : List (κ × α)) : Table κ α :=
  entries.foldl (fun table e => table.insert e.1 e.2) []

/-- The keys of the table, in ascending order. -/
def keys (table : Table κ α) : List κ :=
  table.map Prod.fst

end Table

end StyleTokens
