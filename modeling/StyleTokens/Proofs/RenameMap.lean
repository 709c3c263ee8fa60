import Mathlib.Data.List.Induction
import StyleTokens.Proofs.Data.Ascending
import StyleTokens.RenameMap

/-!
# Laws of rename maps

Of several pairs with one old name the last one counts, and it is dropped if it changes nothing. An
earlier pair does not come back in its place. What is kept is in order and changes a name, so a
rename map is the map of its own pairs.

## Main definitions

* `Table.IsLast`: the last entry of a list with its key

## Main results

* `Table.mem_ofList_iff_isLast`: the table of a list holds the last entry of every key
* `RenameMap.mem_ofPairs`: the pairs of a rename map
* `RenameMap.ofPairs_pairs`: a rename map is the map of its own pairs
-/

namespace StyleTokens

namespace Table

variable {α β : Type} {entries : List (α × β)} {e x : α × β}

/-- The entry is the last one with its key. -/
def IsLast (entries : List (α × β)) (e : α × β) : Prop :=
  ∃ earlier later, entries = earlier ++ e :: later ∧ ∀ other ∈ later, other.1 ≠ e.1

theorem isLast_concat : IsLast (entries ++ [x]) e ↔ e = x ∨ e.1 ≠ x.1 ∧ IsLast entries e := by
  constructor
  · rintro ⟨earlier, later, split, last⟩
    rcases List.eq_nil_or_concat' later with rfl | ⟨later, y, rfl⟩
    · obtain ⟨-, same⟩ := List.append_inj' split rfl
      exact .inl (List.singleton_inj.mp same).symm
    · -- the new entry stands behind, so it has another key
      rw [← List.cons_append, ← List.append_assoc] at split
      obtain ⟨rfl, same⟩ := List.append_inj' split rfl
      obtain rfl := List.singleton_inj.mp same
      refine .inr ⟨(last x (by simp)).symm, earlier, later, rfl, fun other mem => ?_⟩
      exact last other (List.mem_append_left _ mem)
  · rintro (rfl | ⟨ne, earlier, later, rfl, last⟩)
    · exact ⟨entries, [], rfl, nofun⟩
    · refine ⟨earlier, later ++ [x], by simp, fun other mem => ?_⟩
      rcases List.mem_append.mp mem with mem | mem
      · exact last other mem
      · rw [List.mem_singleton.mp mem]
        exact ne.symm

variable [LT α] [DecidableLT α] [IsStrictTotalOrder α (· < ·)]

/-- **The table of a list** holds the last entry of every key. -/
theorem mem_ofList_iff_isLast : e ∈ Table.ofList entries ↔ IsLast entries e := by
  classical
  obtain ⟨k, v⟩ := e
  -- from the last entry back, as a later one takes the place of an earlier one
  induction entries using List.reverseRecOn with
  | nil => simp [ofList, IsLast]
  | append_singleton entries x ih =>
    have strict : Strict (ofList entries) := strict_ofList entries
    have step : ofList (entries ++ [x]) = (ofList entries).insert x.1 x.2 := by
      rw [ofList, List.foldl_append]
      rfl
    rw [step, mem_iff_find? (strict_insert strict), find?_insert strict, isLast_concat, ← ih,
      mem_iff_find? strict]
    by_cases same : k = x.1
    · simp [same, Prod.ext_iff, eq_comm]
    · simp [same, Prod.ext_iff]

end Table

namespace RenameMap

variable {pairs : List (Text × Text)} {old new : Text}

/-- The old names stand in strictly ascending order. -/
theorem strict_ofPairs (pairs : List (Text × Text)) : Table.Strict (ofPairs pairs).pairs := by
  have kept : (ofPairs pairs).pairs.Sublist (Table.ofList pairs) := List.filter_sublist
  exact List.Pairwise.sublist (kept.map Prod.fst) (Table.strict_ofList pairs)

/-- **The pairs of a rename map** are the last ones with their old names, as far as they change a
name. -/
theorem mem_ofPairs :
    (old, new) ∈ (ofPairs pairs).pairs ↔ Table.IsLast pairs (old, new) ∧ changes old new := by
  rw [ofPairs, List.mem_filter, Table.mem_ofList_iff_isLast]

/-- **A rename map is the map of its own pairs.** -/
theorem ofPairs_pairs (pairs : List (Text × Text)) :
    ofPairs (ofPairs pairs).pairs = ofPairs pairs := by
  have kept : (Table.ofList (ofPairs pairs).pairs) = (ofPairs pairs).pairs :=
    Table.ofList_eq_self (strict_ofPairs pairs)
  rw [ofPairs, kept]
  refine congrArg RenameMap.mk (List.filter_eq_self.mpr ?_)
  rintro ⟨old, new⟩ mem
  exact (mem_ofPairs.mp mem).2

end RenameMap

end StyleTokens
