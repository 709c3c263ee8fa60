import Mathlib.Data.List.Induction
import Mathlib.Tactic.SplitIfs
import StyleTokens.Distance

/-!
# The distance seen from the ends

A row holds the distances from what was read of the first text to the beginnings of the second. Seen
from the ends of the two texts, such a distance is the least of three: the last character of the
first text is deleted, the last one of the second is inserted, or the two stand for one another.
This form has no order of evaluation, so it tells what the rows hide: the distance is the same in
both directions, and it is never below the difference of the lengths.

## Main definitions

* `Distance.fromEnds`: the distance of two texts that are given from their last characters on
* `Distance.entries`: the rest of a row

## Main results

* `distance_eq_fromEnds`: the rows hold these distances
* `distance_comm`: the distance is symmetric
* `isWithin_iff`, `isWithin_comm`: looking at the lengths first changes no answer, in neither
  direction
* `isWithin_exact`: both
-/

namespace StyleTokens

namespace Distance

/-- The distance of two texts that are given from their last characters on. -/
def fromEnds : Text → Text → Nat
  | [], b => b.length
  | c :: a, [] => (c :: a).length
  | c :: a, d :: b =>
    min (min (fromEnds a (d :: b) + 1) (fromEnds (c :: a) b + 1))
      (fromEnds a b + if c = d then 0 else 1)
termination_by a b => a.length + b.length

theorem fromEnds_nil_right (a : Text) : fromEnds a [] = a.length := by
  cases a <;> simp [fromEnds]

/-! ## Rows -/

/-- The entries of a row behind that of `seen`, which is given from its last character on, as the
text in front of the entries is. -/
def entries (a seen : Text) : Text → List Nat
  | [] => []
  | d :: b => fromEnds a (d :: seen) :: entries a (d :: seen) b

theorem entries_nil_left (seen b : Text) :
    entries [] seen b = List.range' (seen.length + 1) b.length := by
  induction b generalizing seen with
  | nil => rfl
  | cons d b ih =>
    rw [entries, ih, fromEnds, List.length_cons, List.length_cons, List.range'_succ]

/-- **One more character** of the first text takes every entry on. -/
theorem fill_entries (c : Char) (a seen b : Text) :
    fill c (fromEnds (c :: a) seen) (fromEnds a seen) b (entries a seen b) =
      entries (c :: a) seen b := by
  induction b generalizing seen with
  | nil => rfl
  | cons d b ih =>
    -- the entry made here is the one to the left of the next
    have here : min (min (fromEnds a (d :: seen) + 1) (fromEnds (c :: a) seen + 1))
        (fromEnds a seen + if c = d then 0 else 1) = fromEnds (c :: a) (d :: seen) := by
      rw [fromEnds]
    rw [entries, entries, fill]
    simp only [here, ih]

theorem nextRow_entries (c : Char) (a b : Text) :
    nextRow b (fromEnds a [] :: entries a [] b) c =
      fromEnds (c :: a) [] :: entries (c :: a) [] b := by
  have first : fromEnds (c :: a) [] = fromEnds a [] + 1 := by
    simp only [fromEnds_nil_right, List.length_cons]
  rw [nextRow, ← first, fill_entries]

theorem lastRow_eq (a b : Text) :
    lastRow a b = fromEnds a.reverse [] :: entries a.reverse [] b := by
  induction a using List.reverseRecOn with
  | nil =>
    rw [lastRow, List.foldl_nil, List.reverse_nil, entries_nil_left, fromEnds,
      List.range_eq_range', List.range'_succ]
    rfl
  | append_singleton a c ih =>
    rw [lastRow, List.foldl_append, ← lastRow, ih, List.foldl_cons, List.foldl_nil, nextRow_entries,
      List.reverse_concat]

theorem getLastD_entries (a seen b : Text) (n : Nat) :
    (fromEnds a seen :: entries a seen b).getLastD n = fromEnds a (b.reverse ++ seen) := by
  induction b generalizing seen n with
  | nil => rfl
  | cons d b ih =>
    rw [entries, List.getLastD_cons, ih, List.reverse_cons, List.append_assoc]
    rfl

/-! ## Both directions -/

theorem fromEnds_self (a : Text) : fromEnds a a = 0 := by
  induction a with
  | nil => rw [fromEnds, List.length_nil]
  | cons c a ih => rw [fromEnds, if_pos rfl, ih, Nat.min_zero]

theorem fromEnds_comm (a b : Text) : fromEnds a b = fromEnds b a := by
  fun_induction fromEnds a b with
  | case1 b => exact (fromEnds_nil_right b).symm
  | case2 c a => simp [fromEnds]
  | case3 c a d b above left corner =>
    rw [fromEnds, above, left, corner, Nat.min_comm (fromEnds b (c :: a) + 1)]
    simp only [eq_comm]

/-- A text is at most as much longer than another as their distance says. -/
theorem length_le_add_fromEnds (a b : Text) : a.length ≤ b.length + fromEnds a b := by
  fun_induction fromEnds a b with
  | case1 b => simp
  | case2 c a => simp
  | case3 c a d b above left corner =>
    simp only [List.length_cons] at above left corner ⊢
    omega

end Distance

open Distance

theorem distance_eq_fromEnds (a b : Text) : distance a b = fromEnds a.reverse b.reverse := by
  unfold distance
  split_ifs with same first second
  · rw [same, fromEnds_self]
  · rw [List.isEmpty_iff.mp first, List.reverse_nil, fromEnds, List.length_reverse]
  · rw [List.isEmpty_iff.mp second, List.reverse_nil, fromEnds_nil_right, List.length_reverse]
  · rw [lastRow_eq, getLastD_entries, List.append_nil]

/-- **The distance is symmetric.** -/
theorem distance_comm (a b : Text) : distance a b = distance b a := by
  rw [distance_eq_fromEnds, distance_eq_fromEnds, fromEnds_comm]

theorem length_le_add_distance (a b : Text) : a.length ≤ b.length + distance a b := by
  have := length_le_add_fromEnds a.reverse b.reverse
  rwa [List.length_reverse, List.length_reverse, ← distance_eq_fromEnds] at this

/-- **Looking at the lengths first changes no answer.** -/
theorem isWithin_iff {threshold : Int} {a b : Text} :
    isWithin threshold a b ↔ (distance a b : Int) ≤ threshold := by
  have longer := length_le_add_distance a b
  have shorter := length_le_add_distance b a
  rw [distance_comm b a] at shorter
  unfold isWithin
  split_ifs with far
  · refine iff_of_false id ?_
    omega
  · exact decide_eq_true_iff

theorem isWithin_comm {threshold : Int} (a b : Text) :
    isWithin threshold a b = isWithin threshold b a := by
  rw [Bool.eq_iff_iff, isWithin_iff, isWithin_iff, distance_comm]

/-- **Being within a threshold** says just that the distance is at most the threshold, whatever the
threshold, and says it of both directions at once. -/
theorem isWithin_exact (threshold : Int) (a b : Text) :
    (isWithin threshold a b = true ↔ (distance a b : Int) ≤ threshold) ∧
      isWithin threshold a b = isWithin threshold b a :=
  ⟨isWithin_iff, isWithin_comm a b⟩

end StyleTokens
