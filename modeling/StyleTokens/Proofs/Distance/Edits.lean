import Mathlib.Order.Bounds.Defs
import StyleTokens.Proofs.Distance

/-!
# The distance counts edits

An edit inserts, deletes or replaces one character, anywhere in a text. Edits may be made in any
order, touch one place several times and undo one another, so there are many ways from one text to
another. The distance is the length of a shortest one. Going by the last characters, as the distance
is computed, is such a way. No shorter way exists, since a single edit changes the distance to any
other text by at most one.

## Main definitions

* `Distance.Edit`: one edit
* `Distance.Edits`: so many edits, one after another

## Main results

* `Distance.edits_fromEnds`: as many edits as the distance says are enough
* `Distance.Edit.fromEnds_le`, `Distance.Edits.fromEnds_le`: what one edit changes, and several
* `distance_isLeast`: the distance is the least number of edits
-/

namespace StyleTokens

namespace Distance

/-- One edit: a character is inserted, deleted or replaced by another one. -/
inductive Edit : Text → Text → Prop
  | insert (front : Text) (c : Char) (rest : Text) : Edit (front ++ rest) (front ++ c :: rest)
  | delete (front : Text) (c : Char) (rest : Text) : Edit (front ++ c :: rest) (front ++ rest)
  | substitute (front : Text) (c d : Char) (rest : Text) :
    Edit (front ++ c :: rest) (front ++ d :: rest)

/-- So many edits, one after another. -/
inductive Edits : Nat → Text → Text → Prop
  | none (a : Text) : Edits 0 a a
  | more {n : Nat} {a b t : Text} (first : Edit a b) (rest : Edits n b t) : Edits (n + 1) a t

variable {a b : Text} {m n : Nat}

/-! ## Edits in a longer text -/

theorem Edit.cons (c : Char) (h : Edit a b) : Edit (c :: a) (c :: b) := by
  cases h with
  | insert front d rest => exact .insert (c :: front) d rest
  | delete front d rest => exact .delete (c :: front) d rest
  | substitute front d e rest => exact .substitute (c :: front) d e rest

theorem Edits.cons (c : Char) (h : Edits n a b) : Edits n (c :: a) (c :: b) := by
  induction h with
  | none a => exact .none (c :: a)
  | more first rest ih => exact .more (first.cons c) ih

/-- An edit stays one when the texts are read backwards. -/
theorem Edit.reverse (h : Edit a b) : Edit a.reverse b.reverse := by
  cases h with
  | insert front c rest => simpa using Edit.insert rest.reverse c front.reverse
  | delete front c rest => simpa using Edit.delete rest.reverse c front.reverse
  | substitute front c d rest => simpa using Edit.substitute rest.reverse c d front.reverse

theorem Edits.reverse (h : Edits n a b) : Edits n a.reverse b.reverse := by
  induction h with
  | none a => exact .none a.reverse
  | more first rest ih => exact .more first.reverse ih

/-- Of two ways between the same texts, the shorter one. -/
theorem Edits.shorter (h : Edits m a b) (h' : Edits n a b) : Edits (min m n) a b := by
  rcases Nat.le_total m n with le | le
  · rwa [Nat.min_eq_left le]
  · rwa [Nat.min_eq_right le]

/-! ## Edits that are enough -/

theorem edits_insertAll (b : Text) : Edits b.length [] b := by
  induction b with
  | nil => exact .none []
  | cons d b ih => exact .more (.insert [] d []) (ih.cons d)

theorem edits_deleteAll (a : Text) : Edits a.length a [] := by
  induction a with
  | nil => exact .none []
  | cons c a ih => exact .more (.delete [] c a) ih

/-- **As many edits as the distance says** are enough. -/
theorem edits_fromEnds (a b : Text) : Edits (fromEnds a b) a b := by
  fun_induction fromEnds a b with
  | case1 b => exact edits_insertAll b
  | case2 c a => exact edits_deleteAll (c :: a)
  | case3 c a d b above left corner =>
    have deleted : Edits (fromEnds a (d :: b) + 1) (c :: a) (d :: b) :=
      .more (.delete [] c a) above
    have inserted : Edits (fromEnds (c :: a) b + 1) (c :: a) (d :: b) :=
      .more (.insert [] d (c :: a)) (left.cons d)
    have substituted : Edits (fromEnds a b + if c = d then 0 else 1) (c :: a) (d :: b) := by
      split_ifs with same
      · exact same ▸ corner.cons c
      · exact .more (.substitute [] c d a) (corner.cons d)
    exact (deleted.shorter inserted).shorter substituted

/-! ## Edits that are needed -/

theorem fromEnds_cons_cons (c : Char) (a : Text) (d : Char) (b : Text) :
    fromEnds (c :: a) (d :: b) =
      min (min (fromEnds a (d :: b) + 1) (fromEnds (c :: a) b + 1))
        (fromEnds a b + if c = d then 0 else 1) := by
  rw [fromEnds]

theorem fromEnds_cons_le (c : Char) (a t : Text) : fromEnds (c :: a) t ≤ fromEnds a t + 1 := by
  cases t with
  | nil => simp only [fromEnds_nil_right, List.length_cons, Nat.le_refl]
  | cons e t =>
    rw [fromEnds_cons_cons]
    omega

/-- A character in front of the second text makes the distance greater by one at most. -/
theorem fromEnds_cons_right_le (a : Text) (e : Char) (t : Text) :
    fromEnds a (e :: t) ≤ fromEnds a t + 1 := by
  rw [fromEnds_comm a, fromEnds_comm a]
  exact fromEnds_cons_le e t a

theorem fromEnds_le_cons (c : Char) (a t : Text) : fromEnds a t ≤ fromEnds (c :: a) t + 1 := by
  induction t with
  | nil =>
    simp only [fromEnds_nil_right, List.length_cons]
    omega
  | cons e t ih =>
    have longer := fromEnds_cons_right_le a e t
    rw [fromEnds_cons_cons]
    omega

theorem fromEnds_substitute_le (c d : Char) (a t : Text) :
    fromEnds (c :: a) t ≤ fromEnds (d :: a) t + 1 := by
  induction t with
  | nil => simp only [fromEnds_nil_right, List.length_cons, Nat.le_succ]
  | cons e t ih =>
    rw [fromEnds_cons_cons, fromEnds_cons_cons]
    split_ifs <;> omega

/-- What an edit behind the first character changes, given what it changes without it. -/
theorem fromEnds_cons_cons_le (c : Char) (h : ∀ t, fromEnds a t ≤ fromEnds b t + 1) (t : Text) :
    fromEnds (c :: a) t ≤ fromEnds (c :: b) t + 1 := by
  induction t with
  | nil =>
    have shorter := h []
    simp only [fromEnds_nil_right, List.length_cons] at shorter ⊢
    omega
  | cons e t ih =>
    have above := h (e :: t)
    have corner := h t
    rw [fromEnds_cons_cons, fromEnds_cons_cons]
    split_ifs <;> omega

theorem fromEnds_append_le (front : Text) (h : ∀ t, fromEnds a t ≤ fromEnds b t + 1) (t : Text) :
    fromEnds (front ++ a) t ≤ fromEnds (front ++ b) t + 1 := by
  induction front generalizing t with
  | nil => exact h t
  | cons c front ih => exact fromEnds_cons_cons_le c ih t

/-- **One edit** changes the distance to every text by at most one. -/
theorem Edit.fromEnds_le (h : Edit a b) (t : Text) : fromEnds a t ≤ fromEnds b t + 1 := by
  cases h with
  | insert front c rest => exact fromEnds_append_le front (fromEnds_le_cons c rest) t
  | delete front c rest => exact fromEnds_append_le front (fromEnds_cons_le c rest) t
  | substitute front c d rest =>
    exact fromEnds_append_le front (fromEnds_substitute_le c d rest) t

/-- **Several edits** change the distance to every text by at most as much as they are. -/
theorem Edits.fromEnds_le (h : Edits n a b) (t : Text) : fromEnds a t ≤ fromEnds b t + n := by
  induction h with
  | none a => exact Nat.le_refl _
  | more first rest ih =>
    have step := first.fromEnds_le t
    omega

end Distance

open Distance

/-- **The distance is the least number of edits** that lead from one text to the other. -/
theorem distance_isLeast (a b : Text) : IsLeast {n | Edits n a b} (distance a b) := by
  rw [distance_eq_fromEnds]
  constructor
  · have enough := (edits_fromEnds a.reverse b.reverse).reverse
    rwa [List.reverse_reverse, List.reverse_reverse] at enough
  · intro n edits
    have needed := edits.reverse.fromEnds_le b.reverse
    rwa [fromEnds_self, Nat.zero_add] at needed

example : distance "kitten".toList "sitting".toList = 3 := by
  decide

end StyleTokens
