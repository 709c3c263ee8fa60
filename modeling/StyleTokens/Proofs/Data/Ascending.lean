import Mathlib.Data.Char
import Mathlib.Data.List.Lex
import Mathlib.Data.List.Sort
import StyleTokens.Data.Ascending

/-!
# Laws of ascending lists and tables

An ascending list is determined by its members, and a table by its entries. The laws hold for
every order in which any two different values are comparable.

## Main definitions

* `Ascending.Strict`: the members stand in strictly ascending order
* `Table.Strict`: the keys do

## Main results

* `Ascending.mem_ofList`, `Ascending.strict_ofList`: the set of a list has its members, in order
* `Ascending.ofList_eq_self`: an ascending list is its own set
* `Ascending.Strict.ext`: two ascending lists with the same members are equal
* `Table.find?_insert`, `Table.find?_update`, `Table.find?_erase`: reading a table after a change
* `Table.mem_iff_find?`: the entries of a table are those that can be found
* `Table.mem_ofList`: the table of entries with distinct keys holds exactly these
* `Table.Strict.ext`, `Table.ofList_perm`: the order of the entries does not matter
-/

namespace StyleTokens

variable {α : Type} [LT α] [DecidableLT α]

namespace Ascending

variable {x y : α} {xs ys : List α}

/-- The members stand in strictly ascending order. -/
def Strict (xs : List α) : Prop :=
  xs.Pairwise (· < ·)

omit [DecidableLT α] in
theorem strict_cons : Strict (x :: xs) ↔ (∀ y ∈ xs, x < y) ∧ Strict xs :=
  List.pairwise_cons

/-- An ascending list is its own set. -/
theorem ofList_eq_self (h : Strict xs) : ofList xs = xs := by
  induction xs with
  | nil => rfl
  | cons x xs ih =>
    obtain ⟨least, rest⟩ := strict_cons.mp h
    rw [ofList, ih rest]
    cases xs with
    | nil => rfl
    | cons y ys => rw [insert, if_pos (least y (by simp))]

variable [IsStrictTotalOrder α (· < ·)]

omit [DecidableLT α] in
theorem eq_of_not_lt (h : ¬x < y) (h' : ¬y < x) : x = y := by
  rcases trichotomous_of (· < ·) x y with lt | rfl | lt
  · exact absurd lt h
  · rfl
  · exact absurd lt h'

theorem mem_insert : y ∈ insert x xs ↔ y = x ∨ y ∈ xs := by
  induction xs with
  | nil => simp [insert]
  | cons z xs ih =>
    rw [insert]
    split_ifs with hxz hzx
    · simp
    · rw [List.mem_cons, ih, List.mem_cons, or_left_comm]
    · obtain rfl := eq_of_not_lt hxz hzx
      simp

theorem strict_insert (h : Strict xs) : Strict (insert x xs) := by
  induction xs with
  | nil => simp [insert, Strict]
  | cons z xs ih =>
    obtain ⟨least, rest⟩ := strict_cons.mp h
    rw [insert]
    split_ifs with hxz hzx
    · refine strict_cons.mpr ⟨fun y hy => ?_, h⟩
      rcases List.mem_cons.mp hy with rfl | hy
      · exact hxz
      · exact trans_of (· < ·) hxz (least y hy)
    · refine strict_cons.mpr ⟨fun y hy => ?_, ih rest⟩
      rcases mem_insert.mp hy with rfl | hy
      · exact hzx
      · exact least y hy
    · exact h

/-- The set of a list has the members of the list. -/
theorem mem_ofList : y ∈ ofList xs ↔ y ∈ xs := by
  induction xs with
  | nil => rfl
  | cons x xs ih => rw [ofList, mem_insert, ih, List.mem_cons]

theorem strict_ofList (xs : List α) : Strict (ofList xs) := by
  induction xs with
  | nil => exact List.Pairwise.nil
  | cons x xs ih => exact strict_insert ih

omit [DecidableLT α] in
theorem Strict.nodup (h : Strict xs) : xs.Nodup :=
  h.imp fun lt => ne_of_irrefl (r := (· < ·)) lt

omit [DecidableLT α] in
/-- **Two ascending lists with the same members are equal.** -/
theorem Strict.ext (hx : Strict xs) (hy : Strict ys) (h : ∀ a, a ∈ xs ↔ a ∈ ys) : xs = ys := by
  have perm : xs.Perm ys := (List.perm_ext_iff_of_nodup hx.nodup hy.nodup).mpr h
  exact perm.eq_of_pairwise (fun a b _ _ hab hba => absurd hba (asymm_of (· < ·) hab)) hx hy

theorem ofList_congr (h : ∀ a, a ∈ xs ↔ a ∈ ys) : ofList xs = ofList ys :=
  (strict_ofList xs).ext (strict_ofList ys) fun a => by rw [mem_ofList, mem_ofList, h]

end Ascending

namespace Table

open Ascending (eq_of_not_lt)

variable {β : Type} {k k' : α} {v : β} {table : Table α β}

/-- The keys stand in strictly ascending order. -/
def Strict (table : Table α β) : Prop :=
  Ascending.Strict table.keys

omit [DecidableLT α] in
theorem strict_cons {e : α × β} :
    Strict (e :: table) ↔ (∀ k ∈ table.keys, e.1 < k) ∧ Strict table :=
  List.pairwise_cons

theorem find?_eq_none (h : ∀ k' ∈ table.keys, k < k') : table.find? k = none := by
  cases table with
  | nil => rfl
  | cons e table => rw [find?, if_pos (h e.1 (by simp [keys]))]

theorem erase_sublist : (table.erase k).Sublist table := by
  induction table with
  | nil => exact List.Sublist.slnil
  | cons e table ih =>
    rw [erase]
    split_ifs
    · exact List.Sublist.refl _
    · exact ih.cons_cons e
    · exact List.sublist_cons_self e table

theorem strict_erase (h : Strict table) : Strict (table.erase k) :=
  List.Pairwise.sublist (erase_sublist.map Prod.fst) h

variable [IsStrictTotalOrder α (· < ·)]

omit [DecidableLT α] in
theorem lt_irrefl (k : α) : ¬k < k :=
  irrefl_of (· < ·) k

theorem mem_keys_insert : k' ∈ (table.insert k v).keys ↔ k' = k ∨ k' ∈ table.keys := by
  induction table with
  | nil => simp [insert, keys]
  | cons e table ih =>
    rw [insert]
    split_ifs with h h'
    · simp [keys]
    · simp only [keys, List.map_cons, List.mem_cons] at ih ⊢
      rw [ih, or_left_comm]
    · have := eq_of_not_lt h h'
      simp [keys, this]

theorem strict_insert (h : Strict table) : Strict (table.insert k v) := by
  induction table with
  | nil => simp [insert, Strict, keys, Ascending.Strict]
  | cons e table ih =>
    obtain ⟨least, rest⟩ := strict_cons.mp h
    rw [insert]
    split_ifs with hke hek
    · refine strict_cons.mpr ⟨fun k' hk' => ?_, h⟩
      rcases List.mem_cons.mp hk' with rfl | hk'
      · exact hke
      · exact trans_of (· < ·) hke (least k' hk')
    · refine strict_cons.mpr ⟨fun k' hk' => ?_, ih rest⟩
      rcases mem_keys_insert.mp hk' with rfl | hk'
      · exact hek
      · exact least k' hk'
    · obtain rfl := eq_of_not_lt hke hek
      exact strict_cons.mpr ⟨least, rest⟩

theorem find?_insert_self : (table.insert k v).find? k = some v := by
  induction table with
  | nil => simp [insert, find?, lt_irrefl]
  | cons e table ih =>
    rw [insert]
    split_ifs with h h'
    · simp [find?, lt_irrefl]
    · rw [find?, if_neg h, if_pos h', ih]
    · simp [find?, lt_irrefl]

theorem find?_insert_of_ne (ne : k' ≠ k) (h : Strict table) :
    (table.insert k v).find? k' = table.find? k' := by
  induction table with
  | nil =>
    rw [insert, find?, find?]
    split_ifs with h₁ h₂
    · rfl
    · rfl
    · exact absurd (eq_of_not_lt h₁ h₂) ne
  | cons e table ih =>
    obtain ⟨least, rest⟩ := strict_cons.mp h
    rw [insert]
    split_ifs with hke hek
    · -- the new entry stands first: it is passed over, or `k'` is below all keys
      rw [find?]
      split_ifs with h₁ h₂
      · refine (find?_eq_none fun k'' hk'' => trans_of (· < ·) h₁ ?_).symm
        rcases List.mem_cons.mp hk'' with rfl | hk''
        · exact hke
        · exact trans_of (· < ·) hke (least k'' hk'')
      · rfl
      · exact absurd (eq_of_not_lt h₁ h₂) ne
    · rw [find?, find?, ih rest]
    · -- the entry of the same key is replaced, which `k'` is not
      obtain rfl := eq_of_not_lt hke hek
      rw [find?, find?]
      split_ifs with h₁ h₂
      · rfl
      · rfl
      · exact absurd (eq_of_not_lt h₁ h₂) ne

/-- **What is found after a change** of one entry. -/
theorem find?_insert [DecidableEq α] (h : Strict table) :
    (table.insert k v).find? k' = if k' = k then some v else table.find? k' := by
  split_ifs with eq
  · rw [eq, find?_insert_self]
  · exact find?_insert_of_ne eq h

theorem strict_update {f : Option β → β} (h : Strict table) : Strict (table.update k f) :=
  strict_insert h

theorem find?_update [DecidableEq α] {f : Option β → β} (h : Strict table) :
    (table.update k f).find? k' = if k' = k then some (f (table.find? k)) else table.find? k' :=
  find?_insert h

/-- **What is found after an entry is taken away.** -/
theorem find?_erase [DecidableEq α] (h : Strict table) :
    (table.erase k).find? k' = if k' = k then none else table.find? k' := by
  induction table with
  | nil =>
    rw [erase, find?]
    split_ifs <;> rfl
  | cons e table ih =>
    obtain ⟨least, rest⟩ := strict_cons.mp h
    rw [erase]
    by_cases hke : k < e.1
    · -- `k` is below all keys, so it is not found and nothing goes
      rw [if_pos hke]
      split_ifs with eq
      · rw [eq, find?, if_pos hke]
      · rfl
    rw [if_neg hke]
    by_cases hek : e.1 < k
    · rw [if_pos hek, find?, find?, ih rest]
      by_cases eq : k' = k
      · subst eq
        rw [if_neg hke, if_pos hek, if_pos rfl, if_pos rfl]
      · rw [if_neg eq, if_neg eq]
    · -- the first entry goes, and all keys behind it are above its key
      obtain rfl := eq_of_not_lt hke hek
      rw [if_neg hek, find?]
      split_ifs with eq below above
      · rw [eq]
        exact find?_eq_none least
      · exact find?_eq_none fun k'' hk'' => trans_of (· < ·) below (least k'' hk'')
      · rfl
      · exact absurd (eq_of_not_lt below above) eq

/-- The entries of a table are those that can be found. -/
theorem mem_iff_find? (h : Strict table) : (k, v) ∈ table ↔ table.find? k = some v := by
  induction table with
  | nil => simp [find?]
  | cons e table ih =>
    obtain ⟨least, rest⟩ := strict_cons.mp h
    rw [find?, List.mem_cons, ih rest]
    -- the first key ends the search or is passed over, as all keys behind it are above it
    split_ifs with hke hek
    · have below : find? k table = none :=
        find?_eq_none fun k' hk' => trans_of (· < ·) hke (least k' hk')
      simp only [below, reduceCtorEq, or_false, iff_false]
      rintro rfl
      exact lt_irrefl _ hke
    · refine or_iff_right ?_
      rintro rfl
      exact lt_irrefl _ hek
    · obtain rfl := eq_of_not_lt hke hek
      have below : find? e.1 table = none := find?_eq_none least
      simp [below, Prod.ext_iff, eq_comm]

theorem strict_ofList (entries : List (α × β)) : Strict (Table.ofList entries) := by
  have step : ∀ (entries : List (α × β)) (table : Table α β), Strict table →
      Strict (entries.foldl (fun table e => table.insert e.1 e.2) table) := by
    intro entries
    induction entries with
    | nil => exact fun _ h => h
    | cons e entries ih => exact fun table h => ih _ (strict_insert h)
  exact step entries [] List.Pairwise.nil

/-- **The table of entries with distinct keys** holds exactly these entries. -/
theorem mem_ofList {entries : List (α × β)} (distinct : (entries.map Prod.fst).Nodup) :
    (k, v) ∈ Table.ofList entries ↔ (k, v) ∈ entries := by
  classical
  -- Generalise over the table that the fold starts from, whose keys are all different.
  have step : ∀ (entries : List (α × β)) (table : Table α β), Strict table →
      (entries.map Prod.fst).Nodup → (∀ e ∈ entries, table.find? e.1 = none) →
      ((entries.foldl (fun table e => table.insert e.1 e.2) table).find? k = some v ↔
        (k, v) ∈ entries ∨ table.find? k = some v) := by
    intro entries
    induction entries with
    | nil => simp
    | cons e entries ih =>
      intro table strict nodup fresh
      rw [List.map_cons, List.nodup_cons] at nodup
      have fresh' : ∀ e' ∈ entries, (table.insert e.1 e.2).find? e'.1 = none := by
        intro e' he'
        have ne : e'.1 ≠ e.1 := fun eq => nodup.1 (eq ▸ List.mem_map_of_mem he')
        rw [find?_insert_of_ne ne strict]
        exact fresh e' (by simp [he'])
      rw [List.foldl_cons, ih _ (strict_insert strict) nodup.2 fresh', find?_insert strict,
        List.mem_cons]
      split_ifs with eq
      · have none := fresh e (by simp)
        subst eq
        simp [none, Prod.ext_iff, eq_comm, or_comm]
      · have : (k, v) ≠ e := fun h => eq (congrArg Prod.fst h)
        simp [this]
  rw [mem_iff_find? (strict_ofList entries)]
  simpa [Table.ofList, find?] using step entries [] List.Pairwise.nil distinct fun _ _ => rfl

omit [DecidableLT α] in
/-- **Two tables with the same entries are equal.** -/
theorem Strict.ext {other : Table α β} (h : Strict table) (h' : Strict other)
    (same : ∀ e, e ∈ table ↔ e ∈ other) : table = other := by
  have perm : table.Perm other :=
    (List.perm_ext_iff_of_nodup (Ascending.Strict.nodup h).of_map
      (Ascending.Strict.nodup h').of_map).mpr same
  exact perm.eq_of_pairwise (fun _ _ _ _ lt gt => absurd gt (asymm_of (· < ·) lt))
    (List.pairwise_map.mp h) (List.pairwise_map.mp h')

/-- The order of entries with distinct keys does not matter. -/
theorem ofList_perm {entries others : List (α × β)} (distinct : (entries.map Prod.fst).Nodup)
    (moved : entries.Perm others) : Table.ofList entries = Table.ofList others := by
  refine (strict_ofList entries).ext (strict_ofList others) fun e => ?_
  rw [mem_ofList distinct, mem_ofList ((moved.map Prod.fst).nodup_iff.mp distinct), moved.mem_iff]

theorem ofList_eq_self (h : Strict table) : Table.ofList table = table :=
  (strict_ofList table).ext h fun _ => mem_ofList (Ascending.Strict.nodup h)

end Table

end StyleTokens
