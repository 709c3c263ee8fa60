import Mathlib.Data.List.Induction
import Mathlib.Tactic.SplitIfs
import StyleTokens.Data.Entries

/-!
# Laws of entries

Setting a key changes the value at this key and no other. A key that is there keeps its place, and
a new one stands last, so the keys stay distinct, and entries with distinct keys are their own list
of entries.

## Main results

* `Entries.get?_set`, `Entries.get?_modify`: one entry changes, and no other
* `Entries.mem_iff_get?`: the entries are those that can be found
* `Entries.set_of_notMem`, `Entries.modify_concat`: where an entry stands
* `Entries.ofList_eq_self`: entries with distinct keys stay as they are
-/

namespace StyleTokens.Entries

variable {κ α : Type} [DecidableEq κ] {k k' : κ} {v : α} {entries : Entries κ α}

/-- Setting a key changes the value at this key, and no other. -/
theorem get?_set : (entries.set k v).get? k' = if k' = k then some v else entries.get? k' := by
  induction entries with
  | nil =>
    rw [set, get?, get?, get?]
    simp only [eq_comm]
  | cons e entries ih =>
    rw [set]
    by_cases here : e.1 = k
    · rw [if_pos here, get?, get?]
      split_ifs <;> simp_all
    · rw [if_neg here, get?, get?, ih]
      split_ifs <;> simp_all

theorem get?_modify {f : Option α → α} :
    (entries.modify k f).get? k' =
      if k' = k then some (f (entries.get? k)) else entries.get? k' :=
  get?_set

theorem mem_keys_set :
    k' ∈ (entries.set k v).map Prod.fst ↔ k' = k ∨ k' ∈ entries.map Prod.fst := by
  induction entries with
  | nil => simp [set]
  | cons e entries ih =>
    rw [set]
    split_ifs with here
    · simp [here]
    · rw [List.map_cons, List.mem_cons, ih, List.map_cons, List.mem_cons, or_left_comm]

/-- Setting a key leaves the keys distinct. -/
theorem nodup_set (h : (entries.map Prod.fst).Nodup) :
    ((entries.set k v).map Prod.fst).Nodup := by
  induction entries with
  | nil => simp [set]
  | cons e entries ih =>
    rw [List.map_cons, List.nodup_cons] at h
    rw [set]
    split_ifs with here
    · subst here
      exact List.nodup_cons.mpr h
    · rw [List.map_cons, List.nodup_cons]
      refine ⟨fun mem => ?_, ih h.2⟩
      rcases mem_keys_set.mp mem with same | mem
      · exact here same
      · exact h.1 mem

/-- The entries are those that can be found. -/
theorem mem_iff_get? (h : (entries.map Prod.fst).Nodup) :
    (k, v) ∈ entries ↔ entries.get? k = some v := by
  induction entries with
  | nil => simp [get?]
  | cons e entries ih =>
    rw [List.map_cons, List.nodup_cons] at h
    rw [get?, List.mem_cons]
    split_ifs with here
    · -- the key stands here, so it does not stand behind
      have only : (k, v) ∉ entries := fun mem => h.1 (here ▸ List.mem_map_of_mem mem)
      rw [or_iff_left only, Option.some.injEq, Prod.ext_iff]
      exact ⟨fun eq => eq.2.symm, fun eq => ⟨here.symm, eq.symm⟩⟩
    · rw [← ih h.2]
      refine or_iff_right ?_
      rintro rfl
      exact here rfl

/-! ## Places -/

theorem get?_of_notMem (fresh : k ∉ entries.map Prod.fst) : entries.get? k = none := by
  induction entries with
  | nil => rfl
  | cons e entries ih =>
    simp only [List.map_cons, List.mem_cons, not_or] at fresh
    rw [get?, if_neg (Ne.symm fresh.1), ih fresh.2]

/-- A new key stands last. -/
theorem set_of_notMem (fresh : k ∉ entries.map Prod.fst) :
    entries.set k v = entries ++ [(k, v)] := by
  induction entries with
  | nil => rfl
  | cons e entries ih =>
    simp only [List.map_cons, List.mem_cons, not_or] at fresh
    rw [set, if_neg (Ne.symm fresh.1), ih fresh.2, List.cons_append]

theorem modify_of_notMem {f : Option α → α} (fresh : k ∉ entries.map Prod.fst) :
    entries.modify k f = entries ++ [(k, f none)] := by
  rw [modify, get?_of_notMem fresh, set_of_notMem fresh]

/-- The last key keeps its place. -/
theorem modify_concat {f : Option α → α} (fresh : k ∉ entries.map Prod.fst) :
    Entries.modify k f (entries ++ [(k, v)]) = entries ++ [(k, f (some v))] := by
  rw [modify]
  induction entries with
  | nil => simp [set, get?]
  | cons e entries ih =>
    simp only [List.map_cons, List.mem_cons, not_or] at fresh
    rw [List.cons_append, set, get?, if_neg (Ne.symm fresh.1), if_neg (Ne.symm fresh.1), ih fresh.2,
      List.cons_append]

/-- **Entries with distinct keys** stay as they are. -/
theorem ofList_eq_self (distinct : (entries.map Prod.fst).Nodup) :
    Entries.ofList entries = entries := by
  induction entries using List.reverseRecOn with
  | nil => rfl
  | append_singleton entries e ih =>
    rw [List.map_append, List.nodup_append] at distinct
    obtain ⟨before, -, apart⟩ := distinct
    have fresh : e.1 ∉ entries.map Prod.fst := fun mem => apart e.1 mem e.1 (by simp) rfl
    have step : Entries.ofList (entries ++ [e]) = (Entries.ofList entries).set e.1 e.2 := by
      rw [ofList, List.foldl_append]
      rfl
    rw [step, ih before, set_of_notMem fresh]

end StyleTokens.Entries
