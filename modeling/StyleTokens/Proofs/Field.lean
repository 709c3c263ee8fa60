import StyleTokens.Field

/-!
# Laws of checked fields

A check passes if all of its parts do, wherever in the record they stand.

## Main results

* `Checked.both_eq_ok_iff`, `Checked.inside_eq_ok_iff`: when two checks pass, and that of a part
* `Checked.all_map_ok`: a list whose parts are all as they should be
* `Field.texts_ofTexts`: a list of texts is read back
-/

namespace StyleTokens

theorem Checked.both_eq_ok_iff {α β : Type} {a : Checked α} {b : Checked β} {x : α} {y : β} :
    Checked.both a b = .ok (x, y) ↔ a = .ok x ∧ b = .ok y := by
  cases a <;> cases b <;> simp [Checked.both]

theorem Checked.inside_eq_ok_iff {α : Type} (place : Text) {a : Checked α} {x : α} :
    a.inside place = .ok x ↔ a = .ok x := by
  cases a <;> simp [Checked.inside]

theorem Checked.all_map_ok {α β : Type} {f : α → Checked β} {g : α → β} {xs : List α}
    (h : ∀ x ∈ xs, f x = .ok (g x)) : Checked.all (xs.map f) = .ok (xs.map g) := by
  induction xs with
  | nil => rfl
  | cons x xs ih =>
    rw [List.forall_mem_cons] at h
    rw [List.map_cons, List.map_cons, Checked.all, h.1, ih h.2]
    rfl

theorem Field.texts_ofTexts (otherwise : Field.Fault) (ts : List Text) :
    Field.texts otherwise (.ofTexts ts) = .ok ts := by
  have read : ∀ x ∈ (ts.map Json.Value.text).zipIdx,
      (Field.text x.1).inside (Text.ofNat x.2) = .ok (x.1.text?.getD []) := by
    intro x mem
    obtain ⟨t, -, eq⟩ := List.mem_map.mp (List.fst_mem_of_mem_zipIdx mem)
    rw [← eq]
    rfl
  have texts : (ts.map Json.Value.text).zipIdx.map (fun x => x.1.text?.getD []) = ts := by
    have fst : (fun x : Json.Value × Nat => x.1.text?.getD []) =
        (fun v => v.text?.getD []) ∘ Prod.fst := rfl
    rw [fst, ← List.map_map, List.zipIdx_map_fst, List.map_map]
    exact List.map_id ts
  exact (Checked.all_map_ok read).trans (congrArg Except.ok texts)

end StyleTokens
