/-!
# Laws of values that may fail

What is made in several steps is there if every step gives a value.

## Main results

* `bind_eq_ok_iff`: two steps, one after the other
* `mapError_eq_ok_iff`: a failure told in another way
* `mapM_map_eq_ok`: a step for each value of a list
-/

namespace StyleTokens

variable {α β γ ε ε' : Type}

theorem bind_eq_ok_iff {a : Except ε α} {f : α → Except ε β} {y : β} :
    a >>= f = .ok y ↔ ∃ x, a = .ok x ∧ f x = .ok y := by
  cases a with
  | error e => exact iff_of_false nofun nofun
  | ok x =>
    constructor
    · exact fun h => ⟨x, rfl, h⟩
    · rintro ⟨_, ⟨⟩, h⟩
      exact h

/-- How a failure is told does not matter where there is none. -/
theorem mapError_eq_ok_iff {a : Except ε α} {f : ε → ε'} {x : α} :
    a.mapError f = .ok x ↔ a = .ok x := by
  cases a with
  | error e => exact iff_of_false nofun nofun
  | ok found =>
    change Except.ok found = _ ↔ _
    rw [Except.ok.injEq, Except.ok.injEq]

/-- All values are checked if each of them is. -/
theorem mapM_map_eq_ok {key : α → β} {f : β → Except ε γ} {g : α → γ} {xs : List α}
    (h : ∀ x ∈ xs, f (key x) = .ok (g x)) : (xs.map key).mapM f = .ok (xs.map g) := by
  induction xs with
  | nil => rfl
  | cons x xs ih =>
    rw [List.forall_mem_cons] at h
    rw [List.map_cons, List.mapM_cons, h.1, ih h.2]
    rfl

end StyleTokens
