import Mathlib.Tactic.SplitIfs
import StyleTokens.Group
import StyleTokens.Proofs.Data.Except
import StyleTokens.Proofs.Field

/-!
# The rules of a group

A group of duplicates has a name and at least two different files, its canonical file is one of
them, and it has as many names as its match type asks for.

## Main definitions

* `Group.Valid`: the rules

## Main results

* `Group.check_eq_ok_iff`: a group is accepted if and only if it keeps the rules
* `Group.of_mapError_check`: an accepted group comes out as it was
-/

namespace StyleTokens

namespace Group

variable {group : Group}

/-- The rules of a group. -/
structure Valid (group : Group) : Prop where
  names : group.names ≠ []
  files : 2 ≤ group.files.length
  nodup : group.files.Nodup
  canonical : group.canonical ∈ group.files
  exact : group.matchType = .exact → group.names.length = 1
  near : group.matchType = .near → 2 ≤ group.names.eraseDups.length

theorem checkNames_eq_ok_iff {names read : List Text} :
    checkNames names = .ok read ↔ names ≠ [] ∧ names = read := by
  unfold checkNames
  split_ifs with h
  · exact iff_of_false nofun fun h' => h'.1 (by simpa using h)
  · rw [Except.ok.injEq]
    exact (and_iff_right (by simpa using h)).symm

theorem checkFiles_eq_ok_iff {files read : List Text} :
    checkFiles files = .ok read ↔ (2 ≤ files.length ∧ files.Nodup) ∧ files = read := by
  unfold checkFiles
  split_ifs with h₁ h₂
  · exact iff_of_false nofun fun h => absurd h.1.1 (Nat.not_le.mpr h₁)
  · rw [Except.ok.injEq]
    exact (and_iff_right ⟨Nat.le_of_not_lt h₁, h₂⟩).symm
  · exact iff_of_false nofun fun h => h₂ h.1.2

theorem checkShape_eq_ok_iff :
    group.checkShape = .ok group ↔ group.canonical ∈ group.files ∧
      (group.matchType = .exact → group.names.length = 1) ∧
      (group.matchType = .near → 2 ≤ group.names.eraseDups.length) := by
  unfold checkShape
  split_ifs with h₁ h₂ h₃
  · refine iff_of_false nofun fun h => ?_
    simp [h.1] at h₁
  · refine iff_of_false nofun fun h => ?_
    simp only [Bool.and_eq_true, decide_eq_true_eq] at h₂
    exact h₂.2 (h.2.1 h₂.1)
  · refine iff_of_false nofun fun h => ?_
    simp only [Bool.and_eq_true, decide_eq_true_eq] at h₃
    exact absurd (h.2.2 h₃.1) (Nat.not_le.mpr h₃.2)
  · simp only [Bool.and_eq_true, decide_eq_true_eq, not_and, Nat.not_lt, ne_eq,
      Decidable.not_not] at h₂ h₃
    exact iff_of_true rfl ⟨by simpa using h₁, h₂, h₃⟩

/-- **A group is accepted** if and only if it keeps the rules. -/
theorem check_eq_ok_iff : group.check = .ok group ↔ group.Valid := by
  constructor
  · intro h
    obtain ⟨⟨names, files⟩, both, shape⟩ := bind_eq_ok_iff.mp h
    obtain ⟨hn, hf⟩ := Checked.both_eq_ok_iff.mp both
    rw [Checked.inside_eq_ok_iff, checkNames_eq_ok_iff] at hn
    rw [Checked.inside_eq_ok_iff, checkFiles_eq_ok_iff] at hf
    obtain ⟨canonical, exact, near⟩ := checkShape_eq_ok_iff.mp shape
    exact ⟨hn.1, hf.1.1, hf.1.2, canonical, exact, near⟩
  · intro h
    rw [check, checkNames_eq_ok_iff.mpr ⟨h.names, rfl⟩,
      checkFiles_eq_ok_iff.mpr ⟨⟨h.files, h.nodup⟩, rfl⟩]
    exact checkShape_eq_ok_iff.mpr ⟨h.canonical, h.exact, h.near⟩

theorem eq_of_checkShape {checked : Group} (h : group.checkShape = .ok checked) :
    checked = group := by
  unfold checkShape at h
  split_ifs at h
  · cases h
  · cases h
  · cases h
  · exact (Except.ok.inj h).symm

/-- A check that succeeds gives the group itself, whatever is done with its problems. -/
theorem of_mapError_check {ε : Type} {checked : Group} {f : List Field.Problem → ε}
    (h : group.check.mapError f = .ok checked) : checked = group ∧ group.Valid := by
  have accepted := mapError_eq_ok_iff.mp h
  obtain ⟨_, -, shape⟩ := bind_eq_ok_iff.mp accepted
  obtain rfl := eq_of_checkShape shape
  exact ⟨rfl, check_eq_ok_iff.mp accepted⟩

end Group

end StyleTokens
