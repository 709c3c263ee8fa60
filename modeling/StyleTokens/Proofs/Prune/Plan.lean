import StyleTokens.Proofs.Data.Entries
import StyleTokens.Prune

/-!
# The plan of a deletion

The plan lists a token for a file if and only if some group that is to be pruned has the token as
its name and the file as a redundant one.

## Main results

* `mem_planRemovals`: the tokens that are to be deleted from a file
* `planRemovals_induction`: what holds of every plan
-/

namespace StyleTokens

theorem mem_addOnce {name other : Text} {names : List Text} :
    other ∈ addOnce name names ↔ other ∈ names ∨ other = name := by
  unfold addOnce
  split_ifs with h
  · rw [List.contains_iff_mem] at h
    constructor
    · exact .inl
    · rintro (mem | rfl)
      · exact mem
      · exact h
  · simp

/-- The tokens that a plan lists for a file. -/
def planned (plan : Entries Text (List Text)) (file : Text) : List Text :=
  (plan.get? file).getD []

/-- One token is added for one file. -/
theorem mem_planned_add {plan : Entries Text (List Text)} {first file name other : Text} :
    other ∈ planned (plan.modify first fun names => addOnce name (names.getD [])) file ↔
      other ∈ planned plan file ∨ file = first ∧ other = name := by
  rw [planned, Entries.get?_modify]
  split_ifs with same
  · subst same
    rw [Option.getD_some, mem_addOnce, planned]
    simp
  · simp [planned, same]

/-- One group adds its name to its redundant files. -/
theorem mem_planned_foldl {name other file : Text} (files : List Text)
    (plan : Entries Text (List Text)) :
    other ∈ planned (files.foldl
        (fun plan file => plan.modify file fun names => addOnce name (names.getD [])) plan) file ↔
      other ∈ planned plan file ∨ file ∈ files ∧ other = name := by
  induction files generalizing plan with
  | nil => simp
  | cons first files ih =>
    rw [List.foldl_cons, ih, mem_planned_add, List.mem_cons, or_and_right, or_assoc]

/-- **The plan of a deletion** lists a token for a file if and only if some group that is to be
pruned has the token as its name and the file as a redundant one. -/
theorem mem_planRemovals {groups : List Group} {name file : Text} :
    name ∈ planned (planRemovals groups) file ↔
      ∃ group ∈ groups, group.isActionable ∧ file ∈ group.redundantFiles ∧
        group.representative = name := by
  -- what a plan lists after more groups, from any plan on
  have run : ∀ (groups : List Group) (plan : Entries Text (List Text)),
      name ∈ planned (groups.foldl (fun plan group => group.redundantFiles.foldl
        (fun plan file => plan.modify file fun names =>
          addOnce group.representative (names.getD [])) plan) plan) file ↔
        name ∈ planned plan file ∨
          ∃ group ∈ groups, file ∈ group.redundantFiles ∧ group.representative = name := by
    intro groups
    induction groups with
    | nil => simp
    | cons group groups ih =>
      intro plan
      rw [List.foldl_cons, ih, mem_planned_foldl]
      simp only [List.mem_cons, exists_eq_or_imp, eq_comm (a := name), or_assoc]
  rw [planRemovals, run]
  simp [planned, Entries.get?, and_assoc]

/-- What holds without a plan, and goes on to hold when a token is added for a file, holds of the
plan of a deletion. -/
theorem planRemovals_induction {motive : Entries Text (List Text) → Prop} (nil : motive [])
    (add : ∀ plan file name, motive plan →
      motive (plan.modify file fun names => addOnce name (names.getD []))) (groups : List Group) :
    motive (planRemovals groups) := by
  have one : ∀ (name : Text) (files : List Text) (plan : Entries Text (List Text)), motive plan →
      motive (files.foldl (fun plan file =>
        plan.modify file fun names => addOnce name (names.getD [])) plan) := by
    intro name files
    induction files with
    | nil => exact fun _ h => h
    | cons file files ih => exact fun plan h => ih _ (add plan file name h)
  have all : ∀ (groups : List Group) (plan : Entries Text (List Text)), motive plan →
      motive (groups.foldl (fun plan group => group.redundantFiles.foldl
        (fun plan file => plan.modify file fun names =>
          addOnce group.representative (names.getD [])) plan) plan) := by
    intro groups
    induction groups with
    | nil => exact fun _ h => h
    | cons group groups ih => exact fun plan h => ih _ (one _ _ plan h)
  exact all _ [] nil

/-- Every file stands in the plan once. -/
theorem nodup_planRemovals (groups : List Group) :
    ((planRemovals groups).map Prod.fst).Nodup :=
  planRemovals_induction (motive := fun plan => (plan.map Prod.fst).Nodup) List.nodup_nil
    (fun _ _ _ h => Entries.nodup_set h) groups

theorem nodup_addOnce {name : Text} {names : List Text} (h : names.Nodup) :
    (addOnce name names).Nodup := by
  unfold addOnce
  split_ifs with known
  · exact h
  · rw [List.contains_iff_mem] at known
    refine List.nodup_append.mpr ⟨h, by simp, fun other mem new listed => ?_⟩
    rintro rfl
    exact known (List.mem_singleton.mp listed ▸ mem)

theorem nodup_planned_add {plan : Entries Text (List Text)} {first file name : Text}
    (h : (planned plan file).Nodup) :
    (planned (plan.modify first fun names => addOnce name (names.getD [])) file).Nodup := by
  rw [planned, Entries.get?_modify]
  split_ifs with same
  · rw [Option.getD_some, ← same]
    exact nodup_addOnce h
  · exact h

/-- No token is listed twice for a file. -/
theorem nodup_planned_planRemovals (groups : List Group) (file : Text) :
    (planned (planRemovals groups) file).Nodup := by
  exact planRemovals_induction (motive := fun plan => (planned plan file).Nodup) List.nodup_nil
    (fun _ _ _ h => nodup_planned_add h) groups

/-- What a plan lists for a file is the entry of the file. -/
theorem planned_of_mem {plan : Entries Text (List Text)} (distinct : (plan.map Prod.fst).Nodup)
    {file : Text} {tokens : List Text} (mem : (file, tokens) ∈ plan) :
    planned plan file = tokens := by
  rw [planned, (Entries.mem_iff_get? distinct).mp mem, Option.getD_some]

/-- A file that a plan lists a token for has an entry. -/
theorem mem_of_mem_planned {plan : Entries Text (List Text)} (distinct : (plan.map Prod.fst).Nodup)
    {file token : Text} (listed : token ∈ planned plan file) :
    (file, planned plan file) ∈ plan := by
  rw [Entries.mem_iff_get? distinct]
  cases found : plan.get? file with
  | none => simp [planned, found] at listed
  | some tokens => rw [planned, found, Option.getD_some]

end StyleTokens
