import Mathlib.Data.List.Induction
import StyleTokens.Proofs.AliasPlan
import StyleTokens.Proofs.FileTree
import StyleTokens.TreePrune

/-!
# The record of a run

While a run deletes declarations from the files of a tree, its alias plan is a record of what it
did: as long as nothing stops the run, the plan lists a token for a file exactly if the run deleted
a declaration of the token from the file. The files themselves tell: a deletion is seen in the text
of the file before and after its turn.

## Main definitions

* `Prune.Cuts`: a token that is found when it is its turn
* `PruneRun.DeletesFrom`, `PruneRun.Deletes`: the deletions of one step and of a whole run

## Main results

* `Prune.mem_prune`: the tokens of which a declaration is deleted
* `PruneRun.step_cases`: what a step can do
* `PruneRun.mem_planned_step`, `PruneRun.mem_planned_foldl`: the plan after a step and after several
* `PruneRun.mem_planned_ofGroups`: the plan of a run that is not stopped
-/

namespace StyleTokens

/-! ## Tokens that are found -/

namespace Prune

variable {tokens : List Text} {t first token : Text}

/-- A declaration of the token is found when it is its turn: in the text without the declarations
of the tokens before it. -/
def Cuts (tokens : List Text) (t token : Text) : Prop :=
  ∃ earlier later, tokens = earlier ++ token :: later ∧ declares token (prune earlier t).1

theorem Cuts.mem (h : Cuts tokens t token) : token ∈ tokens := by
  obtain ⟨earlier, later, rfl, -⟩ := h
  simp

theorem cuts_cons : Cuts (first :: tokens) t token ↔
    first = token ∧ declares first t ∨ Cuts tokens (without first t) token := by
  constructor
  · rintro ⟨earlier, later, eq, found⟩
    cases earlier with
    | nil =>
      obtain ⟨rfl, rfl⟩ := List.cons.inj eq
      exact .inl ⟨rfl, found⟩
    | cons other earlier =>
      obtain ⟨rfl, rfl⟩ := List.cons.inj eq
      exact .inr ⟨earlier, later, rfl, found⟩
  · rintro (⟨rfl, found⟩ | ⟨earlier, later, rfl, found⟩)
    · exact ⟨[], tokens, rfl, found⟩
    · exact ⟨first :: earlier, later, rfl, found⟩

/-- **The tokens of which a declaration is deleted.** -/
theorem mem_prune : token ∈ (prune tokens t).2 ↔ Cuts tokens t token := by
  induction tokens generalizing t with
  | nil =>
    refine iff_of_false List.not_mem_nil ?_
    rintro ⟨earlier, later, eq, -⟩
    simp at eq
  | cons first tokens ih =>
    rw [cuts_cons, ← ih, prune]
    split_ifs with found
    · simp [found, eq_comm]
    · simp [found]

end Prune

/-! ## Steps of a run -/

namespace PruneRun

variable {base : Path} {run : PruneRun} {file other token : Text} {tokens : List Text}
  {targets : List (Text × List Text)} {target : Text × List Text}

/-- At the turn of the file, the run deletes a declaration of the token from it: the token is found
in the text that the tree holds, and afterwards the tree holds the text without it. -/
def DeletesFrom (base : Path) (run : PruneRun) (file : Text) (tokens : List Text) (token : Text) :
    Prop :=
  run.failure = none ∧ ∃ t, run.tree.readText (base.append (.parse file)) = .ok t ∧
    Prune.Cuts tokens t token ∧
    (run.step base true (file, tokens)).tree.readText (base.append (.parse file)) =
      .ok (prune tokens t).1

/-- A run that was stopped does nothing more. -/
theorem step_of_failure {write : Bool} (h : run.failure ≠ none) :
    run.step base write target = run :=
  if_pos (Option.isSome_iff_ne_none.mpr h)

/-- **What a step can do**: leave out the file, find nothing in it, or replace it and record what
was found. -/
theorem step_cases (going : run.failure = none) (base : Path) (file : Text) (tokens : List Text) :
    ((run.step base true (file, tokens)).tree = run.tree ∧
      (run.step base true (file, tokens)).plan = run.plan ∧
      ∀ t, run.tree.readText (base.append (.parse file)) = .ok t → (prune tokens t).2 = []) ∨
    ∃ t result, run.tree.readText (base.append (.parse file)) = .ok t ∧
      run.tree.replaceFile (base.append (.parse file)) (prune tokens t).1 true =
        ((run.step base true (file, tokens)).tree, result) ∧
      (run.step base true (file, tokens)).plan = run.plan.recordAll file (prune tokens t).2 ∧
      ((run.step base true (file, tokens)).failure = none → result = .ok ()) := by
  cases read : run.tree.readText (base.append (.parse file)) with
  | error refusal =>
    left
    cases refusal <;> simp [step, going, read]
  | ok t =>
    by_cases nothing : (prune tokens t).2 = []
    · left
      simp [step, going, read, nothing]
    · right
      have found : (prune tokens t).2.isEmpty = false := by simpa using nothing
      simp only [step, going, read, found, apply, Option.isSome_none, Bool.false_eq_true, if_false,
        if_true]
      cases replaced : run.tree.replaceFile (base.append (.parse file)) (prune tokens t).1 true with
      | mk tree' result =>
        cases result with
        | error refusal => exact ⟨t, .error refusal, rfl, replaced, rfl, nofun⟩
        | ok done => exact ⟨t, .ok done, rfl, replaced, rfl, fun _ => rfl⟩

/-- The tree is ordered, and every file stands in the plan once. -/
structure Sound (run : PruneRun) : Prop where
  ordered : run.tree.Ordered
  distinct : (run.plan.removed.map Prod.fst).Nodup

theorem Sound.step (h : run.Sound) : (run.step base true target).Sound := by
  by_cases going : run.failure = none
  · obtain ⟨file, tokens⟩ := target
    rcases step_cases going base file tokens with ⟨tree, plan, -⟩ | ⟨t, result, -, eq, plan, -⟩
    · exact ⟨tree ▸ h.ordered, plan ▸ h.distinct⟩
    · refine ⟨?_, plan ▸ AliasPlan.nodup_recordAll h.distinct⟩
      have replaced : (run.tree.replaceFile (base.append (.parse file))
          (prune tokens t).1 true).1.Ordered := h.ordered.replaceFile
      rwa [eq] at replaced
  · rwa [step_of_failure going]

theorem Sound.foldl (h : run.Sound) : (targets.foldl (PruneRun.step base true) run).Sound := by
  induction targets generalizing run with
  | nil => exact h
  | cons target targets ih => exact ih h.step

/-- **The plan after a step** that was not stopped has the deletions of the step, too. -/
theorem mem_planned_step (h : run.Sound)
    (going : (run.step base true (other, tokens)).failure = none) :
    token ∈ planned (run.step base true (other, tokens)).plan.removed file ↔
      token ∈ planned run.plan.removed file ∨
        file = other ∧ run.DeletesFrom base other tokens token := by
  have before : run.failure = none := by
    by_contra stopped
    rw [step_of_failure stopped] at going
    exact stopped going
  rcases step_cases before base other tokens with
    ⟨tree, plan, nothing⟩ | ⟨t, result, read, eq, plan, done⟩
  · -- nothing was found
    rw [plan]
    refine (or_iff_left ?_).symm
    rintro ⟨-, -, t, read, cut, -⟩
    have found := Prune.mem_prune.mpr cut
    rw [nothing t read] at found
    exact List.not_mem_nil found
  · rw [done going] at eq
    have written := FileTree.readText_replaceFile h.ordered eq
    rw [plan, AliasPlan.mem_planned_recordAll, Prune.mem_prune]
    refine or_congr_right (and_congr_right fun _ => ?_)
    constructor
    · intro cut
      exact ⟨before, t, read, cut, written⟩
    · rintro ⟨-, t', read', cut, -⟩
      obtain rfl := Except.ok.inj (read.symm.trans read')
      exact cut

/-- **The plan after several steps** lists what each of them deleted. -/
theorem mem_planned_foldl (h : run.Sound)
    (going : (targets.foldl (step base true) run).failure = none) :
    token ∈ planned (targets.foldl (step base true) run).plan.removed file ↔
      token ∈ planned run.plan.removed file ∨ ∃ earlier tokens later,
        targets = earlier ++ (file, tokens) :: later ∧
          (earlier.foldl (step base true) run).DeletesFrom base file tokens token := by
  -- The last step comes on top of all before it.
  induction targets using List.reverseRecOn with
  | nil => simp
  | append_singleton targets target ih =>
    obtain ⟨other, tokens⟩ := target
    rw [List.foldl_append, List.foldl_cons, List.foldl_nil] at going ⊢
    have before : (targets.foldl (step base true) run).failure = none := by
      by_contra stopped
      rw [step_of_failure stopped] at going
      exact stopped going
    rw [mem_planned_step h.foldl going, ih before, or_assoc]
    refine or_congr_right ⟨?_, ?_⟩
    · rintro (⟨earlier, found, later, rfl, deleted⟩ | ⟨rfl, deleted⟩)
      · exact ⟨earlier, found, later ++ [(other, tokens)], by simp, deleted⟩
      · exact ⟨targets, tokens, [], rfl, deleted⟩
    · rintro ⟨earlier, found, later, eq, deleted⟩
      rcases List.eq_nil_or_concat' later with rfl | ⟨later, last, rfl⟩
      · obtain ⟨rfl, last⟩ := List.append_inj' eq rfl
        obtain ⟨rfl, rfl⟩ := Prod.mk.inj (List.cons.inj last).1
        exact .inr ⟨rfl, deleted⟩
      · rw [← List.cons_append, ← List.append_assoc] at eq
        obtain ⟨rfl, -⟩ := List.append_inj' eq rfl
        exact .inl ⟨earlier, found, later, rfl, deleted⟩

/-! ## The whole run -/

variable {tree : FileTree} {groups : List Group}

/-- The run for the groups of a report deletes a declaration of the token from the file. -/
def Deletes (base : Path) (tree : FileTree) (groups : List Group) (file token : Text) : Prop :=
  ∃ earlier tokens later,
    Table.ofList (planRemovals groups) = earlier ++ (file, tokens) :: later ∧
      (earlier.foldl (step base true) { tree := tree }).DeletesFrom base file tokens token

/-- Only what the groups ask for is deleted. -/
theorem Deletes.planned (h : Deletes base tree groups file token) :
    token ∈ planned (planRemovals groups) file := by
  obtain ⟨earlier, tokens, later, eq, -, t, -, cut, -⟩ := h
  have nodup := nodup_planRemovals groups
  have entry : (file, tokens) ∈ Table.ofList (planRemovals groups) := by
    rw [eq]
    simp
  rw [StyleTokens.planned, (Entries.mem_iff_get? nodup).mp ((Table.mem_ofList nodup).mp entry)]
  exact cut.mem

theorem sound_ofGroups (ordered : tree.Ordered) : (ofGroups tree base true groups).Sound := by
  have start : Sound { tree := tree } := ⟨ordered, List.nodup_nil⟩
  exact start.foldl

/-- **The plan of a run that is not stopped** lists what the run deleted. -/
theorem mem_planned_ofGroups (ordered : tree.Ordered)
    (going : (ofGroups tree base true groups).failure = none) :
    token ∈ StyleTokens.planned (ofGroups tree base true groups).plan.removed file ↔
      Deletes base tree groups file token := by
  have start : Sound { tree := tree } := ⟨ordered, List.nodup_nil⟩
  rw [ofGroups, mem_planned_foldl start going]
  refine or_iff_right ?_
  exact List.not_mem_nil

end PruneRun

end StyleTokens
