import Mathlib.Tactic.Set
import StyleTokens.Command
import StyleTokens.Proofs.Action
import StyleTokens.Proofs.Prune.Record

/-!
# The exit code of pruning

The alias plan is written last, after all stylesheets. If the command ends with zero, the plan lists
exactly what was deleted. If it ends with one, the stylesheets may have been changed, but the plan
was not written: no file is new but its draft.

## Main definitions

* `PruneChoices.Reads`: the groups and the base that the command starts from
* `PruneEnd`: how the command ends
* `PruneChoices.Recorded`, `PruneChoices.Unrecorded`: whether the plan tells what was deleted

## Main results

* `loadReport_leaves`, `pruneTree_leaves`, `runPrune_leaves`: what the command and its parts leave
* `prune_records`: the exit code tells whether the plan lists what was deleted
-/

namespace StyleTokens

open StyleTokens.Action (Leaves leaves_pure leaves_throw leaves_tree leaves_setTree leaves_print
  leaves_warn leaves_ofExcept_of_ok leaves_ofExcept_of_error leaves_forM leaves_given leaves_shown
  leaves_store)

variable {tree : FileTree} {choices : PruneChoices}

/-! ## The parts of the command -/

/-- A report is not read, or its groups are those of its text. -/
theorem loadReport_leaves (path : Path) :
    (∃ failure, (loadReport path).Leaves tree (.error failure) tree) ∨
    ∃ t, tree.readLines path = .ok t ∧
      (loadReport path).Leaves tree (.ok (Report.read t)) tree := by
  cases there : tree.isFile path with
  | error refusal =>
    have asked : (Action.isFile path).Leaves tree (.error (.refused refusal)) tree :=
      leaves_tree.bind (leaves_ofExcept_of_error there)
    exact .inl ⟨_, asked.bind_error.bind_error⟩
  | ok isFile =>
    have asked : (Action.isFile path).Leaves tree (.ok isFile) tree :=
      leaves_tree.bind (leaves_ofExcept_of_ok there)
    cases isFile with
    | false => exact .inl ⟨_, (asked.bind leaves_throw.bind_error).bind_error⟩
    | true =>
      cases read : tree.readLines path with
      | error refusal =>
        left
        have failed : (readReport path).Leaves tree _ tree :=
          asked.bind (leaves_tree.bind (leaves_ofExcept_of_error read))
        exact ⟨_, failed.bind_error⟩
      | ok t =>
        right
        have found : (readReport path).Leaves tree (.ok t) tree :=
          asked.bind (leaves_tree.bind (leaves_ofExcept_of_ok read))
        exact ⟨t, rfl, found.bind ((leaves_forM (fun warning => leaves_warn _) _).bind leaves_pure)⟩

/-- A run over the files fails if it was stopped, and else gives its plan. -/
theorem pruneTree_leaves (surroundings : Surroundings) (base : Path) (write : Bool)
    (groups : List Group) :
    (∃ failure, (PruneRun.ofGroups tree base write groups).failure ≠ none ∧
      (pruneTree surroundings base write groups).Leaves tree (.error failure)
        (PruneRun.ofGroups tree base write groups).tree) ∨
    (PruneRun.ofGroups tree base write groups).failure = none ∧
      (pruneTree surroundings base write groups).Leaves tree
        (.ok ((PruneRun.ofGroups tree base write groups).plan,
          { changes := (PruneRun.ofGroups tree base write groups).changes,
            scanned := (planRemovals groups).length, written := write }))
        (PruneRun.ofGroups tree base write groups).tree := by
  cases stopped : (PruneRun.ofGroups tree base write groups).failure with
  | some refusal =>
    left
    refine ⟨.refused refusal, nofun, leaves_tree.bind (leaves_setTree.bind
      ((leaves_forM (fun notice => leaves_warn _) _).bind ?_))⟩
    rw [stopped]
    exact leaves_throw
  | none =>
    right
    refine ⟨rfl, leaves_tree.bind (leaves_setTree.bind
      ((leaves_forM (fun notice => leaves_warn _) _).bind ?_))⟩
    rw [stopped]
    exact leaves_pure

/-! ## How the command ends -/

/-- The groups of the report and the base, as they are chosen. -/
def PruneChoices.Reads (choices : PruneChoices) (tree : FileTree) (groups : List Group)
    (base : Path) : Prop :=
  ∃ report directory t, choices.report = some report ∧ choices.base = some directory ∧
    tree.readLines (.parse report) = .ok t ∧ groups = Report.read t ∧ base = .parse directory

/-- How the command ends: its exit code, and the tree that it leaves. -/
inductive PruneEnd (choices : PruneChoices) (tree : FileTree) : Nat → FileTree → Prop
  /-- There is nothing to start from. -/
  | unread : PruneEnd choices tree 1 tree
  /-- A stylesheet cannot be written. -/
  | stopped {groups : List Group} {base : Path} (reads : choices.Reads tree groups base) :
      PruneEnd choices tree 1 (PruneRun.ofGroups tree base choices.write groups).tree
  /-- The plan cannot be written. -/
  | refused {groups : List Group} {base : Path} {plan : Text} {refusal : Refusal}
      {left : FileTree} (reads : choices.Reads tree groups base) (chosen : choices.plan = some plan)
      (eq : (PruneRun.ofGroups tree base choices.write groups).tree.replaceFile (.parse plan)
        (PruneRun.ofGroups tree base choices.write groups).plan.json true =
          (left, .error refusal)) : PruneEnd choices tree 1 left
  /-- The plan is written. -/
  | done {groups : List Group} {base : Path} {plan : Text} {left : FileTree}
      (reads : choices.Reads tree groups base) (chosen : choices.plan = some plan)
      (going : (PruneRun.ofGroups tree base choices.write groups).failure = none)
      (eq : (PruneRun.ofGroups tree base choices.write groups).tree.replaceFile (.parse plan)
        (PruneRun.ofGroups tree base choices.write groups).plan.json true = (left, .ok ())) :
      PruneEnd choices tree 0 left

/-- **The command ends in one of these ways.** -/
theorem runPrune_leaves (surroundings : Surroundings) (choices : PruneChoices) (tree : FileTree) :
    ∃ code left, (runPrune surroundings choices).Leaves tree (.ok code) left ∧
      PruneEnd choices tree code left := by
  unfold runPrune
  cases report : choices.report with
  | none =>
    refine ⟨1, tree, ?_, .unread⟩
    apply Leaves.reported_error
    exact leaves_throw.bind_error
  | some reportPath =>
  -- Each case goes through the steps of the command up to the one that ends it.
  rcases loadReport_leaves (Path.parse reportPath) with ⟨failure, unread⟩ | ⟨t, read, loaded⟩
  · refine ⟨1, tree, ?_, .unread⟩
    apply Leaves.reported_error
    exact (leaves_given reportPath).bind unread.bind_error
  cases directory : choices.base with
  | none =>
    refine ⟨1, tree, ?_, .unread⟩
    apply Leaves.reported_error
    refine (leaves_given reportPath).bind (loaded.bind (Leaves.print_if ?_))
    exact leaves_throw.bind_error
  | some basePath =>
  have reads : choices.Reads tree (Report.read t) (.parse basePath) :=
    ⟨reportPath, basePath, t, report, directory, read, rfl, rfl⟩
  rcases pruneTree_leaves surroundings (.parse basePath) choices.write (Report.read t) with
    ⟨failure, -, pruned⟩ | ⟨going, pruned⟩
  · refine ⟨1, _, ?_, .stopped reads⟩
    apply Leaves.reported_error
    refine (leaves_given reportPath).bind (loaded.bind (Leaves.print_if ?_))
    exact (leaves_given basePath).bind pruned.bind_error
  cases chosen : choices.plan with
  | none =>
    refine ⟨1, _, ?_, .stopped reads⟩
    apply Leaves.reported_error
    refine (leaves_given reportPath).bind (loaded.bind (Leaves.print_if ?_))
    refine (leaves_given basePath).bind (pruned.bind ?_)
    exact leaves_throw.bind_error
  | some planPath =>
  set run := PruneRun.ofGroups tree (.parse basePath) choices.write (Report.read t)
  have stored : (Action.store (.parse planPath) run.plan.json).Leaves run.tree _ _ :=
    leaves_store _ _
  cases replaced : run.tree.replaceFile (.parse planPath) run.plan.json true with
  | mk left result =>
  rw [replaced] at stored
  cases result with
  | error refusal =>
    refine ⟨1, left, ?_, .refused reads chosen replaced⟩
    apply Leaves.reported_error
    refine (leaves_given reportPath).bind (loaded.bind (Leaves.print_if ?_))
    refine (leaves_given basePath).bind (pruned.bind ?_)
    exact (leaves_given planPath).bind stored.bind_error
  | ok done =>
    refine ⟨0, left, ?_, .done reads chosen going replaced⟩
    apply Leaves.reported
    refine (leaves_given reportPath).bind (loaded.bind (Leaves.print_if ?_))
    refine (leaves_given basePath).bind (pruned.bind ?_)
    refine (leaves_given planPath).bind (stored.bind ?_)
    refine (leaves_forM (fun line => leaves_print _) _).bind ?_
    refine (leaves_shown _).bind ?_
    refine (leaves_print _).bind ?_
    exact leaves_print _

/-! ## The record -/

namespace PruneChoices

/-- The document at the path of the plan lists exactly what was deleted. -/
def Recorded (choices : PruneChoices) (before after : FileTree) : Prop :=
  ∃ groups base plan members, choices.Reads before groups base ∧ choices.plan = some plan ∧
    after.readText (.parse plan) = .ok (Json.document (.object members)) ∧
    ∀ file token, PruneRun.Deletes base before groups file token ↔
      ∃ names, (file, Json.Value.ofTexts names) ∈ members ∧ token ∈ names

/-- The plan was not written: no file is new since the run over the stylesheets, or since the start
if there was none, but the draft of the plan. -/
def Unrecorded (choices : PruneChoices) (before after : FileTree) : Prop :=
  ∃ left, (left = before ∨ ∃ groups base, choices.Reads before groups base ∧
      left = (PruneRun.ofGroups before base true groups).tree) ∧
    ∀ place content, after.node? place = some (.file content) →
      left.node? place = some (.file content) ∨ ∃ plan, choices.plan = some plan ∧
        after.locate (FileTree.draftOf (.parse plan)) = .ok place

end PruneChoices

/-- An end with zero has its record, and no other end has one. -/
theorem PruneEnd.recorded {code : Nat} {left : FileTree} (h : PruneEnd choices tree code left)
    (write : choices.write = true) (ordered : tree.Ordered) :
    code = 0 ∧ choices.Recorded tree left ∨ code = 1 ∧ choices.Unrecorded tree left := by
  have sound : ∀ base groups, (PruneRun.ofGroups tree base true groups).Sound :=
    fun base groups => PruneRun.sound_ofGroups ordered
  cases h with
  | unread =>
    right
    exact ⟨rfl, tree, .inl rfl, fun place content file => .inl file⟩
  | stopped reads =>
    right
    rw [write]
    exact ⟨rfl, _, .inr ⟨_, _, reads, rfl⟩, fun place content file => .inl file⟩
  | refused reads chosen eq =>
    right
    rw [write] at eq
    refine ⟨rfl, _, .inr ⟨_, _, reads, rfl⟩, fun place content file => ?_⟩
    rcases FileTree.file_of_replaceFile_refused (sound _ _).ordered eq file with before | draft
    · exact .inl before
    · exact .inr ⟨_, chosen, draft⟩
  | @done groups base plan last reads chosen going eq =>
    left
    rw [write] at going eq
    have stored := FileTree.readText_replaceFile (sound base groups).ordered eq
    rw [AliasPlan.json_eq] at stored
    refine ⟨rfl, groups, base, plan, _, reads, chosen, stored, fun file token => ?_⟩
    -- the document lists what the plan does, and the plan what was deleted
    rw [← PruneRun.mem_planned_ofGroups ordered going]
    exact (AliasPlan.mem_members (sound base groups).distinct).symm

/-- **The exit code of pruning.** Where stylesheets may be written, the command ends with zero or
one. With zero, the document at the path of the plan lists exactly what was deleted. With one, the
plan was not written, whatever was deleted before. -/
theorem prune_records (surroundings : Surroundings) (arguments : List Text)
    (choices : PruneChoices) (world : World)
    (parsed : CommandLine.parse PruneChoices.options (.ofSettings surroundings.settings) arguments =
      .ok (.run choices))
    (write : choices.write = true) (ordered : world.tree.Ordered) :
    ∃ code world', (Command.run surroundings .prune arguments).outcome world = (.ok code, world') ∧
      (code = 0 ∧ choices.Recorded world.tree world'.tree ∨
        code = 1 ∧ choices.Unrecorded world.tree world'.tree) := by
  obtain ⟨code, left, leaves, ended⟩ := runPrune_leaves surroundings choices world.tree
  obtain ⟨world', outcome, rfl⟩ := leaves world rfl
  have launched : Command.run surroundings .prune arguments = runPrune surroundings choices := by
    simp only [Command.run, Command.launch, parsed]
  refine ⟨code, world', ?_, ended.recorded write ordered⟩
  rw [launched, outcome]

/-- The settings of the samples. -/
def sampleSurroundings : Surroundings where
  settings := { workers := 1 }

/-- The report of one property that three stylesheets declare. -/
def sampleReport : Text :=
  Text.joined ['\n'] (["## properties Duplicates", "### Token: --a", "Defined in:", "- a.scss",
    "- b.scss", "- c.scss", "Preferred source (auto-ranked): a.scss",
    "Disposition: merge"].map String.toList)

/-- The report and its stylesheets, with other entries behind these. -/
def sampleTree (others : List (List Text × Node)) : FileTree where
  working := ["work".toList]
  nodes :=
    [(["a.scss".toList], .file (.text ":root \x7b\n  --a: 1;\n\x7d\n".toList)),
     (["b.scss".toList], .file (.text ":root \x7b\n  --a: 2;\n\x7d\n".toList)),
     (["c.scss".toList], .file (.text ":root \x7b\n  --a: 3;\n\x7d\n".toList))] ++ others ++
    [(["report.md".toList], .file (.text sampleReport))]

/-- The words of a command line that prunes the samples. -/
def sampleArguments : List Text :=
  ["--write", "--report", "report.md", "--plan", "plan.json"].map String.toList

/-- What they choose. -/
def sampleChoices : PruneChoices where
  report := some "report.md".toList
  plan := some "plan.json".toList
  write := true

theorem prune_records_sample :
    ((Command.run sampleSurroundings .prune sampleArguments).outcome
        { tree := sampleTree [] }).1 = .ok 0 ∧
      ∃ code world', (Command.run sampleSurroundings .prune sampleArguments).outcome
          { tree := sampleTree [] } = (.ok code, world') ∧
        (code = 0 ∧ sampleChoices.Recorded (sampleTree []) world'.tree ∨
          code = 1 ∧ sampleChoices.Unrecorded (sampleTree []) world'.tree) := by
  refine ⟨by decide +kernel, ?_⟩
  exact prune_records sampleSurroundings sampleArguments sampleChoices { tree := sampleTree [] }
    rfl rfl (by decide)

/-- A directory stands where the draft of the last stylesheet goes. -/
def blockedTree : FileTree :=
  sampleTree [(["c.scss.tmp".toList], .directory)]

/-- The last stylesheet cannot be written: the one before it has lost its declaration, and there is
no plan. -/
theorem prune_records_blocked :
    CommandLine.parse PruneChoices.options (.ofSettings sampleSurroundings.settings)
        sampleArguments = .ok (.run sampleChoices) ∧
      blockedTree.Ordered ∧
      sampleChoices.Reads blockedTree (Report.read sampleReport) (.parse ".".toList) ∧
      PruneRun.Deletes (.parse ".".toList) blockedTree (Report.read sampleReport)
        "b.scss".toList "--a".toList ∧
      let outcome := (Command.run sampleSurroundings .prune sampleArguments).outcome
        { tree := blockedTree }
      outcome.1 = .ok 1 ∧
        outcome.2.tree.readText (.parse "b.scss".toList) = .ok ":root \x7b\n\x7d\n".toList ∧
        outcome.2.tree.readText (.parse "plan.json".toList) =
          .error (.notFound (.parse "plan.json".toList)) := by
  refine ⟨rfl, by decide, ?_, ?_, by decide +kernel, by decide +kernel, by decide +kernel⟩
  · exact ⟨_, _, sampleReport, rfl, rfl, by decide +kernel, rfl, rfl⟩
  · refine ⟨[], ["--a".toList], [("c.scss".toList, ["--a".toList])], by decide +kernel, rfl,
      ":root \x7b\n  --a: 2;\n\x7d\n".toList, by decide +kernel, ?_, by decide +kernel⟩
    exact ⟨[], [], rfl, by decide +kernel⟩

end StyleTokens
