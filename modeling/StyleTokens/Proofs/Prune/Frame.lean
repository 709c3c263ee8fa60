import StyleTokens.Proofs.FileTree.Edits
import StyleTokens.Proofs.Prune.Command
import StyleTokens.Proofs.Prune.Seams

/-!
# What pruning a tree leaves as it was

A run goes through the files that the groups of a report name. As long as nothing stops it, the
plan, the summary and the files tell the same: the files that change are those of the plan, each
loses the declarations of the tokens that the plan lists for it, and a run without leave to write
gives the same plan and the same summary, and changes nothing.

Two things stop a run, and then there is neither plan nor summary: a file whose path holds a null
character, and a file with something to delete whose name is so long that its draft can have none.
The second one does not stop a run without leave to write.

## Main definitions

* `PruneRun.found`, `PruneRun.findings`: the tokens that are found in the files
* `PruneRun.stop?`: what stops a run at a file
* `PruneRun.Passable`: nothing stops the run with leave to write

## Main results

* `PruneRun.step_eq`, `PruneRun.foldl_eq`: what a step and a run do if nothing stops them
* `PruneRun.failure_foldl_eq_none_iff`: when nothing stops a run
* `pruneTree_frame`: what pruning a tree changes, and what it leaves
-/

namespace StyleTokens

/-! ## Texts that lose declarations -/

namespace Rule

variable {α : Type} {rule : Rule α} {skip : Nat} {before : Option Char} {m : List (Char × Nat)}

/-- A hit takes a character away. -/
theorem length_keptFrom_lt
    (hit : (rule.piecesFrom skip before (m.map Prod.fst)).filterMap Piece.value? ≠ []) :
    (rule.keptFrom skip before m).length < m.length := by
  fun_induction keptFrom rule skip before m with
  | case1 => simp [piecesFrom] at hit
  | case2 skip _ x m ih => exact Nat.lt_succ_of_le keptFrom_sublist.length_le
  | case3 before x m h found ih => exact Nat.lt_succ_of_le keptFrom_sublist.length_le
  | case4 before x m left ih =>
    rw [List.map_cons, piecesFrom_plain left, List.filterMap_cons_none rfl] at hit
    exact Nat.succ_lt_succ (ih hit)

end Rule

namespace Prune

variable {tokens : List Text} {token t : Text}

theorem prune_sublist (tokens : List Text) (t : Text) : (prune tokens t).2.Sublist tokens := by
  induction tokens generalizing t with
  | nil => exact List.Sublist.refl []
  | cons token tokens ih =>
    rw [prune]
    split_ifs
    · exact (ih _).cons_cons token
    · exact (ih _).cons token

theorem length_prune_le (tokens : List Text) (t : Text) : (prune tokens t).1.length ≤ t.length := by
  -- the characters are numbered, as what is left of numbered ones is a sublist
  have left : (remaining tokens t.zipIdx).map Prod.fst = (prune tokens t).1 := by
    rw [map_fst_remaining, List.zipIdx_map_fst]
  have fewer : (remaining tokens t.zipIdx).length ≤ t.zipIdx.length := remaining_sublist.length_le
  rwa [← left, List.length_map, ← List.length_zipIdx (l := t)]

theorem length_without_lt (declared : declares token t) : (without token t).length < t.length := by
  have left : ((declarationRule token).keptFrom 0 none t.zipIdx).map Prod.fst =
      without token t := by
    rw [Rule.map_fst_keptFrom, List.zipIdx_map_fst]
    rfl
  rw [← left, List.length_map, ← List.length_zipIdx (l := t)]
  have counted : 0 < (declarationRule token).hitCount t := by simpa [declares] using declared
  refine Rule.length_keptFrom_lt ?_
  rw [List.zipIdx_map_fst]
  exact List.length_pos_iff.mp counted

/-- **A text in which a declaration is found gets shorter.** -/
theorem length_prune_lt (found : (prune tokens t).2 ≠ []) :
    (prune tokens t).1.length < t.length := by
  induction tokens generalizing t with
  | nil => exact absurd rfl found
  | cons token tokens ih =>
    rw [prune] at found ⊢
    dsimp only at found ⊢
    split_ifs at found with declared
    · exact (length_prune_le _ _).trans_lt (length_without_lt declared)
    · exact (ih found).trans_le (length_prune_le [token] t)

end Prune

/-! ## Plans that are recorded file by file -/

/-- The tokens of a new file are recorded as they are. -/
theorem AliasPlan.removed_recordAll {plan : AliasPlan} {path : Text} {tokens : List Text}
    (fresh : path ∉ plan.removed.map Prod.fst) (nodup : tokens.Nodup) (ne : tokens ≠ []) :
    (plan.recordAll path tokens).removed = plan.removed ++ [(path, tokens)] := by
  -- once the file stands in the plan, its tokens come behind those that are there
  have more : ∀ (tokens known : List Text), (known ++ tokens).Nodup →
      (recordAll ⟨plan.removed ++ [(path, known)]⟩ path tokens).removed =
        plan.removed ++ [(path, known ++ tokens)] := by
    intro tokens
    induction tokens with
    | nil => simp [recordAll]
    | cons token tokens ih =>
      intro known nodup
      have new : token ∉ known := fun mem =>
        List.disjoint_of_nodup_append nodup mem List.mem_cons_self
      have recorded : record ⟨plan.removed ++ [(path, known)]⟩ path token =
          ⟨plan.removed ++ [(path, known ++ [token])]⟩ := by
        rw [record, Entries.modify_concat fresh, Option.getD_some, addOnce,
          if_neg (by simpa using new)]
      have split : known ++ token :: tokens = known ++ [token] ++ tokens := by simp
      rw [split] at nodup ⊢
      rw [← ih (known ++ [token]) nodup, ← recorded]
      rfl
  obtain ⟨token, tokens, rfl⟩ := List.exists_cons_of_ne_nil ne
  have recorded : plan.record path token = ⟨plan.removed ++ [(path, [token])]⟩ := by
    rw [record, Entries.modify_of_notMem fresh]
    rfl
  rw [← List.singleton_append, ← more tokens [token] nodup, ← recorded]
  rfl

/-! ## Steps of a run -/

namespace PruneRun

open FileTree (hasRoom draftOf readText_eq_ok_iff readText_eq_error)

variable {base : Path} {write : Bool} {run : PruneRun} {tree : FileTree} {paths : List Path}
  {target : Text × List Text} {targets : List (Text × List Text)}

/-- The path of the file of a target. -/
def pathOf (base : Path) (target : Text × List Text) : Path :=
  base.append (.parse target.1)

/-- The tokens that are found in the file of a target. -/
def found (base : Path) (tree : FileTree) (target : Text × List Text) : List Text :=
  match tree.readText (pathOf base target) with
  | .ok t => (prune target.2 t).2
  | .error _ => []

/-- The text that a target gives to its file. -/
def newText (write : Bool) (target : Text × List Text) (t : Text) : Option Text :=
  if write && !(prune target.2 t).2.isEmpty then some (prune target.2 t).1 else none

/-- What stops a run at a target. -/
def stop? (base : Path) (write : Bool) (tree : FileTree) (target : Text × List Text) :
    Option Refusal :=
  if '\x00' ∈ (pathOf base target).text then some (.nullCharacter (pathOf base target))
  else if write && !(found base tree target).isEmpty && !hasRoom (pathOf base target) then
    some (.tooLong (draftOf (pathOf base target)))
  else none

/-- What is found in the files of some targets. -/
def findings (base : Path) (tree : FileTree) (targets : List (Text × List Text)) :
    Entries Text (List Text) :=
  (targets.map fun target => (target.1, found base tree target)).filter fun e => !e.2.isEmpty

/-- The change that is counted for what is found in a file. -/
def change (e : Text × List Text) : FileChange :=
  ⟨e.1, e.2.length⟩

theorem stop?_eq_none_iff : stop? base write tree target = none ↔
    '\x00' ∉ (pathOf base target).text ∧
      (write = true → found base tree target ≠ [] → hasRoom (pathOf base target)) := by
  by_cases null : '\x00' ∈ (pathOf base target).text
  · simp [stop?, null]
  · cases write <;> simp [stop?, null, imp_iff_not_or]

theorem found_congr {tree' : FileTree}
    (read : tree'.readText (pathOf base target) = tree.readText (pathOf base target)) :
    found base tree' target = found base tree target := by
  simp only [found, read]

theorem found_of_ok {t : Text} (read : tree.readText (pathOf base target) = .ok t) :
    found base tree target = (prune target.2 t).2 := by
  simp only [found, read]

theorem found_of_error {refusal : Refusal}
    (read : tree.readText (pathOf base target) = .error refusal) :
    found base tree target = [] := by
  simp only [found, read]

/-- The file of a target is given a text exactly if something is found in it and there is room. -/
theorem edit?_newText_eq_some_iff {place : List Text} {new : Text} :
    tree.edit? (newText true target) (pathOf base target) = some (place, new) ↔
      ∃ t, tree.locate (pathOf base target) = .ok place ∧
        tree.node? place = some (.file (.text t)) ∧ hasRoom (pathOf base target) ∧
        (prune target.2 t).2 ≠ [] ∧ (prune target.2 t).1 = new := by
  rw [FileTree.edit?_eq_some_iff]
  simp [newText]

/-- A file that cannot be read is passed over, unless its path holds a null character. -/
theorem step_of_error (write : Bool) (going : run.failure = none) {refusal : Refusal}
    (read : run.tree.readText (pathOf base target) = .error refusal) :
    run.step base write target =
      { run with notices := (run.step base write target).notices
                 failure := stop? base write run.tree target } := by
  have ended : stop? base write run.tree target =
      if '\x00' ∈ (pathOf base target).text then some (.nullCharacter (pathOf base target))
      else none := by
    simp [stop?, found_of_error read]
  rw [ended]
  rw [pathOf] at read
  rcases readText_eq_error read with ⟨rfl, null⟩ | ⟨whole, listed⟩
  · simp [step, going, read, pathOf, null]
  · simp only [List.mem_cons, List.not_mem_nil, or_false] at listed
    rcases listed with rfl | rfl | rfl | rfl | rfl <;> simp [step, going, read, pathOf, whole]

/-- A file in which something is found loses it, unless there is no room for its draft. -/
theorem step_of_found (write : Bool) (going : run.failure = none)
    (h : run.tree.Editable (pathOf base target :: paths)) {place : List Text} {t : Text}
    (located : run.tree.locate (pathOf base target) = .ok place)
    (here : run.tree.node? place = some (.file (.text t))) (some_found : (prune target.2 t).2 ≠ []) :
    run.step base write target =
      { tree := if write && hasRoom (pathOf base target) then
            run.tree.put place (.file (.text (prune target.2 t).1)) else run.tree
        plan := run.plan.recordAll target.1 (prune target.2 t).2
        changes := run.changes ++ [⟨target.1, (prune target.2 t).2.length⟩]
        notices := (run.step base write target).notices
        failure := if write && !hasRoom (pathOf base target) then
            some (.tooLong (draftOf (pathOf base target))) else none } := by
  have read := readText_eq_ok_iff.mpr ⟨place, located, here⟩
  have replaced := h.wellFormed.replaceFile_eq (t := (prune target.2 t).1) located here
    (h.free _ List.mem_cons_self)
  have something : (prune target.2 t).2.isEmpty = false := by simpa using some_found
  rw [pathOf] at read
  simp only [step, going, read, something, apply, Option.isSome_none, Bool.false_eq_true, if_false]
  cases write with
  | false => simp
  | true =>
    simp only [if_true]
    rw [← pathOf.eq_def base target, replaced]
    cases hasRoom (pathOf base target) with
    | false => simp
    | true => simp

/-- **One step**: the file loses what is found in it, unless that stops the run. -/
theorem step_eq (write : Bool) (going : run.failure = none)
    (h : run.tree.Editable (pathOf base target :: paths)) :
    run.step base write target =
      { tree := run.tree.edit (run.tree.edit? (newText write target) (pathOf base target)).toList
        plan := run.plan.recordAll target.1 (found base run.tree target)
        changes := run.changes ++ (findings base run.tree [target]).map change
        notices := (run.step base write target).notices
        failure := stop? base write run.tree target } := by
  cases read : run.tree.readText (pathOf base target) with
  | error refusal =>
    have nothing := found_of_error read
    have still : run.tree.edit? (newText write target) (pathOf base target) = none :=
      FileTree.edit?_eq_none_of_error read
    rw [step_of_error write going read, nothing, still]
    simp [findings, nothing, AliasPlan.recordAll]
  | ok t =>
    obtain ⟨place, located, here⟩ := readText_eq_ok_iff.mp read
    have whole : '\x00' ∉ (pathOf base target).text := (FileTree.locate_eq_ok_iff.mp located).1
    have these := found_of_ok read
    rcases eq_or_ne (prune target.2 t).2 [] with empty | some_found
    · have read' := read
      rw [pathOf] at read'
      simp [step, going, read', empty, these, findings, AliasPlan.recordAll, stop?, whole,
        FileTree.edit?, newText, located, read]
    · rw [step_of_found write going h located here some_found]
      have counted : findings base run.tree [target] = [(target.1, (prune target.2 t).2)] := by
        simp [findings, these, some_found]
      have edited : run.tree.edit? (newText write target) (pathOf base target) =
          if write && hasRoom (pathOf base target) then some (place, (prune target.2 t).1)
          else none := by
        simp only [FileTree.edit?, located, read, newText]
        cases write <;> cases hasRoom (pathOf base target) <;> simp [some_found]
      rw [counted, edited, these]
      cases write <;> cases room : hasRoom (pathOf base target) <;>
        simp [stop?, whole, these, some_found, change, room]

/-! ## Runs that nothing stops -/

theorem foldl_of_failure (stopped : run.failure ≠ none) :
    targets.foldl (step base write) run = run := by
  induction targets with
  | nil => rfl
  | cons target targets ih => rw [List.foldl_cons, step_of_failure stopped, ih]

/-- **When nothing stops a run**: each file is as it was before the run when it is its turn. -/
theorem failure_foldl_eq_none_iff (going : run.failure = none)
    (h : run.tree.Editable (targets.map (pathOf base))) :
    (targets.foldl (step base write) run).failure = none ↔
      ∀ target ∈ targets, stop? base write run.tree target = none := by
  induction targets generalizing run with
  | nil => simpa using going
  | cons target targets ih =>
    have stepped := step_eq write going h
    rw [List.foldl_cons, List.forall_mem_cons]
    cases stopped : stop? base write run.tree target with
    | some refusal =>
      -- a run that is stopped stays as it is to its end
      have failed : (run.step base write target).failure ≠ none := by
        rw [stepped, stopped]
        exact Option.some_ne_none refusal
      rw [foldl_of_failure failed]
      exact iff_of_false failed nofun
    | none =>
      have same : ∀ other ∈ targets,
          stop? base write (run.step base write target).tree other =
            stop? base write run.tree other := by
        intro other mem
        have read := h.readText_edit (newText write target) (List.mem_map_of_mem mem)
        rw [stepped]
        simp only [stop?, found_congr read]
      rw [ih (by rw [stepped, stopped]) (by rw [stepped]; exact h.edit _)]
      simp only [true_and]
      exact forall₂_congr fun other mem => by rw [same other mem]

theorem findings_cons (base : Path) (tree : FileTree) (target : Text × List Text)
    (targets : List (Text × List Text)) : findings base tree (target :: targets) =
      findings base tree [target] ++ findings base tree targets := by
  simp only [findings, ← List.filter_append, ← List.map_append, List.singleton_append]

theorem mem_findings {e : Text × List Text} : e ∈ findings base tree targets ↔
    ∃ target ∈ targets, e = (target.1, found base tree target) ∧ found base tree target ≠ [] := by
  simp only [findings, List.mem_filter, List.mem_map, Bool.not_eq_true', List.isEmpty_eq_false_iff]
  constructor
  · rintro ⟨⟨target, mem, rfl⟩, ne⟩
    exact ⟨target, mem, rfl, ne⟩
  · rintro ⟨target, mem, rfl, ne⟩
    exact ⟨⟨target, mem, rfl⟩, ne⟩

/-- What is found in a file that is not in the plan is recorded as it is. -/
theorem recordAll_found {plan : AliasPlan} (fresh : target.1 ∉ plan.removed.map Prod.fst)
    (nodup : target.2.Nodup) : plan.recordAll target.1 (found base tree target) =
      ⟨plan.removed ++ findings base tree [target]⟩ := by
  have once : (found base tree target).Nodup := by
    unfold found
    split
    · exact nodup.sublist (Prune.prune_sublist _ _)
    · exact List.nodup_nil
  rcases eq_or_ne (found base tree target) [] with nothing | ne
  · simp [findings, nothing, AliasPlan.recordAll]
  · rw [AliasPlan.mk.injEq, AliasPlan.removed_recordAll fresh once ne]
    simp [findings, ne]

/-- **A run that nothing stops**: the plan, the changes and the tree tell what was found. -/
theorem foldl_eq (going : run.failure = none) (h : run.tree.Editable (targets.map (pathOf base)))
    (passing : ∀ target ∈ targets, stop? base write run.tree target = none)
    (fresh : ∀ target ∈ targets, target.1 ∉ run.plan.removed.map Prod.fst)
    (distinct : (targets.map Prod.fst).Nodup) (nodup : ∀ target ∈ targets, target.2.Nodup) :
    targets.foldl (step base write) run =
      { tree := run.tree.rewritten (pathOf base) (newText write) targets
        plan := ⟨run.plan.removed ++ findings base run.tree targets⟩
        changes := run.changes ++ (findings base run.tree targets).map change
        notices := (targets.foldl (step base write) run).notices
        failure := none } := by
  induction targets generalizing run with
  | nil =>
    obtain ⟨tree, plan, changes, notices, failure⟩ := run
    cases going
    simp [findings, FileTree.rewritten]
  | cons target targets ih =>
    rw [List.forall_mem_cons] at passing fresh nodup
    rw [List.map_cons, List.nodup_cons] at distinct
    have stepped := step_eq write going h
    rw [recordAll_found fresh.1 nodup.1, passing.1] at stepped
    -- the files behind this one are as they were
    have same : ∀ other ∈ targets, found base (run.step base write target).tree other =
        found base run.tree other := by
      intro other mem
      rw [stepped]
      exact found_congr (h.readText_edit (newText write target) (List.mem_map_of_mem mem))
    have stops : ∀ other ∈ targets,
        stop? base write (run.step base write target).tree other = none := by
      intro other mem
      rw [stop?, same other mem]
      exact passing.2 other mem
    have behind : findings base (run.step base write target).tree targets =
        findings base run.tree targets := by
      rw [findings, findings, List.map_congr_left fun other mem => by rw [same other mem]]
    have others : ∀ other ∈ targets,
        other.1 ∉ (run.step base write target).plan.removed.map Prod.fst := by
      intro other mem listed
      rw [stepped, List.map_append, List.mem_append] at listed
      rcases listed with listed | listed
      · exact fresh.2 other mem listed
      · obtain ⟨e, listed, eq⟩ := List.mem_map.mp listed
        obtain ⟨_, only, rfl, -⟩ := mem_findings.mp listed
        rw [List.mem_singleton.mp only] at eq
        exact distinct.1 (eq ▸ List.mem_map_of_mem mem)
    have editable : (run.step base write target).tree.Editable (targets.map (pathOf base)) := by
      rw [stepped]
      exact h.edit _
    rw [List.foldl_cons, ih (by rw [stepped]) editable stops others distinct.2 nodup.2, behind,
      findings_cons, h.rewritten_cons, stepped]
    simp only [List.append_assoc, List.map_append]

/-- Without leave to write, a run leaves the tree as it was, whatever stops it. -/
theorem tree_foldl_false : (targets.foldl (step base false) run).tree = run.tree := by
  induction targets generalizing run with
  | nil => rfl
  | cons target targets ih =>
    rw [List.foldl_cons, ih]
    unfold step
    split_ifs
    · rfl
    · dsimp only
      split
      · rfl
      · rfl
      · split_ifs <;> rfl

/-! ## Runs for the groups of a report -/

variable {groups : List Group}

/-- Nothing stops a run with leave to write: no path holds a null character, and every file in which
something is found has room for its draft. -/
def Passable (base : Path) (tree : FileTree) (groups : List Group) : Prop :=
  ∀ target ∈ planRemovals groups, '\x00' ∉ (pathOf base target).text ∧
    (found base tree target ≠ [] → hasRoom (pathOf base target))

instance (base : Path) (tree : FileTree) (groups : List Group) :
    Decidable (Passable base tree groups) :=
  inferInstanceAs (Decidable (∀ _ ∈ _, _))

theorem mem_targets : target ∈ Table.ofList (planRemovals groups) ↔ target ∈ planRemovals groups :=
  Table.mem_ofList (nodup_planRemovals groups)

theorem nodup_targets (groups : List Group) :
    ((Table.ofList (planRemovals groups)).map Prod.fst).Nodup :=
  Ascending.Strict.nodup (Table.strict_ofList (planRemovals groups))

theorem passable_iff : Passable base tree groups ↔
    ∀ target ∈ Table.ofList (planRemovals groups), stop? base true tree target = none := by
  simp only [Passable, mem_targets, stop?_eq_none_iff, true_imp_iff]

/-- The files of the targets can be changed one after another. -/
theorem editable_targets (wellFormed : tree.WellFormed)
    (apart : ∀ target ∈ planRemovals groups, ∀ other ∈ planRemovals groups, target.1 ≠ other.1 →
      tree.Apart (pathOf base target) (pathOf base other))
    (free : ∀ target ∈ planRemovals groups, tree.DraftFree (pathOf base target)) :
    tree.Editable ((Table.ofList (planRemovals groups)).map (pathOf base)) where
  wellFormed := wellFormed
  apart := by
    refine List.pairwise_map.mpr ((List.pairwise_map.mp (nodup_targets groups)).imp_of_mem ?_)
    intro target other mem mem' ne
    exact apart target (mem_targets.mp mem) other (mem_targets.mp mem') ne
  free := by
    intro path listed
    obtain ⟨target, mem, rfl⟩ := List.mem_map.mp listed
    exact free target (mem_targets.mp mem)

/-- **A run for groups that nothing stops.** -/
theorem ofGroups_eq (write : Bool)
    (h : tree.Editable ((Table.ofList (planRemovals groups)).map (pathOf base)))
    (passing : ∀ target ∈ Table.ofList (planRemovals groups), stop? base write tree target = none) :
    ofGroups tree base write groups =
      { tree := tree.rewritten (pathOf base) (newText write) (Table.ofList (planRemovals groups))
        plan := ⟨findings base tree (Table.ofList (planRemovals groups))⟩
        changes := (findings base tree (Table.ofList (planRemovals groups))).map change
        notices := (ofGroups tree base write groups).notices
        failure := none } := by
  refine foldl_eq rfl h passing (fun _ _ => List.not_mem_nil) (nodup_targets groups) ?_
  rintro ⟨file, tokens⟩ mem
  rw [← planned_of_mem (nodup_planRemovals groups) (mem_targets.mp mem)]
  exact nodup_planned_planRemovals groups file

/-- What is found is what the files hold and the plan of the deletion asks for. -/
theorem exists_of_mem_findings {e : Text × List Text} (mem : e ∈ findings base tree targets) :
    ∃ tokens place t, (e.1, tokens) ∈ targets ∧ tree.locate (base.append (.parse e.1)) = .ok place ∧
      tree.node? place = some (.file (.text t)) ∧ (prune tokens t).2 = e.2 ∧ e.2 ≠ [] := by
  obtain ⟨⟨file, tokens⟩, listed, rfl, ne⟩ := mem_findings.mp mem
  cases read : tree.readText (pathOf base (file, tokens)) with
  | error refusal => simp [found, read] at ne
  | ok t =>
    obtain ⟨place, located, here⟩ := readText_eq_ok_iff.mp read
    exact ⟨tokens, place, t, listed, located, here, (found_of_ok read).symm, ne⟩

theorem nodup_findings (distinct : (targets.map Prod.fst).Nodup) :
    ((findings base tree targets).map Prod.fst).Nodup := by
  refine List.Nodup.sublist (List.filter_sublist.map Prod.fst) ?_
  rwa [List.map_map]

theorem rewritten_false : tree.rewritten (pathOf base) (newText false) targets = tree :=
  FileTree.rewritten_of_forall_none fun _ _ _ => rfl

/-- **The tree after a run** that nothing stops: the files in which something is found hold their
texts without it, and all other places hold what they held. -/
theorem node?_rewritten (h : tree.Editable (targets.map (pathOf base)))
    (passing : ∀ target ∈ targets, stop? base true tree target = none) :
    let after := tree.rewritten (pathOf base) (newText true) targets
    (∀ e ∈ findings base tree targets, ∃ tokens place t, (e.1, tokens) ∈ targets ∧
      tree.locate (base.append (.parse e.1)) = .ok place ∧
      tree.node? place = some (.file (.text t)) ∧ (prune tokens t).1 ≠ t ∧
      after.node? place = some (.file (.text (prune tokens t).1)) ∧ (prune tokens t).2 = e.2) ∧
    ∀ place, (∀ e ∈ findings base tree targets,
      tree.locate (base.append (.parse e.1)) ≠ .ok place) →
        after.node? place = tree.node? place := by
  refine ⟨fun e mem => ?_, fun place away => ?_⟩
  · obtain ⟨tokens, place, t, listed, located, here, these, ne⟩ := exists_of_mem_findings mem
    refine ⟨tokens, place, t, listed, located, here, fun same => ?_, ?_, these⟩
    · -- what is found takes a character away, so the text cannot be the same
      have shorter := Prune.length_prune_lt (these ▸ ne)
      rw [same] at shorter
      exact lt_irrefl _ shorter
    · have read : tree.readText (pathOf base (e.1, tokens)) = .ok t :=
        readText_eq_ok_iff.mpr ⟨place, located, here⟩
      have found_eq : found base tree (e.1, tokens) = e.2 := (found_of_ok read).trans these
      have room := (stop?_eq_none_iff.mp (passing _ listed)).2 rfl (found_eq ▸ ne)
      exact h.node?_rewritten listed
        (edit?_newText_eq_some_iff.mpr ⟨t, located, here, room, these ▸ ne, rfl⟩)
  · refine h.node?_rewritten_of_forall_ne fun target listed new edited => ?_
    obtain ⟨t, located, here, -, ne, -⟩ := edit?_newText_eq_some_iff.mp edited
    have these := found_of_ok (readText_eq_ok_iff.mpr ⟨place, located, here⟩)
    exact away _ (mem_findings.mpr ⟨target, listed, rfl, these ▸ ne⟩) located

end PruneRun

/-! ## The whole run -/

/-- A run that nothing stops gives what is found. -/
theorem pruneTree_leaves_of_passing (surroundings : Surroundings) {base : Path} {tree : FileTree}
    {groups : List Group} (write : Bool)
    (h : tree.Editable ((Table.ofList (planRemovals groups)).map (PruneRun.pathOf base)))
    (passing : ∀ target ∈ Table.ofList (planRemovals groups),
      PruneRun.stop? base write tree target = none) :
    let findings := PruneRun.findings base tree (Table.ofList (planRemovals groups))
    (pruneTree surroundings base write groups).Leaves tree
      (.ok (⟨findings⟩, { changes := findings.map PruneRun.change,
                          scanned := (planRemovals groups).length, written := write }))
      (tree.rewritten (PruneRun.pathOf base) (PruneRun.newText write)
        (Table.ofList (planRemovals groups))) := by
  intro findings
  have run := PruneRun.ofGroups_eq write h passing
  rcases pruneTree_leaves surroundings base write groups with ⟨-, stopped, -⟩ | ⟨-, leaves⟩
  · rw [run] at stopped
    exact absurd rfl stopped
  · rw [run] at leaves
    exact leaves

/-- **What pruning a tree changes, and what it leaves.** Without leave to write, no file changes.
With leave to write, a run gives a result exactly if nothing stops it. Then the run without leave to
write gives the same plan and the same changes; the files of the plan hold their texts without the
declarations of the tokens to be deleted, and all other files hold what they held; and every entry
of the plan comes from a group that is to be pruned, of which the file is a redundant one. -/
theorem pruneTree_frame (surroundings : Surroundings) (base : Path) (groups : List Group)
    (tree : FileTree) (wellFormed : tree.WellFormed)
    (apart : ∀ target ∈ planRemovals groups, ∀ other ∈ planRemovals groups, target.1 ≠ other.1 →
      tree.Apart (PruneRun.pathOf base target) (PruneRun.pathOf base other))
    (free : ∀ target ∈ planRemovals groups, tree.DraftFree (PruneRun.pathOf base target)) :
    let run := fun write => pruneTree surroundings base write groups
    let plan : AliasPlan := ⟨PruneRun.findings base tree (Table.ofList (planRemovals groups))⟩
    let summary := fun write => Summary.mk (plan.removed.map fun e => ⟨e.1, e.2.length⟩)
      (planRemovals groups).length write
    (∃ result, (run false).Leaves tree result tree) ∧
    (∃ result after, (run true).Leaves tree result after ∧
      (result.isOk ↔ PruneRun.Passable base tree groups)) ∧
    (PruneRun.Passable base tree groups → ∃ after,
      (run false).Leaves tree (.ok (plan, summary false)) tree ∧
      (run true).Leaves tree (.ok (plan, summary true)) after ∧
      (summary true).total = plan.size ∧ (plan.removed.map Prod.fst).Nodup ∧
      (∀ e ∈ plan.removed, ∃ tokens place t, (e.1, tokens) ∈ planRemovals groups ∧
        tree.locate (base.append (.parse e.1)) = .ok place ∧
        tree.node? place = some (.file (.text t)) ∧ (prune tokens t).1 ≠ t ∧
        after.node? place = some (.file (.text (prune tokens t).1)) ∧ (prune tokens t).2 = e.2) ∧
      (∀ place, (∀ e ∈ plan.removed, tree.locate (base.append (.parse e.1)) ≠ .ok place) →
        after.node? place = tree.node? place) ∧
      ∀ e ∈ plan.removed, ∀ name ∈ e.2, ∃ group ∈ groups, group.isActionable ∧
        group.representative = name ∧ e.1 ∈ group.files ∧ e.1 ≠ group.canonical) := by
  intro run plan summary
  have editable := PruneRun.editable_targets wellFormed apart free
  refine ⟨?_, ?_, fun passable => ?_⟩
  · have still : (PruneRun.ofGroups tree base false groups).tree = tree :=
      PruneRun.tree_foldl_false
    rcases pruneTree_leaves surroundings base false groups with ⟨_, -, leaves⟩ | ⟨-, leaves⟩
    · exact ⟨_, still ▸ leaves⟩
    · exact ⟨_, still ▸ leaves⟩
  · -- the loop is the only part that can fail: the summary only counts
    have goes : (PruneRun.ofGroups tree base true groups).failure = none ↔
        PruneRun.Passable base tree groups :=
      (PruneRun.failure_foldl_eq_none_iff rfl editable).trans PruneRun.passable_iff.symm
    rcases pruneTree_leaves surroundings base true groups with
      ⟨_, stopped, leaves⟩ | ⟨going, leaves⟩
    · exact ⟨_, _, leaves, iff_of_false nofun (mt goes.mpr stopped)⟩
    · exact ⟨_, _, leaves, iff_of_true rfl (goes.mp going)⟩
  · have passing := PruneRun.passable_iff.mp passable
    have dry := pruneTree_leaves_of_passing surroundings false editable fun target mem =>
      PruneRun.stop?_eq_none_iff.mpr ⟨(PruneRun.stop?_eq_none_iff.mp (passing target mem)).1, nofun⟩
    rw [PruneRun.rewritten_false] at dry
    obtain ⟨changed, others⟩ := PruneRun.node?_rewritten editable passing
    refine ⟨_, dry, pruneTree_leaves_of_passing surroundings true editable passing, ?_,
      PruneRun.nodup_findings (PruneRun.nodup_targets groups), ?_, others, ?_⟩
    · simp only [summary, Summary.total, AliasPlan.size, List.length_flatMap, List.sum_eq_foldl,
        List.foldl_map]
    · intro e mem
      obtain ⟨tokens, place, t, listed, rest⟩ := changed e mem
      exact ⟨tokens, place, t, PruneRun.mem_targets.mp listed, rest⟩
    · intro e mem name named
      obtain ⟨tokens, place, t, listed, -, -, these, -⟩ := PruneRun.exists_of_mem_findings mem
      have asked : name ∈ planned (planRemovals groups) e.1 := by
        rw [planned_of_mem (nodup_planRemovals groups) (PruneRun.mem_targets.mp listed)]
        exact (Prune.prune_sublist tokens t).subset (these ▸ named)
      obtain ⟨group, mem, actionable, redundant, rfl⟩ := mem_planRemovals.mp asked
      obtain ⟨inside, other⟩ := List.mem_filter.mp redundant
      exact ⟨group, mem, actionable, rfl, inside, by simpa using other⟩

/-- Stylesheets that declare the same property. -/
def declaringTree (names : List Text) : FileTree where
  working := ["work".toList]
  nodes := names.map fun name => ([name], .file (.text ":root \x7b\n  --a: 1;\n\x7d\n".toList))

/-- Of some stylesheets, only the first one is to keep its declaration. -/
def mergeGroup (names : List Text) : Group where
  kind := .property
  matchType := .exact
  names := ["--a".toList]
  files := names
  canonical := names.headD []
  disposition := .merge

/-- The deletions in some of the stylesheets. -/
def mergeRun (names : List Text) (write : Bool) : Action (AliasPlan × Summary) :=
  pruneTree { settings := { workers := 1 } } (.parse ".".toList) write [mergeGroup names]

theorem pruneTree_frame_declaring :
    let tree := declaringTree ["a.scss".toList, "b.scss".toList, "c.scss".toList]
    let names := ["a.scss".toList, "b.scss".toList]
    let changes := [FileChange.mk "b.scss".toList 1]
    PruneRun.Passable (.parse ".".toList) tree [mergeGroup names] ∧
    (mergeRun names false).Leaves tree
      (.ok (⟨[("b.scss".toList, ["--a".toList])]⟩, ⟨changes, 1, false⟩)) tree ∧
    ∃ after, (mergeRun names true).Leaves tree
        (.ok (⟨[("b.scss".toList, ["--a".toList])]⟩, ⟨changes, 1, true⟩)) after ∧
      after.node? ["c.scss".toList] = tree.node? ["c.scss".toList] := by
  intro tree names changes
  have passable : PruneRun.Passable (.parse ".".toList) tree [mergeGroup names] := by decide +kernel
  obtain ⟨-, -, passing⟩ := pruneTree_frame { settings := { workers := 1 } } (.parse ".".toList)
    [mergeGroup names] tree (by decide +kernel) (by decide +kernel) (by decide +kernel)
  obtain ⟨after, dry, wet, -, -, -, others, -⟩ := passing passable
  have findings : PruneRun.findings (.parse ".".toList) tree
      (Table.ofList (planRemovals [mergeGroup names])) = [("b.scss".toList, ["--a".toList])] := by
    decide +kernel
  have scanned : (planRemovals [mergeGroup names]).length = 1 := by decide +kernel
  rw [findings, scanned] at dry wet
  rw [findings] at others
  refine ⟨passable, dry, after, wet, others ["c.scss".toList] ?_⟩
  decide +kernel

/-- A name that has no room for a draft. -/
def longName : Text :=
  List.replicate 247 'z' ++ ".scss".toList

/-- A stylesheet with a very long name stops the run with leave to write after another one has lost
its declaration, and there is no plan; a path with a null character stops both runs. -/
theorem pruneTree_frame_stopped :
    let tree := declaringTree ["a.scss".toList, "b.scss".toList, longName]
    let names := ["a.scss".toList, "b.scss".toList, longName]
    let broken := ["a.scss".toList, "b.scss".toList, "c\x00.scss".toList]
    tree.WellFormed ∧
    (∀ files ∈ [names, broken], ∀ target ∈ planRemovals [mergeGroup files],
      tree.DraftFree (PruneRun.pathOf (.parse ".".toList) target) ∧
      ∀ other ∈ planRemovals [mergeGroup files], target.1 ≠ other.1 →
        tree.Apart (PruneRun.pathOf (.parse ".".toList) target)
          (PruneRun.pathOf (.parse ".".toList) other)) ∧
    ((mergeRun names false).outcome { tree := tree }).1 =
      .ok (⟨[("b.scss".toList, ["--a".toList]), (longName, ["--a".toList])]⟩,
        ⟨[⟨"b.scss".toList, 1⟩, ⟨longName, 1⟩], 2, false⟩) ∧
    ((mergeRun names true).outcome { tree := tree }).1 =
      .error (.refused (.tooLong ⟨[], [longName ++ ".tmp".toList]⟩)) ∧
    ((mergeRun names true).outcome { tree := tree }).2.tree.node? ["b.scss".toList] =
      some (.file (.text ":root \x7b\n\x7d\n".toList)) ∧
    ∀ write, ((mergeRun broken write).outcome { tree := tree }).1 =
      .error (.refused (.nullCharacter ⟨[], ["c\x00.scss".toList]⟩)) := by
  intro tree names broken
  exact ⟨by decide +kernel, by decide +kernel, by decide +kernel, by decide +kernel,
    by decide +kernel, by decide +kernel⟩

end StyleTokens
