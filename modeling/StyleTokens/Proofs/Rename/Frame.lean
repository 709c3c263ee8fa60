import StyleTokens.Proofs.Action
import StyleTokens.Proofs.FileTree.Edits
import StyleTokens.TreeRename

/-!
# What renaming in a tree leaves as it was

The renaming of a directory changes the texts of its stylesheets and nothing else: no entry comes or
goes, and the texts of protected files, of files without a name to be changed and of all others stay
as they are. Without leave to write nothing changes at all, and the changes that are counted are
those that would be made.

One kind of file makes the difference between counting and writing: a file whose name is so long
that its draft can have none. It is counted, but it cannot be written, and so it is left out with a
warning.

## Main definitions

* `RenameJob.result`, `RenameJob.newText`: what a job gives for a file and makes of its text
* `RenameJob.after`: the tree with the new texts of some files
* `RenameJob.changesIn`: the changes among some files
* `IsRenamed`: a stylesheet whose text a job changes

## Main results

* `RenameJob.onFiles_eq`: the files are changed one by one, each as if it were the only one
* `renameTree_frame`: what the renaming of a directory changes, and what it leaves
-/

namespace StyleTokens

open StyleTokens.Action (Leaves leaves_pure leaves_tree leaves_setTree leaves_warn
  leaves_ofExcept_of_ok leaves_forM)
open FileTree (Editable WellFormed IsUnder hasRoom draftOf readText_eq_ok_iff)

namespace RenameJob

variable {job : RenameJob} {tree : FileTree} {path : Path} {paths : List Path}

/-! ## One file -/

/-- Whether the text with its names changed can be stored, if it is to be: it is whole, or no new
name can make it otherwise. -/
def stores (job : RenameJob) (t : Text) : Bool :=
  !job.write || !job.mayBreak || (rename job.pairs t).1.isWhole

/-- Whether the job writes a file with the given text. -/
def writes (job : RenameJob) (t : Text) : Bool :=
  job.write && (rename job.pairs t).2 ≠ 0

/-- What the job gives for a file: the number of changes, or why there is none. -/
def result (job : RenameJob) (tree : FileTree) (path : Path) : Except Refusal Nat := do
  let t ← tree.readText path
  if job.writes t && !hasRoom path then .error (.tooLong (draftOf path))
  else return (rename job.pairs t).2

/-- The text that the job gives to a file with the given text. -/
def newText (job : RenameJob) (t : Text) : Option Text :=
  if job.writes t then some (rename job.pairs t).1 else none

/-- **One file**: its text is changed if it is to be written and can be. -/
theorem onFile_eq (h : tree.Editable (path :: paths))
    (storable : ∀ t, tree.readText path = .ok t → job.stores t) :
    job.onFile tree path =
      (tree.edit (tree.edit? job.newText path).toList, job.result tree path) := by
  cases read : tree.readText path with
  | error refusal =>
    simp [onFile, result, read, FileTree.edit?_eq_none_of_error read, bind, Except.bind]
  | ok t =>
    obtain ⟨place, found, here⟩ := readText_eq_ok_iff.mp read
    have replaced := h.wellFormed.replaceFile_eq (t := (rename job.pairs t).1) found here
      (h.free path List.mem_cons_self)
    have done : job.onFile tree path =
        if job.writes t then
          let replaced := tree.replaceFile path (rename job.pairs t).1
            (!job.mayBreak || (rename job.pairs t).1.isWhole)
          (replaced.1, replaced.2.map fun _ => (rename job.pairs t).2)
        else (tree, .ok (rename job.pairs t).2) := by
      simp only [onFile, read]
      rfl
    rw [done]
    simp only [result, FileTree.edit?, newText, read, found, bind, Except.bind]
    cases written : job.writes t with
    | false => simp [pure, Except.pure]
    | true =>
      -- only now does it matter whether the new text can be stored
      have stored : (!job.mayBreak || (rename job.pairs t).1.isWhole) = true := by
        have write : job.write = true := (Bool.and_eq_true_iff.mp written).1
        simpa [stores, write] using storable t read
      rw [stored, replaced]
      cases hasRoom path <;> simp [Except.map, pure, Except.pure]

/-! ## Several files -/

/-- The tree with the texts that the job gives to some files. -/
def after (job : RenameJob) (tree : FileTree) (paths : List Path) : FileTree :=
  tree.rewritten id (fun _ => job.newText) paths

/-- **Several files**: each is changed as if it were the only one. -/
theorem onFiles_eq (h : tree.Editable paths)
    (storable : ∀ path ∈ paths, ∀ t, tree.readText path = .ok t → job.stores t) :
    job.onFiles paths tree =
      (job.after tree paths, paths.map fun path => (path, job.result tree path)) := by
  induction paths generalizing tree with
  | nil => rfl
  | cons path paths ih =>
    rw [List.forall_mem_cons] at storable
    -- the other files are as they were before this one was changed
    have same : ∀ other ∈ paths,
        (tree.edit (tree.edit? job.newText path).toList).readText other = tree.readText other :=
      fun other mem => h.readText_edit job.newText mem
    have results : (paths.map fun other =>
        (other, job.result (tree.edit (tree.edit? job.newText path).toList) other)) =
        paths.map fun other => (other, job.result tree other) :=
      List.map_congr_left fun other mem => by simp only [result, same other mem]
    have whole : job.after tree (path :: paths) =
        job.after (tree.edit (tree.edit? job.newText path).toList) paths :=
      FileTree.Editable.rewritten_cons (by simpa using h)
    rw [onFiles, onFile_eq h storable.1]
    dsimp only
    rw [ih (h.edit job.newText) fun other mem t read =>
      storable.2 other mem t (same other mem ▸ read), results, whole, List.map_cons]

/-! ## What is told about the changes -/

/-- The changes among some files, in their order. -/
def changesIn (job : RenameJob) (tree : FileTree) (base : Path) (paths : List Path) :
    List FileChange :=
  paths.filterMap fun path =>
    match tree.readText path with
    | .ok t =>
      if (rename job.pairs t).2 = 0 then none
      else some ⟨path.relative tree.working base, (rename job.pairs t).2⟩
    | .error _ => none

/-- The results for some files, as they are told. -/
def told (job : RenameJob) (tree : FileTree) (base : Path) (paths : List Path) :
    List (Text × Except Refusal Nat) :=
  paths.map fun path => (path.relative tree.working base, job.result tree path)

/-- **The changes that are told**: with leave to write, those of the files whose drafts have
room, and without, all of them. -/
theorem changes_told {base : Path} : changes (job.told tree base paths) =
    job.changesIn tree base (paths.filter fun path => !job.write || hasRoom path) := by
  rw [changes, told, changesIn, List.filterMap_map, List.filterMap_filter]
  refine List.filterMap_congr fun path _ => ?_
  simp only [Function.comp_apply, result, writes, bind, Except.bind]
  cases tree.readText path with
  | error refusal => simp
  | ok t =>
    cases count : (rename job.pairs t).2 with
    | zero => simp [count, pure, Except.pure]
    | succ n =>
      rcases Bool.eq_false_or_eq_true job.write with written | written <;>
        rcases Bool.eq_false_or_eq_true (hasRoom path) with room | room <;>
        simp [count, written, room, pure, Except.pure]

/-- No result ends the run. -/
theorem findSome?_told {base : Path} :
    (job.told tree base paths).findSome? (fun (_, result) => fatal? result) = none := by
  rw [told, List.findSome?_map, List.findSome?_eq_none_iff]
  intro path _
  simp only [Function.comp_apply, result, bind, Except.bind]
  cases read : tree.readText path with
  | error refusal =>
    cases refusal with
    | noEncoding other => simpa using FileTree.readText_eq_error read
    | _ => rfl
  | ok t =>
    dsimp only
    split_ifs <;> rfl

end RenameJob

/-! ## The whole run -/

variable {job : RenameJob} {root : Path} {endings protectedDirectories : List Text}
  {tree : FileTree} {start : List Text}

/-- The files that a run works on can be given other texts one after another. -/
theorem FileTree.WellFormed.editable_unprotected (h : tree.WellFormed)
    (there : tree.locate root = .ok start)
    (free : ∀ path ∈ tree.walk root endings, tree.DraftFree path) :
    tree.Editable (tree.unprotected root endings protectedDirectories) where
  wellFormed := h
  apart := (h.pairwise_walk there).sublist List.filter_sublist
  free := fun path mem => free path (List.mem_filter.mp mem).1

/-- What the renaming of a directory gives and leaves. -/
theorem renameTree_leaves (surroundings : Surroundings) (job : RenameJob) (base : Path)
    (there : tree.isDirectory root = .ok true)
    (h : tree.Editable (tree.unprotected root endings protectedDirectories))
    (storable : ∀ path ∈ tree.unprotected root endings protectedDirectories, ∀ t,
      tree.readText path = .ok t → job.stores t) :
    (renameTree surroundings job root base endings protectedDirectories).Leaves tree
      (.ok { changes := job.changesIn tree base
               ((tree.unprotected root endings protectedDirectories).filter fun path =>
                 !job.write || hasRoom path)
             scanned := (tree.unprotected root endings protectedDirectories).length
             written := job.write })
      (job.after tree (tree.unprotected root endings protectedDirectories)) := by
  have asked : (Action.isDirectory root).Leaves tree (.ok true) tree :=
    leaves_tree.bind (leaves_ofExcept_of_ok there)
  have shown : ((tree.unprotected root endings protectedDirectories).map fun path =>
      (path.relative tree.working base, job.result tree path)) =
      job.told tree base (tree.unprotected root endings protectedDirectories) := rfl
  refine leaves_tree.bind (asked.bind ?_)
  -- the refusals that are left are told as warnings, and none of them ends the run
  simp only [Bool.not_true, Bool.false_eq_true, if_false, RenameJob.onFiles_eq h storable,
    List.map_map, Function.comp_def, shown, RenameJob.findSome?_told, RenameJob.changes_told]
  refine leaves_setTree.bind ((leaves_forM (fun message => leaves_warn message) _).bind ?_)
  split_ifs
  · exact (leaves_warn _).bind leaves_pure
  · exact leaves_pure

/-- The text of a stylesheet that a job changes, with the segments behind those of the
directory. -/
structure IsRenamed (pairs : List (Text × Text)) (tree : FileTree) (root : Path)
    (endings protectedDirectories start rest : List Text) (t : Text) : Prop where
  under : tree.IsUnder start endings rest (.text t)
  unprotected : (root.below rest).isProtected root protectedDirectories = false
  counted : (rename pairs t).2 ≠ 0
  room : hasRoom (root.below rest)

namespace RenameJob

/-- Without leave to write, no file is given a text. -/
theorem after_of_not_write (readOnly : job.write = false) (paths : List Path) :
    job.after tree paths = tree :=
  FileTree.rewritten_of_forall_none fun _ _ t => by simp [newText, writes, readOnly]

/-- With leave to write, the files that are given texts are those that are reached. -/
theorem edit?_unprotected (h : tree.WellFormed) (there : tree.locate root = .ok start)
    (write : job.write = true) {place : List Text} {new : Text} :
    (∃ path ∈ tree.unprotected root endings protectedDirectories,
        tree.edit? job.newText path = some (place, new)) ↔
      ∃ rest t, IsRenamed job.pairs tree root endings protectedDirectories start rest t ∧
        place = start ++ rest ∧ new = (rename job.pairs t).1 := by
  constructor
  · rintro ⟨path, mem, edited⟩
    obtain ⟨t, located, here, room, given⟩ := FileTree.edit?_eq_some_iff.mp edited
    obtain ⟨walked, unprotected⟩ := List.mem_filter.mp mem
    obtain ⟨rest, content, under, rfl⟩ := (h.mem_walk there).mp walked
    -- the walk tells where the file stands, and the edit where its path leads to
    have reached := h.locate_below there (h.mem_of_node?_file under.file) under.ne under.inside
      (FileTree.locate_eq_ok_iff.mp located).2.1
    obtain rfl := Except.ok.inj (reached.symm.trans located)
    obtain rfl : content = .text t := by simpa using under.file.symm.trans here
    simp only [newText, writes, write, Bool.true_and, decide_eq_true_eq,
      Option.ite_none_right_eq_some, Option.some.injEq] at given
    exact ⟨rest, t, ⟨under, by simpa using unprotected, given.1, room⟩, rfl, given.2.symm⟩
  · rintro ⟨rest, t, reached, rfl, rfl⟩
    have walked := (h.mem_walk there).mpr ⟨rest, _, reached.under, rfl⟩
    have located := h.locate_below there (h.mem_of_node?_file reached.under.file) reached.under.ne
      reached.under.inside (FileTree.short_of_hasRoom (by simp [reached.under.ne]) reached.room)
    refine ⟨root.below rest, List.mem_filter.mpr ⟨walked, by simp [reached.unprotected]⟩,
      FileTree.edit?_eq_some_iff.mpr ⟨t, located, reached.under.file, reached.room, ?_⟩⟩
    simp [newText, writes, write, reached.counted]

/-- **The tree with the new texts**: the stylesheets that are reached hold theirs, and all other
places hold what they held. -/
theorem node?_after (job : RenameJob)
    (h : tree.Editable (tree.unprotected root endings protectedDirectories))
    (there : tree.locate root = .ok start) (write : job.write = true) :
    let after := job.after tree (tree.unprotected root endings protectedDirectories)
    (∀ rest t, IsRenamed job.pairs tree root endings protectedDirectories start rest t →
      after.node? (start ++ rest) = some (.file (.text (rename job.pairs t).1))) ∧
    ∀ place, (∀ rest t, IsRenamed job.pairs tree root endings protectedDirectories start rest t →
      place ≠ start ++ rest) → after.node? place = tree.node? place := by
  have h' : tree.Editable ((tree.unprotected root endings protectedDirectories).map id) := by
    rwa [List.map_id]
  refine ⟨fun rest t reached => ?_, fun place away => ?_⟩
  · obtain ⟨path, mem, edited⟩ := (edit?_unprotected h.wellFormed there write).mpr
      ⟨rest, t, reached, rfl, rfl⟩
    exact h'.node?_rewritten mem edited
  · refine h'.node?_rewritten_of_forall_ne fun path mem new edited => ?_
    obtain ⟨rest, t, reached, eq, -⟩ := (edit?_unprotected h.wellFormed there write).mp
      ⟨path, mem, edited⟩
    exact away rest t reached eq

end RenameJob

/-- **What the renaming of a directory changes, and what it leaves.** Without leave to write, no
file changes, and the changes of all files are counted that are not protected. With leave to write,
every stylesheet under the directory that is not protected, has a name to be changed and has room
for its draft holds its text with the names changed; all other files hold what they held, no entry
comes or goes, and the changes of the same files are counted, but for those without room. -/
theorem renameTree_frame (surroundings : Surroundings) (job : RenameJob) (root base : Path)
    (endings protectedDirectories : List Text) (tree : FileTree) (start : List Text)
    (wellFormed : tree.WellFormed) (there : tree.locate root = .ok start)
    (directory : tree.isDirectoryAt start)
    (free : ∀ path ∈ tree.walk root endings, tree.DraftFree path) :
    let paths := tree.unprotected root endings protectedDirectories
    let run := fun write => renameTree surroundings { job with write := write } root base endings
      protectedDirectories
    (run false).Leaves tree
        (.ok { changes := job.changesIn tree base paths, scanned := paths.length,
               written := false }) tree ∧
      ((∀ path ∈ paths, ∀ t, tree.readText path = .ok t → { job with write := true }.stores t) →
        ∃ after, (run true).Leaves tree
            (.ok { changes := job.changesIn tree base (paths.filter fun path => hasRoom path),
                   scanned := paths.length, written := true }) after ∧
          (∀ rest t, IsRenamed job.pairs tree root endings protectedDirectories start rest t →
            after.node? (start ++ rest) = some (.file (.text (rename job.pairs t).1))) ∧
          (∀ place, (∀ rest t,
              IsRenamed job.pairs tree root endings protectedDirectories start rest t →
                place ≠ start ++ rest) → after.node? place = tree.node? place) ∧
          ∀ place, (after.node? place).isSome = (tree.node? place).isSome) := by
  intro paths run
  have asked : tree.isDirectory root = .ok true := by
    have here : tree.node? start = some .directory := by
      simpa [FileTree.isDirectoryAt] using directory
    simp [FileTree.isDirectory, FileTree.holds, FileTree.lookup, there, bind, Except.bind, here,
      pure, Except.pure]
  have editable : tree.Editable paths := wellFormed.editable_unprotected there free
  constructor
  · have leaves := renameTree_leaves surroundings { job with write := false } base asked editable
      fun path mem t read => rfl
    simp only [Bool.not_false, Bool.true_or, List.filter_true,
      RenameJob.after_of_not_write] at leaves
    exact leaves
  · intro storable
    have leaves := renameTree_leaves surroundings { job with write := true } base asked editable
      storable
    obtain ⟨renamed, others⟩ := { job with write := true }.node?_after editable there rfl
    refine ⟨_, leaves, renamed, others, fun place => ?_⟩
    exact FileTree.Editable.isSome_node?_rewritten (by rwa [List.map_id]) place

/-- A stylesheet in a directory for sources, with other entries in front of it. -/
def sourceTree (others : List (List Text × Node)) (name : Text) : FileTree where
  working := ["work".toList]
  nodes := [(["src".toList], .directory)] ++ others ++
    [(["src".toList, name], .file (.text ":root \x7b --a: 1; \x7d\n".toList))]

/-- One name becomes another one. -/
def accentJob : RenameJob where
  pairs := [("--a".toList, "--b".toList)]

/-- The renaming in the directory for sources. -/
def accentRun (write : Bool) : Action Summary :=
  renameTree { settings := { workers := 1 } } { accentJob with write := write }
    (.parse "src".toList) (.parse ".".toList) stylesheetEndings ["vendor".toList]

/-- A stylesheet beside a file that holds no text, one that is no stylesheet and a protected one. -/
def mixedTree : FileTree :=
  sourceTree [(["src".toList, "b.css".toList], .file (.binary [255])),
    (["src".toList, "c.txt".toList], .file (.text "--a".toList)),
    (["src".toList, "vendor".toList], .directory),
    (["src".toList, "vendor".toList, "d.css".toList], .file (.text "--a".toList))] "z.scss".toList

theorem renameTree_frame_mixed :
    mixedTree.WellFormed ∧
    (∀ path ∈ mixedTree.walk (.parse "src".toList) stylesheetEndings, mixedTree.DraftFree path) ∧
    (accentRun false).Leaves mixedTree
      (.ok { changes := [⟨"src/z.scss".toList, 1⟩], scanned := 2, written := false }) mixedTree ∧
    ∃ after, (accentRun true).Leaves mixedTree
        (.ok { changes := [⟨"src/z.scss".toList, 1⟩], scanned := 2, written := true }) after ∧
      after.node? ["src".toList, "z.scss".toList] =
        some (.file (.text ":root \x7b --b: 1; \x7d\n".toList)) := by
  have wellFormed : mixedTree.WellFormed := by decide +kernel
  have free : ∀ path ∈ mixedTree.walk (.parse "src".toList) stylesheetEndings,
      mixedTree.DraftFree path := by decide +kernel
  obtain ⟨dry, wet⟩ := renameTree_frame { settings := { workers := 1 } } accentJob
    (.parse "src".toList) (.parse ".".toList) stylesheetEndings ["vendor".toList]
    mixedTree ["src".toList] wellFormed (by decide +kernel) (by decide +kernel) free
  obtain ⟨after, written, reached, -⟩ := wet fun path _ t _ => rfl
  have paths : mixedTree.unprotected (.parse "src".toList) stylesheetEndings ["vendor".toList] =
      [.parse "src/b.css".toList, .parse "src/z.scss".toList] := by decide +kernel
  have room : ([.parse "src/b.css".toList, .parse "src/z.scss".toList].filter fun path =>
      hasRoom path) = [.parse "src/b.css".toList, .parse "src/z.scss".toList] := by decide +kernel
  have changes : accentJob.changesIn mixedTree (.parse ".".toList)
      [.parse "src/b.css".toList, .parse "src/z.scss".toList] = [⟨"src/z.scss".toList, 1⟩] := by
    decide +kernel
  have renamed : (rename accentJob.pairs ":root \x7b --a: 1; \x7d\n".toList).1 =
      ":root \x7b --b: 1; \x7d\n".toList := by decide +kernel
  rw [paths, changes] at dry
  rw [paths, room, changes] at written
  refine ⟨wellFormed, free, dry, after, written, ?_⟩
  rw [← renamed]
  exact reached ["z.scss".toList] ":root \x7b --a: 1; \x7d\n".toList
    ⟨⟨by decide +kernel, by decide, by decide, by decide⟩, by decide +kernel, by decide +kernel,
      by decide +kernel⟩

/-- A stylesheet whose name has no room for its draft. -/
def longNamedTree : FileTree :=
  sourceTree [] (List.replicate 247 'a' ++ ".scss".toList)

/-- A stylesheet with a very long name is counted, but its text stays as it was. -/
theorem renameTree_frame_longNamed :
    longNamedTree.WellFormed ∧
    (∀ path ∈ longNamedTree.walk (.parse "src".toList) stylesheetEndings,
      longNamedTree.DraftFree path) ∧
    ((accentRun false).outcome { tree := longNamedTree }).1 =
      .ok { changes := [⟨"src/".toList ++ List.replicate 247 'a' ++ ".scss".toList, 1⟩]
            scanned := 1, written := false } ∧
    ((accentRun true).outcome { tree := longNamedTree }).1 =
      .ok { changes := [], scanned := 1, written := true } ∧
    ((accentRun true).outcome { tree := longNamedTree }).2.tree = longNamedTree ∧
    (rename accentJob.pairs ":root \x7b --a: 1; \x7d\n".toList).2 = 1 := by
  refine ⟨by decide +kernel, by decide +kernel, by decide +kernel, by decide +kernel,
    by decide +kernel, by decide +kernel⟩

end StyleTokens
