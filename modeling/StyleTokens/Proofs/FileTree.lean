import Mathlib.Tactic.SplitIfs
import StyleTokens.FileTree
import StyleTokens.Proofs.Data.Ascending

/-!
# Replacing files

A file is replaced in steps: the directories above it are made, a draft is written beside its
place, and the draft is moved. Neither step takes a directory away, so a path that leads somewhere
leads there again, and a file that was replaced holds the new text. If a step is refused, no file
is new but the draft.

## Main definitions

* `FileTree.Ordered`: the entries stand in the order of their places
* `FileTree.Keeps`: a tree that keeps the directories of another one

## Main results

* `FileTree.Keeps.locate`: paths lead where they led
* `FileTree.replaceFile_cases`: what a replacement can do
* `FileTree.readText_replaceFile`: a file that was replaced holds the new text
* `FileTree.file_of_replaceFile_refused`: what a refused replacement leaves
-/

namespace StyleTokens.FileTree

variable {tree tree' : FileTree} {place other target : List Text} {node : Node}
  {content : Content} {path : Path} {t : Text} {storable : Bool} {refusal : Refusal}

/-! ## Entries -/

/-- The entries stand in the order of their places. -/
def Ordered (tree : FileTree) : Prop :=
  Table.Strict tree.nodes

instance : DecidablePred Ordered := fun tree =>
  inferInstanceAs (Decidable (tree.nodes.keys.Pairwise (· < ·)))

theorem Ordered.put (h : tree.Ordered) : (tree.put place node).Ordered :=
  Table.strict_insert h

theorem Ordered.erase (h : tree.Ordered) : (tree.erase place).Ordered :=
  Table.strict_erase h

theorem node?_put_self (below : isAbove place = false) :
    (tree.put place node).node? place = some node := by
  rw [node?, below]
  exact Table.find?_insert_self

theorem node?_put_of_ne (h : tree.Ordered) (ne : other ≠ place) :
    (tree.put place node).node? other = tree.node? other := by
  rw [node?, node?]
  split_ifs
  · rfl
  · exact Table.find?_insert_of_ne ne h

theorem node?_erase_self (h : tree.Ordered) (below : isAbove place = false) :
    (tree.erase place).node? place = none := by
  rw [node?, below]
  exact (Table.find?_erase h).trans (if_pos rfl)

theorem node?_erase_of_ne (h : tree.Ordered) (ne : other ≠ place) :
    (tree.erase place).node? other = tree.node? other := by
  rw [node?, node?]
  split_ifs
  · rfl
  · exact (Table.find?_erase h).trans (if_neg ne)

/-- The working directory and those above it are always there. -/
theorem isAbove_eq_false (free : tree.isDirectoryAt place = false) : isAbove place = false := by
  by_contra above
  rw [isDirectoryAt, node?, if_pos (by simpa using above)] at free
  simp at free

theorem isDirectoryAt_of_node? (h : tree.node? place = some (.file content)) :
    tree.isDirectoryAt place = false := by
  simp [isDirectoryAt, h]

/-! ## Directories that are kept -/

/-- A tree that keeps the directories of another one. -/
structure Keeps (tree tree' : FileTree) : Prop where
  working : tree'.working = tree.working
  directories : ∀ place, tree.isDirectoryAt place → tree'.isDirectoryAt place

namespace Keeps

theorem trans {last : FileTree} (h : tree.Keeps tree') (h' : tree'.Keeps last) :
    tree.Keeps last :=
  ⟨h'.working.trans h.working, fun place hp => h'.directories place (h.directories place hp)⟩

/-- An entry that is put where no directory is leaves the directories. -/
theorem put (h : tree.Ordered) (free : tree.isDirectoryAt place = false) :
    tree.Keeps (tree.put place node) := by
  refine ⟨rfl, fun other hd => ?_⟩
  have ne : other ≠ place := by
    rintro rfl
    simp [free] at hd
  rwa [isDirectoryAt, node?_put_of_ne h ne]

theorem erase (h : tree.Ordered) (free : tree.isDirectoryAt place = false) :
    tree.Keeps (tree.erase place) := by
  refine ⟨rfl, fun other hd => ?_⟩
  have ne : other ≠ place := by
    rintro rfl
    simp [free] at hd
  rwa [isDirectoryAt, node?_erase_of_ne h ne]

theorem follow (h : tree.Keeps tree') {segments : List Text}
    (found : tree.follow path place segments = .ok target) :
    tree'.follow path place segments = .ok target := by
  induction segments generalizing place with
  | nil => exact found
  | cons segment segments ih =>
    -- the path goes on from here, so this is a directory, and it still is
    cases here : tree.node? place with
    | none => simp [FileTree.follow, here] at found
    | some node =>
      cases node with
      | file content => simp [FileTree.follow, here] at found
      | directory =>
        have kept : tree'.node? place = some .directory := by
          have := h.directories place (by simp [isDirectoryAt, here])
          simpa [isDirectoryAt] using this
        simp only [FileTree.follow, here, kept] at found ⊢
        split_ifs at found ⊢
        · exact ih found
        · exact ih found

/-- **Paths lead where they led**, as long as no directory is taken away. -/
theorem locate (h : tree.Keeps tree') (found : tree.locate path = .ok target) :
    tree'.locate path = .ok target := by
  unfold FileTree.locate at found ⊢
  rw [h.working]
  split_ifs at found ⊢
  · split at found
    · exact h.follow found
    · exact h.follow found
  · exact h.follow found

end Keeps

theorem readText_of_locate (found : tree.locate path = .ok place)
    (here : tree.node? place = some (.file (.text t))) : tree.readText path = .ok t := by
  simp only [readText, lookup, found, bind, Except.bind, here]
  rfl

/-! ## Directories that are made -/

theorem makeDirectory_eq_ok (h : tree.makeDirectory path = .ok tree') :
    ∃ place, tree.node? place = none ∧ tree' = tree.put place .directory := by
  unfold makeDirectory at h
  cases found : tree.locate path with
  | error refusal =>
    rw [found] at h
    cases h
  | ok place =>
    simp only [found, bind, Except.bind] at h
    split_ifs at h with there
    cases h
    exact ⟨place, by simpa using there, rfl⟩

/-- What every single directory that is made preserves, all of them do. -/
theorem makeFrom_preserves {P : FileTree → Prop}
    (step : ∀ tree tree' path, P tree → makeDirectory tree path = .ok tree' → P tree')
    (root : Text) (segments : List Text) (h : P tree) : P (makeFrom root tree segments).1 := by
  induction segments generalizing tree with
  | nil =>
    rw [makeFrom]
    split
    next tree' made => exact step tree tree' _ h made
    · exact h
  | cons segment above ih =>
    rw [makeFrom]
    split
    next tree' made => exact step tree tree' _ h made
    · -- the directory above is missing
      have before := ih h
      split
      next left _ eq =>
        rw [eq] at before
        exact before
      next left eq =>
        rw [eq] at before
        split
        next tree' made => exact step left tree' _ before made
        · exact before
    · exact h

/-- Directories that are made leave the order, and no file is new. -/
theorem of_makeDirectories (h : tree.Ordered) (path : Path) :
    (tree.makeDirectories path).1.Ordered ∧ ∀ place content,
      (tree.makeDirectories path).1.node? place = some (.file content) →
        tree.node? place = some (.file content) := by
  refine makeFrom_preserves (P := fun left => left.Ordered ∧ ∀ place content,
    left.node? place = some (.file content) → tree.node? place = some (.file content))
    ?_ path.root path.segments.reverse ⟨h, fun _ _ same => same⟩
  rintro before after path ⟨ordered, files⟩ made
  obtain ⟨new, free, rfl⟩ := makeDirectory_eq_ok made
  refine ⟨ordered.put, fun place content file => ?_⟩
  by_cases here : place = new
  · -- a directory stands here now
    subst here
    have below : isAbove place = false := by
      by_contra above
      rw [node?, if_pos (by simpa using above)] at free
      cases free
    rw [node?_put_self below] at file
    cases file
  · rw [node?_put_of_ne ordered here] at file
    exact files place content file

/-! ## Drafts that are moved -/

theorem moveDraft_eq_ok {draft : List Text}
    (done : tree.moveDraft path draft t = (tree', .ok ())) :
    ∃ place, tree.locate path = .ok place ∧ tree.isDirectoryAt place = false ∧
      tree' = (tree.erase draft).put place (.file (.text t)) := by
  unfold moveDraft at done
  split_ifs at done
  · cases done
  · split at done
    · cases done
    next place found =>
      split_ifs at done with taken
      · cases done
      · exact ⟨place, found, by simpa using taken, (Prod.mk.inj done).1.symm⟩

theorem moveDraft_eq_error {draft : List Text}
    (refused : tree.moveDraft path draft t = (tree', .error refusal)) : tree' = tree := by
  unfold moveDraft at refused
  split_ifs at refused
  · exact (Prod.mk.inj refused).1.symm
  · split at refused
    · exact (Prod.mk.inj refused).1.symm
    · split_ifs at refused
      · exact (Prod.mk.inj refused).1.symm
      · cases refused

/-- A draft that is moved gives its text to the place that the path leads to. -/
theorem readText_moveDraft (h : tree.Ordered) {draft : List Text}
    (written : tree.node? draft = some (.file content))
    (done : tree.moveDraft path draft t = (tree', .ok ())) : tree'.readText path = .ok t := by
  obtain ⟨place, found, free, rfl⟩ := moveDraft_eq_ok done
  have below := isAbove_eq_false free
  have erased : tree.Keeps (tree.erase draft) :=
    .erase h (isDirectoryAt_of_node? written)
  have still : (tree.erase draft).isDirectoryAt place = false := by
    by_cases same : place = draft
    · simp [isDirectoryAt, same, node?_erase_self h (same ▸ below)]
    · rwa [isDirectoryAt, node?_erase_of_ne h same]
  exact readText_of_locate ((erased.trans (.put h.erase still)).locate found)
    (node?_put_self below)

/-! ## Files that are replaced -/

/-- The path of the draft of a file. -/
def draftOf (path : Path) : Path :=
  path.parent.child (draftName path.name)

theorem writeDraft_cases (tree : FileTree) (path : Path) (t : Text) (storable : Bool) :
    (∃ refusal, tree.writeDraft path t storable = (tree, .error refusal)) ∨
    ∃ draft, tree.locate (draftOf path) = .ok draft ∧ tree.isDirectoryAt draft = false ∧
      ((∃ refusal, tree.writeDraft path t storable =
          (tree.put draft (.file (.text [])), .error refusal)) ∨
        tree.writeDraft path t storable =
          (tree.put draft (.file (.text t))).moveDraft path draft t) := by
  unfold writeDraft
  cases found : tree.locate (draftOf path) with
  | error refusal =>
    refine .inl ⟨refusal, ?_⟩
    rw [draftOf] at found
    simp only [found]
  | ok draft =>
    rw [draftOf] at found
    simp only [found]
    split_ifs with taken
    · exact .inl ⟨_, rfl⟩
    · exact .inr ⟨draft, rfl, by simpa using taken, .inl ⟨_, rfl⟩⟩
    · exact .inr ⟨draft, rfl, by simpa using taken, .inr rfl⟩

/-- **What a replacement can do**: it stops before the draft, leaves an empty draft, or moves the
draft that it wrote. -/
theorem replaceFile_cases (h : tree.Ordered) (path : Path) (t : Text) (storable : Bool) :
    ∃ left : FileTree, left.Ordered ∧
      (∀ place content, left.node? place = some (.file content) →
        tree.node? place = some (.file content)) ∧
      ((∃ refusal, tree.replaceFile path t storable = (left, .error refusal)) ∨
      ∃ draft, left.locate (draftOf path) = .ok draft ∧ left.isDirectoryAt draft = false ∧
        ((∃ refusal, tree.replaceFile path t storable =
            (left.put draft (.file (.text [])), .error refusal)) ∨
          tree.replaceFile path t storable =
            (left.put draft (.file (.text t))).moveDraft path draft t)) := by
  obtain ⟨ordered, files⟩ := of_makeDirectories h path.parent
  refine ⟨(tree.makeDirectories path.parent).1, ordered, files, ?_⟩
  unfold replaceFile
  split
  next left refusal made =>
    rw [made]
    exact .inl ⟨refusal, rfl⟩
  next left made =>
    rw [made]
    split_ifs
    · exact .inl ⟨_, rfl⟩
    · exact writeDraft_cases left path t storable

theorem Ordered.replaceFile (h : tree.Ordered) :
    (tree.replaceFile path t storable).1.Ordered := by
  obtain ⟨left, ordered, -, ⟨refusal, eq⟩ | ⟨draft, -, -, ⟨refusal, eq⟩ | eq⟩⟩ :=
    replaceFile_cases h path t storable
  · rw [eq]
    exact ordered
  · rw [eq]
    exact ordered.put
  · -- the draft is moved, or stays where it was written
    rw [eq]
    cases moved : FileTree.moveDraft _ path draft t with
    | mk tree' result =>
      cases result with
      | error refusal =>
        rw [moveDraft_eq_error moved]
        exact ordered.put
      | ok done =>
        obtain ⟨place, -, -, rfl⟩ := moveDraft_eq_ok moved
        exact ordered.put.erase.put

/-- **A file that was replaced holds the new text.** -/
theorem readText_replaceFile (h : tree.Ordered)
    (done : tree.replaceFile path t storable = (tree', .ok ())) : tree'.readText path = .ok t := by
  obtain ⟨left, ordered, -, ⟨refusal, eq⟩ | ⟨draft, -, free, ⟨refusal, eq⟩ | eq⟩⟩ :=
    replaceFile_cases h path t storable
  · rw [eq] at done
    cases done
  · rw [eq] at done
    cases done
  · rw [eq] at done
    exact readText_moveDraft ordered.put (node?_put_self (isAbove_eq_false free)) done

/-- **What a refused replacement leaves**: no file is new, but the draft. -/
theorem file_of_replaceFile_refused (h : tree.Ordered)
    (refused : tree.replaceFile path t storable = (tree', .error refusal))
    (file : tree'.node? place = some (.file content)) :
    tree.node? place = some (.file content) ∨ tree'.locate (draftOf path) = .ok place := by
  obtain ⟨left, ordered, files, ⟨refusal, eq⟩ | ⟨draft, found, free, written⟩⟩ :=
    replaceFile_cases h path t storable
  · rw [eq] at refused
    obtain ⟨rfl, -⟩ := Prod.mk.inj refused
    exact .inl (files place content file)
  · -- a draft that was written stands where its path leads to, before and after
    have drafted : ∃ node, tree' = left.put draft node := by
      rcases written with ⟨refusal, eq⟩ | eq
      · rw [eq] at refused
        exact ⟨_, (Prod.mk.inj refused).1.symm⟩
      · rw [eq] at refused
        exact ⟨_, moveDraft_eq_error refused⟩
    obtain ⟨node, rfl⟩ := drafted
    by_cases here : place = draft
    · rw [here]
      exact .inr ((Keeps.put ordered free).locate found)
    · rw [node?_put_of_ne ordered here] at file
      exact .inl (files place content file)

end StyleTokens.FileTree
