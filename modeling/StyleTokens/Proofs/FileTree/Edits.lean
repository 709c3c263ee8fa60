import StyleTokens.Proofs.FileTree.Places

/-!
# Other texts in the same files

A file that is there can be given another text, unless its draft is in the way or has no room: the
name of the draft is longer than that of the file, and so is its path. Where there is room, nothing
else changes: all paths lead where they led, and all other files hold what they held. Where there is
none, nothing changes at all.

## Main definitions

* `FileTree.hasRoom`: whether the draft of a file can have a path
* `FileTree.DraftFree`: nothing stands where the draft of a file goes
* `FileTree.edit`: a tree with other texts in some of its files
* `FileTree.edit?`, `FileTree.rewritten`: the files with the texts that a function gives for theirs
* `FileTree.Editable`: files that can be given other texts one after another

## Main results

* `FileTree.readText_eq_error`: why a path reads no text
* `FileTree.WellFormed.replaceFile_eq`: a file that is there is given another text
* `FileTree.Editable.edit`, `FileTree.Editable.rewritten_cons`: one file after another
* `FileTree.Editable.node?_rewritten`, `FileTree.Editable.node?_rewritten_of_forall_ne`: what the
  files hold
* `FileTree.Editable.isSome_node?_rewritten`: no entry comes or goes
-/

namespace StyleTokens

/-! ## Tables -/

/-- An entry that was not there is taken away again. -/
theorem Table.erase_insert {κ α : Type} [LT κ] [DecidableLT κ] [IsStrictTotalOrder κ (· < ·)]
    {k : κ} {v : α} {table : Table κ α} (fresh : table.find? k = none) :
    (table.insert k v).erase k = table := by
  induction table with
  | nil => rw [insert, erase, if_neg (lt_irrefl k), if_neg (lt_irrefl k)]
  | cons e table ih =>
    rw [find?] at fresh
    rw [insert]
    split_ifs at fresh ⊢ with below above
    · rw [erase, if_neg (lt_irrefl k), if_neg (lt_irrefl k)]
    · rw [erase, if_neg below, if_pos above, ih fresh]

/-! ## Texts and their size -/

theorem Text.byteSize_append (t u : Text) : Text.byteSize (t ++ u) = t.byteSize + u.byteSize := by
  rw [Text.byteSize, List.flatMap_append, List.length_append]
  rfl

namespace FileTree

variable {tree : FileTree} {place other target : List Text} {node : Node}
  {content new : Content} {path : Path} {t : Text} {segments : List Text}

/-! ## What a path reads -/

theorem readText_eq_ok_iff : tree.readText path = .ok t ↔
    ∃ place, tree.locate path = .ok place ∧ tree.node? place = some (.file (.text t)) := by
  constructor
  · intro read
    simp only [readText, lookup, bind, Except.bind] at read
    cases found : tree.locate path with
    | error refusal => simp [found] at read
    | ok place =>
      refine ⟨place, rfl, ?_⟩
      simp only [found] at read
      cases here : tree.node? place with
      | none => simp [here] at read
      | some node =>
        simp only [here] at read
        rcases node with _ | ⟨_ | _⟩
        · simp [pure, Except.pure] at read
        · simp_all [pure, Except.pure]
        · simp [pure, Except.pure] at read
  · rintro ⟨place, found, here⟩
    exact readText_of_locate found here

/-- What a path reads depends on where it leads and on what is there. -/
theorem readText_congr {tree' : FileTree} (same : tree'.locate path = tree.locate path)
    (here : ∀ place, tree.locate path = .ok place → tree'.node? place = tree.node? place) :
    tree'.readText path = tree.readText path := by
  simp only [readText, lookup, bind, Except.bind, same]
  cases found : tree.locate path with
  | error refusal => rfl
  | ok place => simp only [here place found]

/-- Why there is no way through a tree. -/
theorem follow_eq_error {refusal : Refusal}
    (lost : tree.follow path place segments = .error refusal) :
    refusal = .notFound path ∨ refusal = .notDirectory path ∨ refusal = .tooLong path := by
  induction segments generalizing place with
  | nil => cases lost
  | cons segment segments ih =>
    unfold follow at lost
    split at lost
    · cases lost
      simp
    · cases lost
      simp
    · split_ifs at lost
      · exact ih lost
      · cases lost
        simp
      · exact ih lost

/-- **Why a path reads no text**: it holds a null character, or the tree has no text for it. -/
theorem readText_eq_error {refusal : Refusal} (unread : tree.readText path = .error refusal) :
    refusal = .nullCharacter path ∧ '\x00' ∈ path.text ∨
      '\x00' ∉ path.text ∧ refusal ∈ [.notFound path, .notDirectory path, .tooLong path,
        .notText path, .isDirectory path] := by
  simp only [readText, lookup, bind, Except.bind] at unread
  cases found : tree.locate path with
  | error lost =>
    obtain rfl : lost = refusal := by simpa [found] using unread
    by_cases whole : '\x00' ∈ path.text
    · rw [locate, if_pos (by simpa using whole)] at found
      exact .inl ⟨(Except.error.inj found).symm, whole⟩
    · refine .inr ⟨whole, ?_⟩
      by_cases short : path.text.byteSize ≤ pathLimit
      · rw [locate_eq whole short] at found
        rcases follow_eq_error found with rfl | rfl | rfl <;> simp
      · rw [locate, if_neg (by simpa using whole), if_pos (Nat.lt_of_not_le short)] at found
        cases found
        simp
  | ok place =>
    refine .inr ⟨(locate_eq_ok_iff.mp found).1, ?_⟩
    simp only [found] at unread
    cases here : tree.node? place with
    | none =>
      simp only [here, Except.error.injEq] at unread
      simp [← unread]
    | some node =>
      simp only [here] at unread
      rcases node with _ | ⟨_ | _⟩
      · simp_all [pure, Except.pure]
      · simp [pure, Except.pure] at unread
      · simp_all [pure, Except.pure]

/-! ## A file with another text -/

theorem node?_put_file (h : tree.Ordered) (here : tree.node? place = some (.file content)) :
    (tree.put place (.file new)).node? other =
      if other = place then some (.file new) else tree.node? other := by
  split_ifs with same
  · rw [same, node?_put_self (isAbove_eq_false (isDirectoryAt_of_node? here))]
  · exact node?_put_of_ne h same

theorem isDirectoryAt_put_file (h : tree.Ordered)
    (here : tree.node? place = some (.file content)) :
    (tree.put place (.file new)).isDirectoryAt other = tree.isDirectoryAt other := by
  rw [isDirectoryAt, isDirectoryAt, node?_put_file h here]
  split_ifs with same
  · simp [same, here]
  · rfl

theorem follow_put_file (h : tree.Ordered) (here : tree.node? place = some (.file content))
    (start : List Text) :
    (tree.put place (.file new)).follow path start segments = tree.follow path start segments := by
  induction segments generalizing start with
  | nil => rfl
  | cons segment segments ih =>
    rw [follow, follow, node?_put_file h here]
    by_cases same : start = place
    · rw [if_pos same, same, here]
    · rw [if_neg same, ih, ih]

/-- All paths lead where they led. -/
theorem locate_put_file (h : tree.Ordered) (here : tree.node? place = some (.file content))
    (path : Path) : (tree.put place (.file new)).locate path = tree.locate path := by
  have working : (tree.put place (.file new)).working = tree.working := rfl
  unfold locate
  simp only [follow_put_file h here, working]

theorem WellFormed.put_file (h : tree.WellFormed)
    (here : tree.node? place = some (.file content)) : (tree.put place (.file new)).WellFormed := by
  -- no place is new, so all that is said of places stays true
  have places : ∀ e ∈ (tree.put place (.file new)).nodes, ∃ e' ∈ tree.nodes, e'.1 = e.1 := by
    intro e mem
    have key : e.1 ∈ (tree.nodes.insert place (.file new)).keys := List.mem_map_of_mem mem
    rcases Table.mem_keys_insert.mp key with same | before
    · exact ⟨_, h.mem_of_node?_file here, same.symm⟩
    · obtain ⟨e', mem', eq⟩ := List.mem_map.mp before
      exact ⟨e', mem', eq⟩
  refine ⟨h.ordered.put, h.working, fun e mem => ?_, fun e mem => ?_, fun e mem => ?_⟩
  · obtain ⟨e', mem', eq⟩ := places e mem
    rw [isDirectoryAt_put_file h.ordered here, ← eq]
    exact h.parents e' mem'
  · obtain ⟨e', mem', eq⟩ := places e mem
    rw [← eq]
    exact h.names e' mem'
  · obtain ⟨e', mem', eq⟩ := places e mem
    rw [← eq]
    exact h.apart e' mem'

/-! ## The replacement of a file -/

/-- Whether the draft of a file can have a path. -/
def hasRoom (path : Path) : Bool :=
  (draftName path.name).byteSize ≤ segmentLimit && (draftOf path).text.byteSize ≤ pathLimit

/-- Nothing stands where the draft of a file goes. -/
def DraftFree (tree : FileTree) (path : Path) : Prop :=
  ∀ draft, tree.locate (draftOf path) = .ok draft → tree.node? draft = none

instance (tree : FileTree) (path : Path) : Decidable (tree.DraftFree path) :=
  match found : tree.locate (draftOf path) with
  | .ok draft =>
    decidable_of_iff (tree.node? draft = none)
      ⟨fun none _ located => Except.ok.inj (found.symm.trans located) ▸ none,
        fun free => free draft found⟩
  | .error _ => isTrue fun _ located => nomatch found.symm.trans located

/-- A directory that is there need not be made. -/
theorem makeDirectories_of_isDirectoryAt (found : tree.locate path = .ok place)
    (there : tree.isDirectoryAt place) : tree.makeDirectories path = (tree, .ok ()) := by
  have here : tree.node? place = some .directory := by simpa [isDirectoryAt] using there
  have made : tree.makeDirectory path = .error (.occupied path) := by
    simp [makeDirectory, found, bind, Except.bind, here]
  have asked : tree.isDirectory path = .ok true := by
    simp [isDirectory, holds, lookup, found, bind, Except.bind, here, pure, Except.pure]
  have excused : tree.excused path (.occupied path) = .ok () := by
    simp [FileTree.excused, asked, bind, Except.bind, pure, Except.pure]
  obtain ⟨root, segments⟩ := path
  unfold makeDirectories
  rcases segments.eq_nil_or_concat' with rfl | ⟨front, name, rfl⟩
  · simp [makeFrom, made, excused]
  · simp [makeFrom, made, excused]

theorem up_ne_draftName (name : Text) : draftName name ≠ Path.up := by
  intro eq
  have := congrArg List.length eq
  simp [draftName, Path.up] at this

theorem draftOf_eq (root : Text) (front : List Text) (name : Text) :
    draftOf ⟨root, front ++ [name]⟩ = ⟨root, front ++ [draftName name]⟩ := by
  simp [draftOf, Path.parent, Path.child, Path.name]

theorem text_draftOf (root : Text) (front : List Text) (name : Text) :
    (draftOf ⟨root, front ++ [name]⟩).text =
      Path.text ⟨root, front ++ [name]⟩ ++ ".tmp".toList := by
  rw [draftOf_eq, draftName, Path.text_append]

theorem whole_draftOf {root : Text} {front : List Text} {name : Text}
    (whole : '\x00' ∉ Path.text ⟨root, front ++ [name]⟩) :
    '\x00' ∉ (draftOf ⟨root, front ++ [name]⟩).text := by
  rw [text_draftOf, List.mem_append, not_or]
  exact ⟨whole, by decide⟩

/-- A path whose draft has room is not too long. -/
theorem short_of_hasRoom (ne : path.segments ≠ []) (room : hasRoom path) :
    path.text.byteSize ≤ pathLimit := by
  obtain ⟨root, segments⟩ := path
  obtain ⟨front, name, rfl⟩ := segments.eq_nil_or_concat'.resolve_left ne
  simp only [hasRoom, Bool.and_eq_true, decide_eq_true_eq, text_draftOf, Text.byteSize_append]
    at room
  omega

/-- The path of the directory of a file is not too long. -/
theorem byteSize_text_parent {root name : Text} {front : List Text}
    (short : (Path.text ⟨root, front ++ [name]⟩).byteSize ≤ pathLimit) :
    (Path.text ⟨root, front⟩).byteSize ≤ pathLimit := by
  rcases eq_or_ne front [] with rfl | ne
  · rcases eq_or_ne root [] with rfl | absolute
    · decide
    · have alone : Path.text ⟨root, []⟩ = root := by simp [Path.text, absolute, Text.joined]
      have named : Path.text ⟨root, [] ++ [name]⟩ = root ++ name := by
        simp [Path.text, absolute, Text.joined]
      rw [named, Text.byteSize_append] at short
      rw [alone]
      omega
  · rw [Path.text_concat root name ne, Text.byteSize_append] at short
    omega

/-- A draft that was written where nothing was leaves nothing behind when it is moved. -/
theorem moveDraft_fresh {draft : List Text} (ordered : tree.Ordered)
    (found : tree.locate path = .ok place) (here : tree.node? place = some (.file content))
    (fresh : tree.node? draft = none) (apart : place ≠ draft) (ne_up : path.name ≠ Path.up) :
    (tree.put draft (.file (.text t))).moveDraft path draft t =
      (tree.put place (.file (.text t)), .ok ()) := by
  have noDirectory : tree.isDirectoryAt draft = false := by simp [isDirectoryAt, fresh]
  have still : (tree.put draft (.file (.text t))).isDirectoryAt place = false := by
    rw [isDirectoryAt, node?_put_of_ne ordered apart, here]
    rfl
  -- a replaced file would be gone; this draft was put where nothing stood
  have erased : (tree.put draft (.file (.text t))).erase draft = tree := by
    rw [node?, isAbove_eq_false noDirectory] at fresh
    rw [erase, put]
    simp only [Table.erase_insert fresh]
  rw [moveDraft, if_neg ne_up, (Keeps.put ordered noDirectory).locate found]
  simp only [still, erased, Bool.false_eq_true, if_false]

namespace WellFormed

variable (h : tree.WellFormed) (found : tree.locate path = .ok place)
  (here : tree.node? place = some (.file content))

include h found here

/-- The directory of a file can be reached. -/
theorem exists_locate_parent :
    ∃ parent, tree.locate path.parent = .ok parent ∧ tree.isDirectoryAt parent := by
  obtain ⟨whole, short, -⟩ := locate_eq_ok_iff.mp found
  obtain ⟨root, front, name, parent, rfl, -, directory, way⟩ := h.exists_parent found here
  have parent_eq : Path.parent ⟨root, front ++ [name]⟩ = ⟨root, front⟩ := by
    rw [Path.parent, List.dropLast_concat]
  refine ⟨parent, ?_, directory⟩
  rw [parent_eq, locate_eq_ok_iff]
  refine ⟨?_, byteSize_text_parent short, follow_congr way⟩
  rw [Path.mem_text (by decide) (by decide)] at whole ⊢
  rintro (front | ⟨segment, listed, null⟩)
  · exact whole (.inl front)
  · exact whole (.inr ⟨segment, List.mem_append_left _ listed, null⟩)

/-- The draft of a file has a place, if there is room for it. -/
theorem exists_locate_draftOf (room : hasRoom path) :
    ∃ draft, tree.locate (draftOf path) = .ok draft := by
  obtain ⟨whole, -, -⟩ := locate_eq_ok_iff.mp found
  obtain ⟨root, front, name, parent, rfl, -, directory, way⟩ := h.exists_parent found here
  have whole := whole_draftOf whole
  simp only [hasRoom, Bool.and_eq_true, decide_eq_true_eq, Path.name, List.getLastD_concat] at room
  rw [draftOf_eq] at room whole ⊢
  by_cases same : root ≠ [] ∧ tree.working = front ++ [draftName name]
  · -- the draft would be the working directory
    obtain ⟨absolute, same⟩ := same
    rw [← same] at whole room ⊢
    exact ⟨_, locate_working absolute whole room.2⟩
  · refine ⟨parent ++ [draftName name], ?_⟩
    rw [locate_entry way directory (up_ne_draftName _) (fun absolute eq => same ⟨absolute, eq⟩)
      whole room.2]
    exact if_neg (Nat.not_lt.mpr room.1)

theorem locate_draftOf_of_no_room (full : hasRoom path = false) :
    tree.locate (draftOf path) = .error (.tooLong (draftOf path)) := by
  obtain ⟨whole, -, -⟩ := locate_eq_ok_iff.mp found
  obtain ⟨root, front, name, parent, rfl, -, directory, way⟩ := h.exists_parent found here
  have whole := whole_draftOf whole
  simp only [hasRoom, Bool.and_eq_false_iff, decide_eq_false_iff_not, Path.name,
    List.getLastD_concat] at full
  by_cases short : (draftOf ⟨root, front ++ [name]⟩).text.byteSize ≤ pathLimit
  · -- the name is too long, and that of the working directory is not
    have long := full.resolve_right (not_not.mpr short)
    rw [draftOf_eq] at short whole ⊢
    have ne : root ≠ [] → tree.working ≠ front ++ [draftName name] := by
      intro _ same
      exact long (h.working (draftName name) (by simp [same])).short
    rw [locate_entry way directory (up_ne_draftName _) ne whole short]
    exact if_pos (Nat.lt_of_not_le long)
  · rw [locate, if_neg (by simpa using whole), if_pos (Nat.lt_of_not_le short)]

/-- **A file that is there is given another text**, if there is room for its draft and nothing in
the way of it. -/
theorem replaceFile_eq (free : tree.DraftFree path) :
    tree.replaceFile path t true =
      if hasRoom path then (tree.put place (.file (.text t)), .ok ())
      else (tree, .error (.tooLong (draftOf path))) := by
  obtain ⟨parent, above, directory⟩ := h.exists_locate_parent found here
  obtain ⟨named, ne_up⟩ : path.segments.isEmpty = false ∧ path.name ≠ Path.up := by
    obtain ⟨root, front, name, -, rfl, ne_up, -, -⟩ := h.exists_parent found here
    exact ⟨by simp, by rwa [Path.name, List.getLastD_concat]⟩
  have replaced : tree.replaceFile path t true = tree.writeDraft path t true := by
    simp [replaceFile, makeDirectories_of_isDirectoryAt above directory, named]
  rw [replaced]
  cases room : hasRoom path with
  | false =>
    have full := h.locate_draftOf_of_no_room found here room
    rw [draftOf] at full
    simp only [writeDraft, full]
    rfl
  | true =>
    obtain ⟨draft, located⟩ := h.exists_locate_draftOf found here room
    have none := free draft located
    have noDirectory : tree.isDirectoryAt draft = false := by simp [isDirectoryAt, none]
    -- the file is there, and where its draft goes is nothing
    have apart : place ≠ draft := by
      rintro rfl
      rw [none] at here
      cases here
    rw [draftOf] at located
    rw [if_pos rfl]
    simp only [writeDraft, located, noDirectory, Bool.not_true, Bool.false_eq_true, if_false]
    exact moveDraft_fresh h.ordered found here none apart ne_up

end WellFormed

/-! ## Several files -/

/-- The tree with other texts in some of its files. -/
def edit (tree : FileTree) (edits : List (List Text × Text)) : FileTree :=
  edits.foldl (fun tree e => tree.put e.1 (.file (.text e.2))) tree

@[simp] theorem edit_nil (tree : FileTree) : tree.edit [] = tree :=
  rfl

@[simp] theorem edit_cons (tree : FileTree) (e : List Text × Text)
    (edits : List (List Text × Text)) :
    tree.edit (e :: edits) = (tree.put e.1 (.file (.text e.2))).edit edits :=
  rfl

/-- A place that is not edited holds what it held. -/
theorem node?_edit_of_notMem {edits : List (List Text × Text)} (h : tree.Ordered)
    (away : place ∉ edits.map Prod.fst) : (tree.edit edits).node? place = tree.node? place := by
  induction edits generalizing tree with
  | nil => rfl
  | cons e edits ih =>
    simp only [List.map_cons, List.mem_cons, not_or] at away
    rw [edit_cons, ih h.put away.2, node?_put_of_ne h away.1]

/-- A file that is edited once holds its new text. -/
theorem node?_edit_of_mem {edits : List (List Text × Text)} (h : tree.Ordered)
    (below : isAbove place = false) (once : (edits.map Prod.fst).Nodup)
    (mem : (place, t) ∈ edits) : (tree.edit edits).node? place = some (.file (.text t)) := by
  induction edits generalizing tree with
  | nil => cases mem
  | cons e edits ih =>
    rw [List.map_cons, List.nodup_cons] at once
    rw [edit_cons]
    rcases List.mem_cons.mp mem with rfl | mem
    · rw [node?_edit_of_notMem h.put once.1, node?_put_self below]
    · exact ih h.put once.2 mem

/-- The text that a file is given, with its place: `f` has to have one for the text that it holds,
and its draft has to have room. -/
def edit? (tree : FileTree) (f : Text → Option Text) (path : Path) : Option (List Text × Text) :=
  match tree.locate path, tree.readText path with
  | .ok place, .ok t => if hasRoom path then (f t).map fun new => (place, new) else none
  | _, _ => none

theorem edit?_eq_some_iff {f : Text → Option Text} {new : Text} :
    tree.edit? f path = some (place, new) ↔ ∃ t, tree.locate path = .ok place ∧
      tree.node? place = some (.file (.text t)) ∧ hasRoom path ∧ f t = some new := by
  unfold edit?
  split
  next found t located read =>
    obtain ⟨_, located', here⟩ := readText_eq_ok_iff.mp read
    obtain rfl := Except.ok.inj (located.symm.trans located')
    simp only [Option.ite_none_right_eq_some, Option.map_eq_some_iff, Prod.mk.injEq]
    constructor
    · rintro ⟨room, u, given, rfl, rfl⟩
      exact ⟨t, located, here, room, given⟩
    · rintro ⟨u, located', here', room, given⟩
      obtain rfl := Except.ok.inj (located.symm.trans located')
      obtain rfl : t = u := by simpa using here.symm.trans here'
      exact ⟨room, new, given, rfl, rfl⟩
  next unread =>
    refine iff_of_false nofun ?_
    rintro ⟨t, located, here, -⟩
    exact unread place t located (readText_of_locate located here)

theorem edit?_eq_none_of_error {f : Text → Option Text} {refusal : Refusal}
    (unread : tree.readText path = .error refusal) : tree.edit? f path = none := by
  rw [Option.eq_none_iff_forall_ne_some]
  rintro ⟨place, new⟩ edited
  obtain ⟨t, located, here, -⟩ := edit?_eq_some_iff.mp edited
  rw [readText_of_locate located here] at unread
  cases unread

/-- What a file is given depends on where its path leads and on what it reads. -/
theorem edit?_congr {tree' : FileTree} {f : Text → Option Text}
    (located : tree'.locate path = tree.locate path)
    (read : tree'.readText path = tree.readText path) : tree'.edit? f path = tree.edit? f path := by
  simp only [edit?, located, read]

/-- The tree in which the files of some items have their new texts. -/
def rewritten {ι : Type} (tree : FileTree) (path : ι → Path) (f : ι → Text → Option Text)
    (items : List ι) : FileTree :=
  tree.edit (items.filterMap fun item => tree.edit? (f item) (path item))

/-- Where there are no new texts, the tree stays as it was. -/
theorem rewritten_of_forall_none {ι : Type} {items : List ι} {pathOf : ι → Path}
    {f : ι → Text → Option Text} (none : ∀ item ∈ items, ∀ t, f item t = none) :
    tree.rewritten pathOf f items = tree := by
  have nothing : (items.filterMap fun item => tree.edit? (f item) (pathOf item)) = [] := by
    rw [List.filterMap_eq_nil_iff]
    intro item mem
    rw [Option.eq_none_iff_forall_ne_some]
    rintro ⟨place, new⟩ edited
    obtain ⟨t, -, -, -, given⟩ := edit?_eq_some_iff.mp edited
    rw [none item mem t] at given
    cases given
  rw [rewritten, nothing, edit_nil]

/-- Files that can be given other texts one after another: they are different, and nothing stands
where their drafts go. -/
structure Editable (tree : FileTree) (paths : List Path) : Prop where
  wellFormed : tree.WellFormed
  apart : paths.Pairwise tree.Apart
  free : ∀ path ∈ paths, tree.DraftFree path

namespace Editable

variable {paths : List Path}

theorem sublist {fewer : List Path} (h : tree.Editable paths) (part : fewer.Sublist paths) :
    tree.Editable fewer :=
  ⟨h.wellFormed, h.apart.sublist part, fun path mem => h.free path (part.subset mem)⟩

/-! ### One step -/

section Step

variable {other : Path} (h : tree.Editable (path :: paths)) (f : Text → Option Text)

include h

theorem locate_edit (other : Path) :
    (tree.edit (tree.edit? f path).toList).locate other = tree.locate other := by
  cases edited : tree.edit? f path with
  | none => rfl
  | some e =>
    obtain ⟨t, -, here, -⟩ := edit?_eq_some_iff.mp edited
    exact locate_put_file h.wellFormed.ordered here other

/-- One file that is given another text leaves the others as they were. -/
theorem readText_edit (mem : other ∈ paths) :
    (tree.edit (tree.edit? f path).toList).readText other = tree.readText other := by
  refine readText_congr (h.locate_edit f other) fun target located => ?_
  cases edited : tree.edit? f path with
  | none => rfl
  | some e =>
    obtain ⟨t, found, here, -⟩ := edit?_eq_some_iff.mp edited
    rw [Option.toList_some, edit_cons, edit_nil, node?_put_file h.wellFormed.ordered here, if_neg]
    -- both paths would lead to the file that changes
    rintro rfl
    exact (List.pairwise_cons.mp h.apart).1 other mem _ found located

theorem edit?_edit (g : Text → Option Text) (mem : other ∈ paths) :
    (tree.edit (tree.edit? f path).toList).edit? g other = tree.edit? g other :=
  edit?_congr (h.locate_edit f other) (h.readText_edit f mem)

/-- **One file that is given another text leaves the others editable.** -/
theorem edit : (tree.edit (tree.edit? f path).toList).Editable paths := by
  have tail : tree.Editable paths := h.sublist (List.sublist_cons_self path paths)
  cases edited : tree.edit? f path with
  | none => exact tail
  | some e =>
    obtain ⟨t, -, here, -⟩ := edit?_eq_some_iff.mp edited
    have still : ∀ other, (tree.put e.1 (.file (.text e.2))).locate other = tree.locate other :=
      locate_put_file h.wellFormed.ordered here
    refine ⟨h.wellFormed.put_file here, ?_, fun other mem draft located => ?_⟩
    · refine tail.apart.imp fun apart place located => ?_
      rw [Option.toList_some, edit_cons, edit_nil, still] at located ⊢
      exact apart place located
    · rw [Option.toList_some, edit_cons, edit_nil, still] at located
      have none := tail.free other mem draft located
      rw [Option.toList_some, edit_cons, edit_nil, node?_put_file h.wellFormed.ordered here, if_neg,
        none]
      rintro rfl
      rw [none] at here
      cases here

end Step

/-! ### All files -/

variable {ι : Type} {items : List ι} {item : ι} {pathOf : ι → Path} {f : ι → Text → Option Text}

/-- **Each file is given its text as if it were the only one.** -/
theorem rewritten_cons (h : tree.Editable ((item :: items).map pathOf)) :
    tree.rewritten pathOf f (item :: items) =
      (tree.edit (tree.edit? (f item) (pathOf item)).toList).rewritten pathOf f items := by
  have same : (items.filterMap fun other =>
      (tree.edit (tree.edit? (f item) (pathOf item)).toList).edit? (f other) (pathOf other)) =
      items.filterMap fun other => tree.edit? (f other) (pathOf other) :=
    List.filterMap_congr fun other mem => h.edit?_edit _ _ (List.mem_map_of_mem mem)
  rw [rewritten, rewritten, same]
  cases edited : tree.edit? (f item) (pathOf item) with
  | none => simp only [List.filterMap_cons, edited, Option.toList_none, edit_nil]
  | some e => simp only [List.filterMap_cons, edited, Option.toList_some, edit_cons, edit_nil]

/-- A file that is given a text holds it. -/
theorem node?_rewritten (h : tree.Editable (items.map pathOf)) (mem : item ∈ items) {new : Text}
    (edited : tree.edit? (f item) (pathOf item) = some (place, new)) :
    (tree.rewritten pathOf f items).node? place = some (.file (.text new)) := by
  obtain ⟨t, -, here, -⟩ := edit?_eq_some_iff.mp edited
  refine node?_edit_of_mem h.wellFormed.ordered (isAbove_eq_false (isDirectoryAt_of_node? here)) ?_
    (List.mem_filterMap.mpr ⟨item, mem, edited⟩)
  -- no file is given a text twice, as the paths lead to different places
  refine List.pairwise_map.mpr (List.pairwise_filterMap.mpr ((List.pairwise_map.mp h.apart).imp ?_))
  rintro item other ne e edited e' edited' same
  obtain ⟨-, located, -⟩ := edit?_eq_some_iff.mp edited
  obtain ⟨-, located', -⟩ := edit?_eq_some_iff.mp edited'
  exact ne _ located (same ▸ located')

/-- A place that is given no text holds what it held. -/
theorem node?_rewritten_of_forall_ne (h : tree.Editable (items.map pathOf))
    (away : ∀ item ∈ items, ∀ new, tree.edit? (f item) (pathOf item) ≠ some (place, new)) :
    (tree.rewritten pathOf f items).node? place = tree.node? place := by
  refine node?_edit_of_notMem h.wellFormed.ordered fun listed => ?_
  obtain ⟨⟨_, new⟩, mem, rfl⟩ := List.mem_map.mp listed
  obtain ⟨item, listed, edited⟩ := List.mem_filterMap.mp mem
  exact away item listed new edited

/-- **No entry comes or goes.** -/
theorem isSome_node?_rewritten (h : tree.Editable (items.map pathOf)) (place : List Text) :
    ((tree.rewritten pathOf f items).node? place).isSome = (tree.node? place).isSome := by
  by_cases given : ∃ item ∈ items, ∃ new, tree.edit? (f item) (pathOf item) = some (place, new)
  · obtain ⟨item, mem, new, edited⟩ := given
    obtain ⟨t, -, here, -⟩ := edit?_eq_some_iff.mp edited
    rw [h.node?_rewritten mem edited, here]
    rfl
  · rw [h.node?_rewritten_of_forall_ne fun item mem new edited => given ⟨item, mem, new, edited⟩]

end Editable

end FileTree

end StyleTokens
