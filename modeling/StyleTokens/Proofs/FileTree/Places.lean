import StyleTokens.Proofs.FileTree
import StyleTokens.Proofs.Path

/-!
# Where paths lead

In a tree as it is kept, every entry has a name and stands in a directory. So a path that leads to
a file is a way through directories with the name of the file at its end, and all that is found in
a walk can be reached, unless its path is too long.

## Main definitions

* `FileTree.IsName`: a name that an entry can have
* `FileTree.WellFormed`: a tree as it is kept
* `FileTree.origin`: where a path starts, and the segments to follow from there
* `FileTree.Apart`: two paths do not lead to the same place
* `FileTree.IsUnder`: a file under a directory, with one of some endings

## Main results

* `FileTree.locate_eq_ok_iff`: a path leads somewhere
* `FileTree.follow_concat_eq_ok_iff`: the last step of a way
* `FileTree.WellFormed.exists_parent`: a file stands in the directory that the parent leads to
* `FileTree.WellFormed.locate_below`: what lies under a directory can be reached
* `FileTree.WellFormed.mem_walk`: what is found in a walk
-/

namespace StyleTokens.FileTree

variable {tree tree' : FileTree} {place start target : List Text} {node : Node}
  {content : Content} {path other root : Path} {segments rest endings : List Text} {name : Text}

/-! ## Trees as they are kept -/

/-- A name that an entry can have. -/
structure IsName (name : Text) : Prop where
  segment : Path.IsSegment name
  ne_up : name ≠ Path.up
  nonempty : name ≠ []
  whole : '\x00' ∉ name
  short : name.byteSize ≤ segmentLimit

instance : DecidablePred IsName := fun name =>
  decidable_of_iff (Path.IsSegment name ∧ name ≠ Path.up ∧ name ≠ [] ∧ '\x00' ∉ name ∧
      name.byteSize ≤ segmentLimit)
    ⟨fun ⟨segment, ne_up, nonempty, whole, short⟩ => ⟨segment, ne_up, nonempty, whole, short⟩,
      fun h => ⟨h.segment, h.ne_up, h.nonempty, h.whole, h.short⟩⟩

/-- A tree as it is kept. -/
structure WellFormed (tree : FileTree) : Prop where
  ordered : tree.Ordered
  working : ∀ name ∈ tree.working, IsName name
  /-- Every entry stands in a directory. -/
  parents : ∀ e ∈ tree.nodes, tree.isDirectoryAt e.1.dropLast
  names : ∀ e ∈ tree.nodes, IsName (e.1.getLastD [])
  /-- What is below the working directory is not listed below those above it. -/
  apart : ∀ e ∈ tree.nodes, ¬(tree.working.map fun _ => Path.up) ++ tree.working <+: e.1

instance : DecidablePred WellFormed := fun tree =>
  decidable_of_iff (tree.Ordered ∧ (∀ name ∈ tree.working, IsName name) ∧
      (∀ e ∈ tree.nodes, tree.isDirectoryAt e.1.dropLast) ∧
      (∀ e ∈ tree.nodes, IsName (e.1.getLastD [])) ∧
      ∀ e ∈ tree.nodes, ¬(tree.working.map fun _ => Path.up) ++ tree.working <+: e.1)
    ⟨fun ⟨ordered, working, parents, names, apart⟩ => ⟨ordered, working, parents, names, apart⟩,
      fun h => ⟨h.ordered, h.working, h.parents, h.names, h.apart⟩⟩

theorem isAbove_append_of_ne (ne : name ≠ Path.up) : isAbove (place ++ [name]) = false := by
  simp [isAbove, ne]

theorem isDirectoryAt_of_isAbove (h : isAbove place = true) : tree.isDirectoryAt place := by
  simp [isDirectoryAt, node?, h]

theorem node?_eq_some_iff (ordered : tree.Ordered) (below : isAbove place = false) :
    tree.node? place = some node ↔ (place, node) ∈ tree.nodes := by
  rw [node?, below, Table.mem_iff_find? ordered]
  exact Iff.rfl

namespace WellFormed

theorem isAbove_of_mem (h : tree.WellFormed) (mem : (place, node) ∈ tree.nodes) :
    isAbove place = false := by
  have named := h.names _ mem
  rcases place.eq_nil_or_concat' with rfl | ⟨front, name, rfl⟩
  · exact absurd rfl named.nonempty
  · rw [List.getLastD_concat] at named
    exact isAbove_append_of_ne named.ne_up

theorem node?_of_mem (h : tree.WellFormed) (mem : (place, node) ∈ tree.nodes) :
    tree.node? place = some node :=
  (node?_eq_some_iff h.ordered (h.isAbove_of_mem mem)).mpr mem

theorem mem_of_node?_file (h : tree.WellFormed)
    (here : tree.node? place = some (.file content)) : (place, .file content) ∈ tree.nodes :=
  (node?_eq_some_iff h.ordered (isAbove_eq_false (isDirectoryAt_of_node? here))).mp here

/-- A double dot leads from a directory to a directory. -/
theorem isDirectoryAt_outOf (h : tree.WellFormed) (there : tree.isDirectoryAt place) :
    tree.isDirectoryAt (outOf place) := by
  unfold outOf
  split_ifs with above
  · refine isDirectoryAt_of_isAbove ?_
    simp only [isAbove, List.all_append, Bool.and_eq_true] at above ⊢
    exact ⟨above, by simp⟩
  · -- a directory that is no place above the tree is an entry, and the tree has its parent
    have mem := (node?_eq_some_iff h.ordered (by simpa using above)).mp (by
      simpa [isDirectoryAt] using there)
    exact h.parents _ mem

end WellFormed

/-! ## Ways through a tree -/

/-- A way goes on where its first part led to. -/
theorem follow_append (tree : FileTree) (path : Path) (place segments rest : List Text) :
    tree.follow path place (segments ++ rest) =
      (tree.follow path place segments).bind fun target => tree.follow path target rest := by
  induction segments generalizing place with
  | nil => rfl
  | cons segment segments ih =>
    rw [List.cons_append, follow, follow]
    cases tree.node? place with
    | none => rfl
    | some node =>
      cases node with
      | file content => rfl
      | directory =>
        dsimp only
        split_ifs
        · exact ih _
        · rfl
        · exact ih _

/-- A way does not depend on the path that is followed, but for the words of a refusal. -/
theorem follow_congr (found : tree.follow path place segments = .ok target) :
    tree.follow other place segments = .ok target := by
  induction segments generalizing place with
  | nil => exact found
  | cons segment segments ih =>
    unfold follow at found ⊢
    split at found
    · cases found
    · cases found
    · split_ifs at found ⊢
      · exact ih found
      · exact ih found

/-- The last step of a way leads out of a directory or to one of its entries. -/
theorem follow_concat_eq_ok_iff :
    tree.follow path place (segments ++ [name]) = .ok target ↔
      ∃ parent, tree.follow path place segments = .ok parent ∧ tree.isDirectoryAt parent ∧
        (name = Path.up ∧ target = outOf parent ∨
          name ≠ Path.up ∧ name.byteSize ≤ segmentLimit ∧ target = parent ++ [name]) := by
  rw [follow_append]
  cases tree.follow path place segments with
  | error refusal => simp [Except.bind]
  | ok parent =>
    simp only [Except.bind, Except.ok.injEq, exists_eq_left', isDirectoryAt, decide_eq_true_eq]
    unfold follow
    split
    next here => simp [here]
    next here => simp [here]
    next here =>
      simp only [here, true_and, follow]
      split_ifs with out long
      · simp [out, eq_comm]
      · simp [out, Nat.not_le.mpr long]
      · simp [out, Nat.le_of_not_lt long, eq_comm]

/-- Where a path starts, and the segments to follow from there. -/
def origin (tree : FileTree) (path : Path) : List Text × List Text :=
  if path.isAbsolute then
    match tree.working.isPrefixOf? path.segments with
    | some segments => ([], segments)
    | none => (tree.working.map fun _ => Path.up, path.segments)
  else ([], path.segments)

theorem locate_eq (whole : '\x00' ∉ path.text) (short : path.text.byteSize ≤ pathLimit) :
    tree.locate path = tree.follow path (tree.origin path).1 (tree.origin path).2 := by
  rw [locate, if_neg (by simpa using whole), if_neg (Nat.not_lt.mpr short), origin]
  split_ifs
  · cases tree.working.isPrefixOf? path.segments <;> rfl
  · rfl

/-- **A path leads somewhere** if it can be spelled and there is a way. -/
theorem locate_eq_ok_iff : tree.locate path = .ok place ↔
    '\x00' ∉ path.text ∧ path.text.byteSize ≤ pathLimit ∧
      tree.follow path (tree.origin path).1 (tree.origin path).2 = .ok place := by
  by_cases whole : '\x00' ∈ path.text
  · rw [locate, if_pos (by simpa using whole)]
    simp [whole]
  by_cases short : path.text.byteSize ≤ pathLimit
  · rw [locate_eq whole short]
    simp [whole, short]
  · rw [locate, if_neg (by simpa using whole), if_pos (Nat.lt_of_not_le short)]
    simp [short]

theorem origin_start_isAbove (tree : FileTree) (path : Path) :
    isAbove (tree.origin path).1 = true := by
  unfold origin
  split_ifs
  · split
    · rfl
    · simp [isAbove]
  · rfl

/-- A longer path starts at the same place, unless the working directory is on the way that is
added. -/
theorem origin_append (tree : FileTree) (root : Text) (front rest : List Text)
    (h : root ≠ [] → tree.working <+: front ++ rest → tree.working <+: front) :
    tree.origin ⟨root, front ++ rest⟩ =
      ((tree.origin ⟨root, front⟩).1, (tree.origin ⟨root, front⟩).2 ++ rest) := by
  have shape : ∀ segments, tree.origin ⟨root, segments⟩ =
      if root = [] then ([], segments) else
        match tree.working.isPrefixOf? segments with
        | some segments => ([], segments)
        | none => (tree.working.map fun _ => Path.up, segments) := by
    intro segments
    cases root <;> rfl
  rw [shape, shape]
  split_ifs with relative
  · rfl
  cases inside : tree.working.isPrefixOf? front with
  | some behind =>
    rw [List.isPrefixOf?_eq_some_iff_append_eq] at inside
    have : tree.working.isPrefixOf? (front ++ rest) = some (behind ++ rest) := by
      rw [List.isPrefixOf?_eq_some_iff_append_eq, ← List.append_assoc, inside]
    rw [this]
  | none =>
    cases found : tree.working.isPrefixOf? (front ++ rest) with
    | none => rfl
    | some behind =>
      obtain ⟨more, eq⟩ := h relative ⟨behind, List.isPrefixOf?_eq_some_iff_append_eq.mp found⟩
      rw [List.isPrefixOf?_eq_some_iff_append_eq.mpr eq] at inside
      cases inside

theorem origin_outside (absolute : path.root ≠ []) (outside : ¬tree.working <+: path.segments) :
    tree.origin path = (tree.working.map fun _ => Path.up, path.segments) := by
  rw [origin, if_pos (by simpa [Path.isAbsolute] using absolute)]
  split
  next found =>
    rw [List.isPrefixOf?_eq_some_iff_append_eq] at found
    exact absurd ⟨_, found⟩ outside
  · rfl

theorem origin_nil (tree : FileTree) (root : Text) : (tree.origin ⟨root, []⟩).2 = [] := by
  unfold origin
  split_ifs
  · split
    next inside =>
      rw [List.isPrefixOf?_eq_some_iff_append_eq] at inside
      exact (List.append_eq_nil_iff.mp inside).2
    · rfl
  · rfl

/-- The path of the working directory leads there. -/
theorem locate_working {root : Text} (absolute : root ≠ [])
    (whole : '\x00' ∉ Path.text ⟨root, tree.working⟩)
    (short : (Path.text ⟨root, tree.working⟩).byteSize ≤ pathLimit) :
    tree.locate ⟨root, tree.working⟩ = .ok [] := by
  have start : tree.origin ⟨root, tree.working⟩ = ([], []) := by
    have : tree.working.isPrefixOf? tree.working = some [] :=
      List.isPrefixOf?_eq_some_iff_append_eq.mpr (List.append_nil _)
    cases root with
    | nil => exact absurd rfl absolute
    | cons c root => simp [origin, Path.isAbsolute, this]
  rw [locate_eq whole short, start, follow]

/-- The entry of a directory can be reached, unless its name is too long. -/
theorem locate_entry {root : Text} {front parent : List Text}
    (way : tree.follow path (tree.origin ⟨root, front⟩).1 (tree.origin ⟨root, front⟩).2 =
      .ok parent)
    (directory : tree.isDirectoryAt parent) (ne_up : name ≠ Path.up)
    (ne : root ≠ [] → tree.working ≠ front ++ [name])
    (whole : '\x00' ∉ Path.text ⟨root, front ++ [name]⟩)
    (short : (Path.text ⟨root, front ++ [name]⟩).byteSize ≤ pathLimit) :
    tree.locate ⟨root, front ++ [name]⟩ =
      if segmentLimit < name.byteSize then .error (.tooLong ⟨root, front ++ [name]⟩)
      else .ok (parent ++ [name]) := by
  have start := tree.origin_append root front [name] fun absolute inside => by
    rcases List.prefix_concat_iff.mp inside with same | above
    · exact absurd same (ne absolute)
    · exact above
  have there : tree.node? parent = some .directory := by simpa [isDirectoryAt] using directory
  rw [locate_eq whole short, start, follow_append, follow_congr way]
  simp only [Except.bind, follow, there, if_neg ne_up]

/-! ## Files -/

/-- **A file stands in the directory that the parent of its path leads to**, under the name of the
path. -/
theorem WellFormed.exists_parent (h : tree.WellFormed) (found : tree.locate path = .ok place)
    (here : tree.node? place = some (.file content)) :
    ∃ root front name parent, path = ⟨root, front ++ [name]⟩ ∧ name ≠ Path.up ∧
      tree.isDirectoryAt parent ∧
      tree.follow path (tree.origin ⟨root, front⟩).1 (tree.origin ⟨root, front⟩).2 =
        .ok parent := by
  obtain ⟨whole, short, way⟩ := locate_eq_ok_iff.mp found
  have noDirectory := isDirectoryAt_of_node? here
  obtain ⟨root, segments⟩ := path
  rcases segments.eq_nil_or_concat' with rfl | ⟨front, name, rfl⟩
  · -- without segments, a path leads to the working directory or to one above it
    rw [origin_nil, follow] at way
    cases way
    rw [isDirectoryAt_of_isAbove (origin_start_isAbove tree _)] at noDirectory
    cases noDirectory
  have start := tree.origin_append root front [name] fun absolute inside => by
    rcases List.prefix_concat_iff.mp inside with same | above
    · -- the path is that of the working directory, which is no file
      rw [← same] at found whole short
      rw [locate_working absolute whole short] at found
      cases found
      cases here
    · exact above
  rw [start] at way
  obtain ⟨parent, first, directory, ⟨-, rfl⟩ | ⟨ne_up, -, -⟩⟩ := follow_concat_eq_ok_iff.mp way
  · -- a last double dot leads to a directory
    rw [h.isDirectoryAt_outOf directory] at noDirectory
    cases noDirectory
  · exact ⟨root, front, name, parent, rfl, ne_up, directory, first⟩

/-- Two paths do not lead to the same place. -/
def Apart (tree : FileTree) (path other : Path) : Prop :=
  ∀ place, tree.locate path = .ok place → tree.locate other ≠ .ok place

instance (tree : FileTree) (path other : Path) : Decidable (tree.Apart path other) :=
  match found : tree.locate path with
  | .ok place =>
    decidable_of_iff (tree.locate other ≠ .ok place)
      ⟨fun ne _ located => Except.ok.inj (found.symm.trans located) ▸ ne, fun h => h place found⟩
  | .error _ => isTrue fun _ located => nomatch found.symm.trans located

/-! ## Walks -/

/-- A file under a directory whose name has one of the endings, with the segments behind those of
the directory. -/
structure IsUnder (tree : FileTree) (start endings rest : List Text) (content : Content) :
    Prop where
  file : tree.node? (start ++ rest) = some (.file content)
  ne : rest ≠ []
  inside : isOutside rest = false
  ending : ∃ ending ∈ endings, ending <:+ rest.getLastD []

/-- A way that leads inwards only adds its segments. -/
theorem follow_inwards (inwards : Path.up ∉ segments)
    (found : tree.follow path place segments = .ok target) : target = place ++ segments := by
  induction segments using List.reverseRecOn generalizing target with
  | nil =>
    cases found
    simp
  | append_singleton segments name ih =>
    simp only [List.mem_append, List.mem_singleton, not_or] at inwards
    obtain ⟨parent, first, -, ⟨rfl, -⟩ | ⟨-, -, rfl⟩⟩ := follow_concat_eq_ok_iff.mp found
    · exact absurd rfl inwards.2
    · rw [ih inwards.1 first, List.append_assoc]

theorem mem_filesBelow : rest ∈ tree.filesBelow place endings ↔
    ∃ content, (place ++ rest, .file content) ∈ tree.nodes ∧ rest ≠ [] ∧ isOutside rest = false ∧
      ∃ ending ∈ endings, ending <:+ rest.getLastD [] := by
  rw [filesBelow, List.mem_filterMap]
  constructor
  · rintro ⟨⟨other, node⟩, mem, found⟩
    dsimp only at found
    split at found
    next content behind prefixed =>
      split_ifs at found with fits
      cases found
      rw [List.isPrefixOf?_eq_some_iff_append_eq] at prefixed
      simp only [Bool.and_eq_true, Bool.not_eq_true', List.any_eq_true,
        List.isSuffixOf_iff_suffix, List.isEmpty_eq_false_iff] at fits
      exact ⟨content, prefixed ▸ mem, fits.1.1, fits.1.2, fits.2⟩
    · cases found
  · rintro ⟨content, mem, ne, inside, ending⟩
    refine ⟨_, mem, ?_⟩
    have prefixed : place.isPrefixOf? (place ++ rest) = some rest :=
      List.isPrefixOf?_eq_some_iff_append_eq.mpr rfl
    simp only [prefixed]
    refine if_pos ?_
    simp only [Bool.and_eq_true, Bool.not_eq_true', List.any_eq_true,
      List.isSuffixOf_iff_suffix, List.isEmpty_eq_false_iff]
    exact ⟨⟨ne, inside⟩, ending⟩

theorem pairwise_filesBelow (ordered : tree.Ordered) :
    (tree.filesBelow place endings).Pairwise (· ≠ ·) := by
  refine List.pairwise_filterMap.mpr ((List.pairwise_map.mp ordered).imp ?_)
  rintro e e' lt rest found other found' rfl
  -- each entry is seen as a tree of its own, in which the segments were found
  have alone : rest ∈ (FileTree.mk tree.working [e]).filesBelow place endings :=
    List.mem_filterMap.mpr ⟨e, List.mem_singleton_self e, found⟩
  have alone' : rest ∈ (FileTree.mk tree.working [e']).filesBelow place endings :=
    List.mem_filterMap.mpr ⟨e', List.mem_singleton_self e', found'⟩
  obtain ⟨_, mem, -⟩ := mem_filesBelow.mp alone
  obtain ⟨_, mem', -⟩ := mem_filesBelow.mp alone'
  rw [← List.mem_singleton.mp mem, ← List.mem_singleton.mp mem'] at lt
  exact Table.lt_irrefl _ lt

namespace WellFormed

/-- What lies inside a directory is reached from there, and all on the way has a name. -/
theorem follow_below (h : tree.WellFormed) (path : Path) (mem : (start ++ rest, node) ∈ tree.nodes)
    (ne : rest ≠ []) (inside : isOutside rest = false) :
    tree.follow path start rest = .ok (start ++ rest) ∧ ∀ name ∈ rest, IsName name := by
  -- The directory that an entry stands in is the start, or an entry inside it, too.
  induction rest using List.reverseRecOn generalizing node with
  | nil => exact absurd rfl ne
  | append_singleton front name ih =>
    rw [← List.append_assoc] at mem
    have named := h.names _ mem
    have directory := h.parents _ mem
    rw [List.getLastD_concat] at named
    rw [List.dropLast_concat] at directory
    have before : tree.follow path start front = .ok (start ++ front) ∧
        ∀ name ∈ front, IsName name := by
      rcases eq_or_ne front [] with rfl | some_front
      · simp [follow]
      · obtain ⟨first, front, rfl⟩ := List.exists_cons_of_ne_nil some_front
        have below : isAbove (start ++ first :: front) = false := by
          simp only [isOutside, List.cons_append, List.head?_cons, Option.some.injEq,
            decide_eq_false_iff_not] at inside
          simp [isAbove, inside]
        have entry := (node?_eq_some_iff h.ordered below).mp (by
          simpa [isDirectoryAt] using directory)
        refine ih entry some_front ?_
        simpa [isOutside] using inside
    refine ⟨follow_concat_eq_ok_iff.mpr
      ⟨_, before.1, directory, .inr ⟨named.ne_up, named.short, ?_⟩⟩, fun other mem => ?_⟩
    · rw [List.append_assoc]
    · rcases List.mem_append.mp mem with mem | mem
      · exact before.2 other mem
      · rw [List.mem_singleton.mp mem]
        exact named

/-- The working directory is not reached from outside. -/
theorem not_above_of_outside (h : tree.WellFormed) (there : tree.locate root = .ok start)
    (mem : (start ++ rest, node) ∈ tree.nodes) (absolute : root.root ≠ [])
    (outside : ¬tree.working <+: root.segments) : ¬tree.working <+: root.segments ++ rest := by
  intro above
  obtain ⟨-, -, way⟩ := locate_eq_ok_iff.mp there
  rw [origin_outside absolute outside] at way
  rcases List.prefix_or_prefix_of_prefix above (List.prefix_append _ rest) with
    inside | ⟨more, eq⟩
  · exact outside inside
  -- the path of the directory starts that of the working directory, so it has no double dot
  have inwards : Path.up ∉ root.segments := fun listed =>
    (h.working _ (eq ▸ List.mem_append_left more listed)).ne_up rfl
  obtain rfl := follow_inwards inwards way
  refine h.apart _ mem ?_
  rwa [List.append_assoc, List.prefix_append_right_inj]

/-- **What lies under a directory can be reached**, unless the path is too long. -/
theorem locate_below (h : tree.WellFormed) (there : tree.locate root = .ok start)
    (mem : (start ++ rest, node) ∈ tree.nodes) (ne : rest ≠ []) (inside : isOutside rest = false)
    (short : (root.below rest).text.byteSize ≤ pathLimit) :
    tree.locate (root.below rest) = .ok (start ++ rest) := by
  obtain ⟨whole, -, way⟩ := locate_eq_ok_iff.mp there
  obtain ⟨inner, names⟩ := h.follow_below (root.below rest) mem ne inside
  -- a null character would be one of the directory's path or of a name in the tree
  have whole' : '\x00' ∉ (root.below rest).text := by
    rw [Path.mem_text (by decide) (by decide)] at whole ⊢
    rintro (front | ⟨segment, listed, null⟩)
    · exact whole (.inl front)
    · rcases List.mem_append.mp listed with listed | listed
      · exact whole (.inr ⟨segment, listed, null⟩)
      · exact (names segment listed).whole null
  have start_eq := tree.origin_append root.root root.segments rest fun absolute above => by
    by_contra outside
    exact h.not_above_of_outside there mem absolute outside above
  refine locate_eq_ok_iff.mpr ⟨whole', short, ?_⟩
  change tree.follow (root.below rest) (tree.origin ⟨root.root, root.segments ++ rest⟩).1
    (tree.origin ⟨root.root, root.segments ++ rest⟩).2 = _
  rw [start_eq, follow_append, follow_congr way]
  exact inner

/-- **What is found in a walk.** -/
theorem mem_walk (h : tree.WellFormed) (there : tree.locate root = .ok start) :
    path ∈ tree.walk root endings ↔
      ∃ rest content, tree.IsUnder start endings rest content ∧ path = root.below rest := by
  rw [walk, there]
  dsimp only
  rw [List.mem_map]
  constructor
  · rintro ⟨rest, found, rfl⟩
    obtain ⟨content, mem, ne, inside, ending⟩ := mem_filesBelow.mp found
    exact ⟨rest, content, ⟨h.node?_of_mem mem, ne, inside, ending⟩, rfl⟩
  · rintro ⟨rest, content, under, rfl⟩
    have entry := h.mem_of_node?_file under.file
    exact ⟨rest, mem_filesBelow.mpr ⟨content, entry, under.ne, under.inside, under.ending⟩, rfl⟩

/-- A walk finds no file twice. -/
theorem pairwise_walk (h : tree.WellFormed) (there : tree.locate root = .ok start) :
    (tree.walk root endings).Pairwise tree.Apart := by
  have reached : ∀ rest ∈ tree.filesBelow start endings, ∀ place,
      tree.locate (root.below rest) = .ok place → place = start ++ rest := by
    intro rest found place located
    obtain ⟨content, mem, ne, inside, -⟩ := mem_filesBelow.mp found
    have short := (locate_eq_ok_iff.mp located).2.1
    rw [h.locate_below there mem ne inside short] at located
    exact (Except.ok.inj located).symm
  rw [walk, there]
  refine List.pairwise_map.mpr ((pairwise_filesBelow h.ordered).imp_of_mem ?_)
  intro rest other found found' ne place located located'
  have same := (reached rest found place located).symm.trans (reached other found' place located')
  exact ne (List.append_cancel_left same)

end WellFormed

end StyleTokens.FileTree
