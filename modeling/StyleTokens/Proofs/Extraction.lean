import StyleTokens.Extraction
import StyleTokens.Proofs.Action
import StyleTokens.Proofs.Baseline
import StyleTokens.Proofs.FileTree.Places
import StyleTokens.Report.Layout

/-!
# The order of arrival does not matter

The files of a directory are read one by one, and their results may arrive in any order. The
baseline keeps its inventories by path, and the names of each in ascending order, so it does not
tell in which order they came; nor do its documents and the report about its duplicates. The same
holds for the list of the files left out, as no two files under a directory are shown alike.

## Main definitions

* `Inventory.normal`: the inventory of the lists that are given for it
* `Inventory.SameNames`: lists with the same names
* `Extraction.pathOf`: the path that a result is about

## Main results

* `Baseline.ofInventories_perm`, `Extraction.ofResults_perm`: the order of inventories and results
* `FileTree.WellFormed.nodup_results`: the results for the files of a directory have distinct paths
* `documents_of_reordered`: the documents do not tell the order of arrival
-/

namespace StyleTokens

open StyleTokens.Action (leaves_pure leaves_tree leaves_warn leaves_ofExcept_of_ok leaves_forM)

/-! ## Inventories -/

namespace Inventory

variable {i j : Inventory}

/-- The inventory of the lists that are given for it. -/
def normal (i : Inventory) : Inventory :=
  ofLists i.path i.properties i.blocks i.functions i.moduleRefs

/-- Lists for the same path with the same names, in any order and any number. -/
structure SameNames (i j : Inventory) : Prop where
  path : i.path = j.path
  names : ∀ kind name, name ∈ i.names kind ↔ name ∈ j.names kind

/-- **The order of names and their repetitions do not matter.** -/
theorem SameNames.normal_eq (h : SameNames i j) : i.normal = j.normal := by
  have lists : ∀ kind, Ascending.ofList (i.names kind) = Ascending.ofList (j.names kind) :=
    fun kind => Ascending.ofList_congr (h.names kind)
  rw [normal, normal, ofLists, ofLists, h.path]
  congr 1
  · exact lists .property
  · exact lists .block
  · exact lists .function
  · exact lists .moduleRef

theorem map_normal {zs ys : List Inventory} (same : List.Forall₂ SameNames zs ys) :
    zs.map normal = ys.map normal := by
  induction same with
  | nil => rfl
  | cons h _ ih => rw [List.map_cons, List.map_cons, h.normal_eq, ih]

end Inventory

/-- The order of inventories with distinct paths does not matter. -/
theorem Baseline.ofInventories_perm {inventories others : List Inventory}
    (distinct : (inventories.map Inventory.path).Nodup) (moved : inventories.Perm others) :
    ofInventories inventories = ofInventories others := by
  rw [ofInventories, ofInventories, Table.ofList_perm ?_ (moved.map _)]
  rwa [List.map_map]

/-! ## Results -/

namespace Extraction

variable {results completed : List (Except ParseError Inventory)}

/-- The path that a result is about. -/
def pathOf : Except ParseError Inventory → Text
  | .ok inventory => inventory.path
  | .error e => e.path.getD []

/-- Results about different paths that are chosen have different paths. -/
theorem nodup_filterMap {α : Type} {f : Except ParseError Inventory → Option α} {path : α → Text}
    (h : ∀ result a, f result = some a → path a = pathOf result)
    (distinct : (results.map pathOf).Nodup) : ((results.filterMap f).map path).Nodup := by
  refine List.pairwise_map.mpr (List.pairwise_filterMap.mpr ?_)
  refine (List.pairwise_map.mp distinct).imp ?_
  intro result other ne a found b found' same
  rw [h result a found, h other b found'] at same
  exact ne same

/-- **The order of results about different paths does not matter.** -/
theorem ofResults_perm (distinct : (results.map pathOf).Nodup) (moved : results.Perm completed) :
    ofResults results = ofResults completed := by
  have read : ((inventories results).map Inventory.path).Nodup :=
    nodup_filterMap (fun result i found => by
      cases result with
      | error e => cases found
      | ok j =>
        cases found
        rfl) distinct
  have left : ((errors results).map fun e => e.path.getD []).Nodup :=
    nodup_filterMap (fun result e found => by
      cases result with
      | error e' =>
        cases found
        rfl
      | ok i => cases found) distinct
  -- inventories and errors are kept in two tables, each with distinct paths of its own
  rw [ofResults, ofResults, Baseline.ofInventories_perm read (moved.filterMap _)]
  congr 1
  refine Table.ofList_perm ?_ ((moved.filterMap _).map _)
  rwa [List.map_map]

/-- The result for a file is about the path that is shown for it. -/
theorem pathOf_extractFile (tree : FileTree) (base path : Path) :
    pathOf (extractFile tree base path) = path.relative tree.working base := by
  unfold extractFile Inventory.extract
  dsimp only
  split
  · split <;> rfl
  · rfl

end Extraction

/-- **The results for the files of a directory have distinct paths.** -/
theorem FileTree.WellFormed.nodup_results {tree : FileTree} (h : tree.WellFormed) {root : Path}
    (plain : ∀ segment ∈ root.segments, Path.IsSegment segment) (base : Path)
    (endings : List Text) :
    (((tree.walk root endings).map (extractFile tree base)).map Extraction.pathOf).Nodup := by
  have shown : Extraction.pathOf ∘ extractFile tree base =
      fun path => path.relative tree.working base :=
    funext fun path => Extraction.pathOf_extractFile tree base path
  rw [List.map_map, shown, walk]
  cases tree.locate root with
  | error refusal => exact List.nodup_nil
  | ok start =>
    -- all that is found below the directory has a name, so it cannot lead out of it again
    have named : ∀ rest ∈ tree.filesBelow start endings, ∀ segment ∈ rest,
        Path.IsSegment segment ∧ segment ≠ Path.up := by
      intro rest found segment mem
      obtain ⟨content, entry, ne, inside, -⟩ := mem_filesBelow.mp found
      have name := (h.follow_below root entry ne inside).2 segment mem
      exact ⟨name.segment, name.ne_up⟩
    rw [List.map_map]
    refine List.pairwise_map.mpr ((pairwise_filesBelow h.ordered).imp_of_mem ?_)
    intro rest other found found' ne same
    exact ne (Path.relative_below_injective (fun segment mem => (h.working segment mem).segment)
      plain (named rest found) (named other found') same)

/-! ## Runs -/

/-- The extraction of a directory is that of the results for its files. -/
theorem extractTree_leaves (surroundings : Surroundings) {tree : FileTree} {root : Path}
    (base : Path) (endings : List Text) (there : tree.isDirectory root = .ok true) :
    let results := (tree.walk root endings).map (extractFile tree base)
    (extractTree surroundings root base endings).Leaves tree
      (.ok (.ofResults results,
        Extraction.timing surroundings.took (Extraction.inventories results))) tree := by
  have asked : (Action.isDirectory root).Leaves tree (.ok true) tree :=
    leaves_tree.bind (leaves_ofExcept_of_ok there)
  refine leaves_tree.bind (asked.bind ?_)
  simp only [Bool.not_true, Bool.false_eq_true, if_false]
  refine (leaves_forM (fun e => leaves_warn _) _).bind ?_
  split_ifs
  · exact (leaves_forM (fun i => leaves_warn _) _).bind leaves_pure
  · exact leaves_pure

/-- **The documents do not tell the order of arrival.** Inventories with distinct paths, in any
order and with their names in any order and any number, make the same baseline, with the same JSON
and CSV documents, the same index of every kind and the same report about its duplicates. And
whatever the order in which the results for the files of a directory are completed, the extraction
is the same, with the same list of files left out. -/
theorem documents_of_reordered :
    (∀ xs zs ys : List Inventory, (xs.map Inventory.path).Nodup → xs.Perm zs →
      List.Forall₂ Inventory.SameNames zs ys →
      let baseline := Baseline.ofInventories (xs.map Inventory.normal)
      let other := Baseline.ofInventories (ys.map Inventory.normal)
      baseline.json = other.json ∧ baseline.csv = other.csv ∧
        (∀ kind, baseline.index kind = other.index kind) ∧
        ∀ config, (Analysis.ofBaseline config baseline).map Report.render =
          (Analysis.ofBaseline config other).map Report.render) ∧
    ∀ (surroundings : Surroundings) (tree : FileTree) (root : Text) (base : Path)
      (endings : List Text), tree.WellFormed → tree.isDirectory (.parse root) = .ok true →
      let results := (tree.walk (.parse root) endings).map (extractFile tree base)
      ∀ completed, results.Perm completed →
        (extractTree surroundings (.parse root) base endings).Leaves tree
          (.ok (.ofResults completed,
            Extraction.timing surroundings.took (Extraction.inventories results))) tree := by
  constructor
  · intro xs zs ys distinct moved same
    have equal : Baseline.ofInventories (xs.map Inventory.normal) =
        Baseline.ofInventories (ys.map Inventory.normal) := by
      rw [← Inventory.map_normal same]
      refine Baseline.ofInventories_perm ?_ (moved.map Inventory.normal)
      rwa [List.map_map]
    intro baseline other
    have : baseline = other := equal
    rw [this]
    exact ⟨rfl, rfl, fun _ => rfl, fun _ => rfl⟩
  · intro surroundings tree root base endings wellFormed there results completed moved
    have distinct : (results.map Extraction.pathOf).Nodup :=
      wellFormed.nodup_results (fun segment mem => Path.isSegment_of_mem_parse mem) base endings
    rw [← Extraction.ofResults_perm distinct moved]
    exact extractTree_leaves surroundings base endings there

/-- A stylesheet, one that ends too early and one that holds no text. -/
def unevenTree : FileTree where
  working := ["work".toList]
  nodes := [(["a.scss".toList], .file (.text ":root \x7b --a: 1; \x7d\n".toList)),
    (["b.scss".toList], .file (.text ":root \x7b".toList)),
    (["c.scss".toList], .file (.binary [255]))]

theorem documents_of_reordered_uneven :
    (let baseline := Baseline.ofInventories
      [.ofLists "b".toList ["--b".toList, "--a".toList] [] [] [], .ofLists "a".toList [] [] [] []]
    let other := Baseline.ofInventories
      [.ofLists "a".toList [] [] [] [],
        .ofLists "b".toList ["--a".toList, "--b".toList, "--a".toList] [] [] []]
    baseline.json = other.json ∧ baseline.csv = other.csv) ∧
    unevenTree.WellFormed ∧ unevenTree.isDirectory (.parse ".".toList) = .ok true ∧
    let results := (unevenTree.walk (.parse ".".toList) [".scss".toList]).map
      (extractFile unevenTree (.parse ".".toList))
    (Extraction.errors results).length = 2 ∧
    (extractTree { settings := { workers := 1 } } (.parse ".".toList) (.parse ".".toList)
        [".scss".toList]).Leaves unevenTree
      (.ok (.ofResults results.reverse,
        Extraction.timing (fun _ => 0) (Extraction.inventories results))) unevenTree := by
  have wellFormed : unevenTree.WellFormed := by decide +kernel
  have there : unevenTree.isDirectory (.parse ".".toList) = .ok true := by decide +kernel
  refine ⟨?_, wellFormed, there, by decide +kernel, ?_⟩
  · have same : Inventory.SameNames ⟨"b".toList, ["--b".toList, "--a".toList], [], [], []⟩
        ⟨"b".toList, ["--a".toList, "--b".toList, "--a".toList], [], [], []⟩ := by
      refine ⟨rfl, fun kind name => ?_⟩
      cases kind <;> simp [Inventory.names, or_comm]
    have reordered := documents_of_reordered.1
      [⟨"b".toList, ["--b".toList, "--a".toList], [], [], []⟩, ⟨"a".toList, [], [], [], []⟩]
      [⟨"a".toList, [], [], [], []⟩, ⟨"b".toList, ["--b".toList, "--a".toList], [], [], []⟩]
      [⟨"a".toList, [], [], [], []⟩,
        ⟨"b".toList, ["--a".toList, "--b".toList, "--a".toList], [], [], []⟩]
      (by decide) (List.Perm.swap _ _ _) (.cons ⟨rfl, fun _ _ => Iff.rfl⟩ (.cons same .nil))
    exact ⟨reordered.1, reordered.2.1⟩
  · exact documents_of_reordered.2 { settings := { workers := 1 } } unevenTree ".".toList
      (.parse ".".toList) [".scss".toList] wellFormed there _ (List.reverse_perm _).symm

end StyleTokens
