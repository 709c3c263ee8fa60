import StyleTokens.Baseline
import StyleTokens.Proofs.Data.Ascending
import StyleTokens.Proofs.Data.Except

/-!
# The index of a baseline

The index of a baseline lists, for every name, the files that declare it, both in ascending
order. It does not depend on the order in which the inventories were found.

## Main definitions

* `Inventory.Ordered`: an inventory whose names are in order, and none of them empty
* `declaringFiles`: the files that declare a name
* `Baseline.Indexes`: the index of the baseline of some inventories

## Main results

* `Baseline.exists_indexes`: the index of a baseline is exact
* `Baseline.Indexes.exists_of_mem_keys`: every name of the index is in an inventory
-/

namespace StyleTokens

/-- The names of the kind are in strictly ascending order, and none is empty. -/
structure Inventory.Ordered (kind : TokenKind) (inventory : Inventory) : Prop where
  strict : Ascending.Strict (inventory.names kind)
  nonempty : ∀ name ∈ inventory.names kind, name ≠ []

/-- The paths of the inventories that declare the name, as they stand. -/
def declaringPaths (kind : TokenKind) (inventories : List Inventory) (name : Text) : List Text :=
  (inventories.filter fun i => name ∈ i.names kind).map Inventory.path

/-- The files that declare a name of the kind, in ascending order. -/
def declaringFiles (kind : TokenKind) (inventories : List Inventory) (name : Text) : List Text :=
  Ascending.ofList (declaringPaths kind inventories name)

theorem mem_declaringPaths {kind : TokenKind} {inventories : List Inventory} {name path : Text} :
    path ∈ declaringPaths kind inventories name ↔
      ∃ i ∈ inventories, name ∈ i.names kind ∧ i.path = path := by
  simp [declaringPaths, and_assoc]

theorem mem_declaringFiles {kind : TokenKind} {inventories : List Inventory} {name path : Text} :
    path ∈ declaringFiles kind inventories name ↔
      ∃ i ∈ inventories, name ∈ i.names kind ∧ i.path = path :=
  Ascending.mem_ofList.trans mem_declaringPaths

theorem strict_declaringFiles (kind : TokenKind) (inventories : List Inventory) (name : Text) :
    Ascending.Strict (declaringFiles kind inventories name) :=
  Ascending.strict_ofList _

theorem Inventory.tokens_eq_ok {kind : TokenKind} {inventory : Inventory}
    (h : inventory.Ordered kind) :
    inventory.tokens kind =
      .ok ((inventory.names kind).map fun name => ⟨name, kind, inventory.path⟩) := by
  have checked : ∀ name ∈ inventory.names kind,
      Token.check kind inventory.path (id name) = .ok ⟨name, kind, inventory.path⟩ := by
    intro name mem
    simp [Token.check, h.nonempty name mem]
  rw [tokens, ← mapM_map_eq_ok checked, List.map_id]

namespace Baseline

variable {kind : TokenKind} {index : Index} {name : Text}

/-- The declaring files of a name with more files at their end. -/
def withFiles (files : Option (List Text)) : List Text → Option (List Text)
  | [] => files
  | more => some (files.getD [] ++ more)

theorem withFiles_withFiles (files : Option (List Text)) (more most : List Text) :
    withFiles (withFiles files more) most = withFiles files (more ++ most) := by
  cases more with
  | nil => rfl
  | cons file more =>
    cases most with
    | nil => simp [withFiles]
    | cons next most => simp [withFiles]

/-- The names of one file are added to the index. -/
theorem find?_addNames (path : Text) (names : List Text) (nodup : names.Nodup)
    (strict : Table.Strict index) (name : Text) :
    Table.Strict (names.foldl
        (fun index name => index.update name fun files => files.getD [] ++ [path]) index) ∧
      (names.foldl (fun index name =>
          index.update name fun files => files.getD [] ++ [path]) index).find? name =
        withFiles (index.find? name) (if name ∈ names then [path] else []) := by
  -- Order and contents go together: what is found after an update depends on the order.
  induction names generalizing index with
  | nil => exact ⟨strict, rfl⟩
  | cons first names ih =>
    rw [List.nodup_cons] at nodup
    obtain ⟨strict', found⟩ := ih nodup.2
      (Table.strict_update (f := fun files => files.getD [] ++ [path]) (k := first) strict)
    refine ⟨strict', ?_⟩
    rw [List.foldl_cons, found, Table.find?_update strict]
    by_cases same : name = first
    · subst same
      simp [nodup.1, withFiles]
    · simp [same]

theorem indexFile_eq_ok {inventory : Inventory} (h : inventory.Ordered kind)
    (strict : Table.Strict index) :
    ∃ index', indexFile kind index inventory = .ok index' ∧ Table.Strict index' ∧
      ∀ name, index'.find? name =
        withFiles (index.find? name) (declaringPaths kind [inventory] name) := by
  have added := find?_addNames inventory.path (inventory.names kind) h.strict.nodup strict
  refine ⟨_, ?_, (added []).1, fun name => ?_⟩
  · rw [indexFile, Inventory.tokens_eq_ok h]
    simp only [bind, Except.bind, pure, Except.pure, List.foldl_map]
  · rw [(added name).2]
    by_cases declared : name ∈ inventory.names kind <;> simp [declaringPaths, declared]

/-- The files are added one after another. -/
theorem foldlM_indexFile (inventories : List Inventory)
    (h : ∀ i ∈ inventories, i.Ordered kind) (strict : Table.Strict index) :
    ∃ index', inventories.foldlM (indexFile kind) index = .ok index' ∧ Table.Strict index' ∧
      ∀ name, index'.find? name =
        withFiles (index.find? name) (declaringPaths kind inventories name) := by
  induction inventories generalizing index with
  | nil => exact ⟨index, rfl, strict, fun _ => rfl⟩
  | cons inventory inventories ih =>
    rw [List.forall_mem_cons] at h
    obtain ⟨index₁, added₁, strict₁, find₁⟩ := indexFile_eq_ok h.1 strict
    obtain ⟨index₂, added₂, strict₂, find₂⟩ := ih h.2 strict₁
    refine ⟨index₂, ?_, strict₂, fun name => ?_⟩
    · rw [List.foldlM_cons, added₁]
      exact added₂
    · rw [find₂, find₁, withFiles_withFiles]
      simp [declaringPaths, ← List.filter_append, ← List.map_append]

variable {inventories : List Inventory}

theorem mem_ofInventories (distinct : (inventories.map Inventory.path).Nodup) {path : Text}
    {inventory : Inventory} : (path, inventory) ∈ (ofInventories inventories).files ↔
      inventory ∈ inventories ∧ inventory.path = path := by
  rw [ofInventories, Table.mem_ofList (by simpa [Function.comp_def] using distinct)]
  simp

theorem mem_files (distinct : (inventories.map Inventory.path).Nodup) {inventory : Inventory} :
    inventory ∈ (ofInventories inventories).files.map Prod.snd ↔ inventory ∈ inventories := by
  simp [mem_ofInventories distinct]

/-- The inventories of a baseline stand in the order of their paths. -/
theorem strict_paths (distinct : (inventories.map Inventory.path).Nodup) :
    Ascending.Strict (((ofInventories inventories).files.map Prod.snd).map Inventory.path) := by
  have keys : ((ofInventories inventories).files.map Prod.snd).map Inventory.path =
      (ofInventories inventories).files.keys := by
    rw [List.map_map]
    exact List.map_congr_left fun e he => ((mem_ofInventories distinct).mp he).2
  rw [keys]
  exact Table.strict_ofList _

/-- The files of the baseline that declare a name are in order already. -/
theorem declaringPaths_files (distinct : (inventories.map Inventory.path).Nodup) (name : Text) :
    declaringPaths kind ((ofInventories inventories).files.map Prod.snd) name =
      declaringFiles kind inventories name := by
  refine Ascending.Strict.ext ?_ (strict_declaringFiles kind inventories name) fun path => ?_
  · exact (strict_paths distinct).sublist (List.filter_sublist.map _)
  · rw [mem_declaringPaths, mem_declaringFiles]
    simp only [mem_files distinct]

/-- The index of the baseline of some inventories: it lists the declaring files of every name that
some file declares. -/
structure Indexes (inventories : List Inventory) (kind : TokenKind) (index : Index) : Prop where
  eq : (ofInventories inventories).index kind = .ok index
  strict : Table.Strict index
  find? : ∀ name files, index.find? name = some files ↔
    files ≠ [] ∧ files = declaringFiles kind inventories name

/-- **The index of a baseline is exact.** -/
theorem exists_indexes (h : ∀ i ∈ inventories, i.Ordered kind)
    (distinct : (inventories.map Inventory.path).Nodup) :
    ∃ index, Indexes inventories kind index := by
  have ordered : ∀ i ∈ (ofInventories inventories).files.map Prod.snd, i.Ordered kind :=
    fun i hi => h i ((mem_files distinct).mp hi)
  have empty : Table.Strict ([] : Index) := List.Pairwise.nil
  obtain ⟨index, eq, strict, found⟩ := foldlM_indexFile _ ordered empty
  refine ⟨index, eq, strict, fun name files => ?_⟩
  rw [found, declaringPaths_files distinct]
  -- a name that no file declares has no entry, and no entry is empty
  cases declaringFiles kind inventories name with
  | nil => simp [withFiles, Table.find?]
  | cons file rest =>
    simp only [withFiles, Table.find?, Option.getD_none, List.nil_append, Option.some.injEq]
    constructor
    · rintro rfl
      exact ⟨List.cons_ne_nil file rest, rfl⟩
    · exact fun h => h.2.symm

namespace Indexes

/-- The files of an entry have inventories that list its name. -/
theorem exists_of_find? (h : Indexes inventories kind index) {files : List Text} {file : Text}
    (found : index.find? name = some files) (mem : file ∈ files) :
    ∃ i ∈ inventories, name ∈ i.names kind ∧ i.path = file := by
  obtain ⟨-, rfl⟩ := (h.find? name files).mp found
  exact mem_declaringFiles.mp mem

/-- Every name of the index is in an inventory. -/
theorem exists_of_mem_keys (h : Indexes inventories kind index) (hn : name ∈ index.keys) :
    ∃ i ∈ inventories, name ∈ i.names kind := by
  obtain ⟨⟨name, files⟩, entry, rfl⟩ := List.mem_map.mp hn
  have found := (Table.mem_iff_find? h.strict).mp entry
  obtain ⟨file, mem⟩ := List.exists_mem_of_ne_nil _ ((h.find? name files).mp found).1
  obtain ⟨i, hi, declared, -⟩ := h.exists_of_find? found mem
  exact ⟨i, hi, declared⟩

end Indexes

end Baseline

end StyleTokens
