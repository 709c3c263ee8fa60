import StyleTokens.Command.Report
import StyleTokens.Proofs.Action
import StyleTokens.Proofs.Analysis

/-!
# The groups are the duplicates

The search for duplicates fails for a name that is empty or that no file can hold, and for nothing
else. The private-use characters that stand for unpaired surrogates are taken for them here. What is
found are the duplicates of the baseline: the names of which several files have a declaration, and
the clusters of similar names that several files declare together. Each group lists the files in
question, names the first of them by rank and path as the canonical one, and leaves the decision
open.

## Main definitions

* `Baseline.Valid`: a baseline as it is kept
* `Baseline.Refused`: a name that the search for duplicates refuses
* `declaringAny`: the files that declare one of some names
* `KindAnalysis.IsExact`: the groups of a kind are its duplicates

## Main results

* `Baseline.valid_ofInventories`: the baseline of inventories is valid
* `Baseline.Indexes.isExact_ofIndex`: the groups of an index are the duplicates
* `analyze_finds`: the search for duplicates
-/

namespace StyleTokens

open StyleTokens.Action (Leaves leaves_pure leaves_warn leaves_ofExcept_of_ok
  leaves_ofExcept_of_error leaves_forM)

/-! ## Baselines as they are kept -/

namespace Table

variable {κ α : Type} [LT κ] [DecidableLT κ] {k : κ} {v : α} {e : κ × α} {table : Table κ α}

theorem mem_of_mem_insert (h : e ∈ table.insert k v) : e = (k, v) ∨ e ∈ table := by
  induction table with
  | nil => exact .inl (List.mem_singleton.mp h)
  | cons first table ih =>
    rw [insert] at h
    split_ifs at h
    · exact List.mem_cons.mp h
    · rcases List.mem_cons.mp h with rfl | h
      · exact .inr List.mem_cons_self
      · exact (ih h).imp_right (List.mem_cons_of_mem first)
    · exact (List.mem_cons.mp h).imp_right (List.mem_cons_of_mem first)

/-- All entries of the table of a list come from the list. -/
theorem mem_of_mem_ofList {entries : List (κ × α)} (h : e ∈ Table.ofList entries) :
    e ∈ entries := by
  have step : ∀ (entries : List (κ × α)) (table : Table κ α),
      e ∈ entries.foldl (fun table e => table.insert e.1 e.2) table → e ∈ table ∨ e ∈ entries := by
    intro entries
    induction entries with
    | nil => exact fun _ h => .inl h
    | cons first entries ih =>
      intro table h
      rcases ih _ h with h | h
      · rcases mem_of_mem_insert h with rfl | h
        · exact .inr List.mem_cons_self
        · exact .inl h
      · exact .inr (List.mem_cons_of_mem first h)
  exact (step entries [] h).resolve_left List.not_mem_nil

end Table

namespace Baseline

variable {baseline : Baseline} {kind : TokenKind}

/-- A baseline as it is kept: its paths stand in order, each before its own inventory, and the names
of the inventories stand in order, too. -/
structure Valid (baseline : Baseline) : Prop where
  strict : Table.Strict baseline.files
  keyed : ∀ e ∈ baseline.files, e.2.path = e.1
  names : ∀ e ∈ baseline.files, ∀ kind, Ascending.Strict (e.2.names kind)

/-- The baseline of inventories is valid, whatever their order and also if a path comes twice. -/
theorem valid_ofInventories {given : List Inventory}
    (h : ∀ i ∈ given, ∀ kind, Ascending.Strict (i.names kind)) : (ofInventories given).Valid where
  strict := Table.strict_ofList _
  keyed := by
    intro e mem
    obtain ⟨i, -, rfl⟩ := List.mem_map.mp (Table.mem_of_mem_ofList mem)
    rfl
  names := by
    intro e mem kind
    obtain ⟨i, listed, rfl⟩ := List.mem_map.mp (Table.mem_of_mem_ofList mem)
    exact h i listed kind

/-- The inventories of a baseline, in the order of their paths. -/
def inventories (baseline : Baseline) : List Inventory :=
  baseline.files.map Prod.snd

namespace Valid

variable (h : baseline.Valid)

include h

theorem paths : baseline.inventories.map Inventory.path = baseline.files.keys := by
  rw [Baseline.inventories, List.map_map]
  exact List.map_congr_left h.keyed

theorem distinct : (baseline.inventories.map Inventory.path).Nodup := by
  rw [h.paths]
  exact Ascending.Strict.nodup h.strict

/-- A valid baseline is that of its own inventories. -/
theorem ofInventories_inventories : ofInventories baseline.inventories = baseline := by
  have entries : baseline.inventories.map (fun i => (i.path, i)) = baseline.files := by
    rw [Baseline.inventories, List.map_map]
    refine (List.map_congr_left fun e mem => ?_).trans (List.map_id _)
    exact Prod.ext (h.keyed e mem) rfl
  rw [ofInventories, entries, Table.ofList_eq_self h.strict]

end Valid

/-! ## Names that are refused -/

/-- A name that the search for duplicates refuses: it is empty, or no file can hold it, or it has a
private-use character that stands for an unpaired surrogate. -/
def Refused (baseline : Baseline) (kind : TokenKind) : Prop :=
  ∃ i ∈ baseline.inventories, ∃ name ∈ i.names kind, name = [] ∨ Text.isWhole name = false

instance (baseline : Baseline) (kind : TokenKind) : Decidable (baseline.Refused kind) :=
  inferInstanceAs (Decidable (∃ _ ∈ _, ∃ _ ∈ _, _))

theorem nameFault?_eq_none_iff {name : Text} :
    nameFault? name = none ↔ name ≠ [] ∧ name.isWhole := by
  unfold nameFault?
  split_ifs with empty whole
  · simp_all
  · simp_all
  · simp_all

/-- **A check fails** exactly if there is such a name. -/
theorem checkNames_cases (baseline : Baseline) (kind : TokenKind) :
    baseline.Refused kind ∧
        (∃ fault, baseline.checkNames kind = .error [⟨["name".toList], fault⟩]) ∨
      ¬baseline.Refused kind ∧ baseline.checkNames kind = .ok () := by
  have search : (baseline.files.findSome? fun e =>
      (e.2.names kind).findSome? nameFault?) = none ↔ ¬baseline.Refused kind := by
    simp only [List.findSome?_eq_none_iff, nameFault?_eq_none_iff, Refused, inventories,
      List.mem_map]
    constructor
    · rintro sound ⟨_, ⟨e, mem, rfl⟩, name, listed, empty | broken⟩
      · exact (sound e mem name listed).1 empty
      · rw [(sound e mem name listed).2] at broken
        cases broken
    · intro sound e mem name listed
      refine ⟨fun empty => ?_, ?_⟩
      · exact sound ⟨e.2, ⟨e, mem, rfl⟩, name, listed, .inl empty⟩
      · by_contra broken
        exact sound ⟨e.2, ⟨e, mem, rfl⟩, name, listed, .inr (by simpa using broken)⟩
  unfold checkNames
  split
  next fault found =>
    left
    refine ⟨?_, fault, rfl⟩
    by_contra sound
    cases found.symm.trans (search.mpr sound)
  next none => exact .inr ⟨search.mp none, rfl⟩

end Baseline

/-! ## The index tells the declaring files -/

namespace Baseline.Indexes

variable {inventories : List Inventory} {kind : TokenKind} {index : Index} {name : Text}

theorem getD_find? (h : Indexes inventories kind index) (name : Text) :
    (index.find? name).getD [] = declaringFiles kind inventories name := by
  cases found : index.find? name with
  | some files => exact ((h.find? name files).mp found).2
  | none =>
    by_contra ne
    have some_files : declaringFiles kind inventories name ≠ [] := fun nil => ne nil.symm
    rw [(h.find? name _).mpr ⟨some_files, rfl⟩] at found
    cases found

theorem mem_keys_iff (h : Indexes inventories kind index) :
    name ∈ index.keys ↔ name ∈ inventories.flatMap fun i => i.names kind := by
  rw [List.mem_flatMap]
  constructor
  · exact h.exists_of_mem_keys
  · rintro ⟨i, mem, declared⟩
    have listed : i.path ∈ declaringFiles kind inventories name :=
      mem_declaringFiles.mpr ⟨i, mem, declared, rfl⟩
    have found := (h.find? name _).mpr ⟨List.ne_nil_of_mem listed, rfl⟩
    exact List.mem_map_of_mem ((Table.mem_iff_find? h.strict).mpr found)

end Baseline.Indexes

/-- The files that declare one of the names, in ascending order. -/
def declaringAny (kind : TokenKind) (inventories : List Inventory) (names : List Text) :
    List Text :=
  Ascending.ofList (names.flatMap (declaringFiles kind inventories))

/-! ## The groups of a kind -/

/-- **The groups of a kind are its duplicates.** -/
structure KindAnalysis.IsExact (config : AnalyzerConfig) (inventories : List Inventory)
    (found : KindAnalysis) : Prop where
  /-- The groups of one name stand in the order of their names. -/
  exactOrder : Ascending.Strict (found.exact.map Group.representative)
  /-- There is one for every name that at least two files declare. -/
  exact : ∀ group, group ∈ found.exact ↔ ∃ name,
    2 ≤ (declaringFiles found.kind inventories name).length ∧
      group = .ofFiles config found.kind .exact [name] (declaringFiles found.kind inventories name)
  /-- The groups of similar names stand in the order of their first names. -/
  nearOrder : Ascending.Strict (found.near.map Group.representative)
  nearNames : ∀ group ∈ found.near, Ascending.Strict group.names
  /-- There is one for every cluster that at least two files declare together. -/
  near : ∀ group, group ∈ found.near ↔
    ∃ names ∈ clusters config.threshold (inventories.flatMap fun i => i.names found.kind),
      2 ≤ (declaringAny found.kind inventories names).length ∧
        group = .ofFiles config found.kind .near names (declaringAny found.kind inventories names)
  files : ∀ group ∈ found.exact ++ found.near, Ascending.Strict group.files
  /-- The canonical file is the first one, by rank and then by path. -/
  canonical : ∀ group ∈ found.exact ++ found.near, group.canonical ∈ group.files ∧
    ∀ file ∈ group.files, file = group.canonical ∨
      Rank.Precedes config.priority group.canonical file
  undecided : ∀ group ∈ found.exact ++ found.near, group.disposition = .unset
  /-- No group breaks the rules. -/
  accepted : ∀ group ∈ found.exact ++ found.near, group.check = .ok group

variable {config : AnalyzerConfig} {kind : TokenKind} {index : Index} {inventories : List Inventory}

theorem Group.canonical_ofFiles {matchType : MatchType} {names files : List Text}
    (ne : files ≠ []) :
    (Group.ofFiles config kind matchType names files).canonical ∈ files ∧
      ∀ file ∈ files, file = (Group.ofFiles config kind matchType names files).canonical ∨
        Rank.Precedes config.priority (Group.ofFiles config kind matchType names files).canonical
          file := by
  obtain ⟨canonical, mem, eq⟩ := Rank.canonical?_eq_some config.priority ne
  have first := Rank.precedes_of_canonical? eq
  rw [ofFiles, eq]
  exact ⟨mem, first⟩

theorem Index.filesOf_eq (h : Baseline.Indexes inventories kind index) (names : List Text) :
    index.filesOf names = declaringAny kind inventories names := by
  rw [filesOf, declaringAny]
  congr 1
  exact List.flatMap_congr fun name _ => h.getD_find? name

namespace Baseline.Indexes

variable {group : Group} (h : Indexes inventories kind index)

include h

theorem mem_exactGroups_iff : group ∈ exactGroups config kind index ↔ ∃ name,
    2 ≤ (declaringFiles kind inventories name).length ∧
      group = .ofFiles config kind .exact [name] (declaringFiles kind inventories name) := by
  rw [mem_exactGroups h.strict]
  constructor
  · rintro ⟨name, files, found, two, rfl⟩
    obtain ⟨-, rfl⟩ := (h.find? name files).mp found
    rw [Ascending.ofList_eq_self (strict_declaringFiles kind inventories name)] at two ⊢
    exact ⟨name, two, rfl⟩
  · rintro ⟨name, two, rfl⟩
    -- a name that no file declares is no key, but two files do
    have ne : declaringFiles kind inventories name ≠ [] := by
      intro nil
      simp [nil] at two
    refine ⟨name, _, (h.find? name _).mpr ⟨ne, rfl⟩, ?_⟩
    rw [Ascending.ofList_eq_self (strict_declaringFiles kind inventories name)]
    exact ⟨two, rfl⟩

theorem mem_nearGroups_iff : group ∈ nearGroups config kind index ↔
    ∃ names ∈ clusters config.threshold (inventories.flatMap fun i => i.names kind),
      2 ≤ (declaringAny kind inventories names).length ∧
        group = .ofFiles config kind .near names (declaringAny kind inventories names) := by
  -- the clusters are those of the keys of the index, which are the names of the inventories
  rw [← clusters_congr config.threshold fun name => h.mem_keys_iff]
  constructor
  · intro mem
    obtain ⟨names, cluster, two, rfl⟩ := mem_nearGroups mem
    rw [Index.filesOf_eq h] at two ⊢
    exact ⟨names, cluster, two, rfl⟩
  · rintro ⟨names, cluster, two, rfl⟩
    rw [← Index.filesOf_eq h] at two ⊢
    exact mem_nearGroups_of_mem_clusters cluster two

/-- The groups of one name stand in the order of their names. -/
theorem strict_exactGroups : Ascending.Strict ((exactGroups config kind index).map
    Group.representative) := by
  refine List.pairwise_map.mpr (List.pairwise_filterMap.mpr ?_)
  refine (List.pairwise_map.mp h.strict).imp ?_
  rintro ⟨name, files⟩ ⟨other, files'⟩ lt group found group' found'
  obtain rfl := Option.some.inj (Option.ite_none_left_eq_some.mp found).2
  obtain rfl := Option.some.inj (Option.ite_none_left_eq_some.mp found').2
  exact lt

omit h in
/-- The groups of similar names stand in the order of their first names. -/
theorem strict_nearGroups : Ascending.Strict ((nearGroups config kind index).map
    Group.representative) := by
  refine List.pairwise_map.mpr (List.pairwise_filterMap.mpr (List.pairwise_map.mpr
    ((pairwise_clusters config.threshold index.keys).imp ?_)))
  intro names later lt group found group' found'
  obtain rfl := Option.some.inj (Option.ite_none_left_eq_some.mp found).2
  obtain rfl := Option.some.inj (Option.ite_none_left_eq_some.mp found').2
  exact lt

/-- Every group is made of at least two files in order, and of as many names as its match type asks
for. -/
theorem exists_of_mem_ofIndex
    (mem : group ∈ exactGroups config kind index ++ nearGroups config kind index) :
    ∃ matchType names files, group = .ofFiles config kind matchType names files ∧
      Ascending.Strict files ∧ 2 ≤ files.length ∧ group.Valid := by
  rcases List.mem_append.mp mem with mem | mem
  · obtain ⟨name, two, rfl⟩ := h.mem_exactGroups_iff.mp mem
    have strict := strict_declaringFiles kind inventories name
    exact ⟨.exact, [name], _, rfl, strict, two,
      Group.valid_ofFiles strict two nofun (fun _ => rfl) nofun⟩
  · obtain ⟨names, cluster, two, rfl⟩ := h.mem_nearGroups_iff.mp mem
    have strict : Ascending.Strict (declaringAny kind inventories names) :=
      Ascending.strict_ofList _
    have some_names := two_le_of_mem_clusters cluster
    refine ⟨.near, names, _, rfl, strict, two, Group.valid_ofFiles strict two ?_ nofun fun _ => ?_⟩
    · rintro rfl
      simp at some_names
    · exact ⟨(strict_of_mem_clusters cluster).nodup, some_names⟩

/-- **The groups of an index are the duplicates.** -/
theorem isExact_ofIndex (config : AnalyzerConfig) :
    (Analysis.ofIndex config kind index).IsExact config inventories where
  exactOrder := h.strict_exactGroups
  exact _ := h.mem_exactGroups_iff
  nearOrder := strict_nearGroups
  nearNames := by
    intro group mem
    obtain ⟨names, cluster, -, rfl⟩ := mem_nearGroups mem
    exact strict_of_mem_clusters cluster
  near _ := h.mem_nearGroups_iff
  files := by
    intro group mem
    obtain ⟨_, _, _, rfl, strict, -, -⟩ := h.exists_of_mem_ofIndex mem
    exact strict
  canonical := by
    intro group mem
    obtain ⟨_, _, files, rfl, -, two, -⟩ := h.exists_of_mem_ofIndex mem
    refine Group.canonical_ofFiles ?_
    rintro rfl
    simp at two
  undecided := by
    intro group mem
    obtain ⟨_, _, _, rfl, -, -, -⟩ := h.exists_of_mem_ofIndex mem
    rfl
  accepted := by
    intro group mem
    obtain ⟨_, _, _, -, -, -, valid⟩ := h.exists_of_mem_ofIndex mem
    exact Group.check_eq_ok_iff.mpr valid

end Baseline.Indexes

/-! ## The search -/

section Search

variable {surroundings : Surroundings} {baseline : Baseline} {tree : FileTree}

/-- A kind without refused names is indexed. -/
theorem Baseline.Valid.exists_indexes (h : baseline.Valid) (sound : ¬baseline.Refused kind) :
    ∃ index, Baseline.Indexes baseline.inventories kind index := by
  refine Baseline.exists_indexes (fun i mem => ⟨?_, fun name listed empty => ?_⟩) h.distinct
  · obtain ⟨e, listed, rfl⟩ := List.mem_map.mp mem
    exact h.names e listed kind
  · exact sound ⟨i, mem, name, listed, .inl empty⟩

theorem Baseline.Valid.index_eq (h : baseline.Valid)
    (indexes : Baseline.Indexes baseline.inventories kind index) :
    baseline.index kind = .ok index := by
  rw [← indexes.eq, h.ofInventories_inventories]

/-- **The search in one kind** fails for a refused name, and else gives the groups of the index. -/
theorem analyzeKind_cases (surroundings : Surroundings) (config : AnalyzerConfig)
    (h : baseline.Valid) (kind : TokenKind) :
    (baseline.Refused kind ∧ ∃ fault, (analyzeKind surroundings config baseline kind).Leaves tree
        (.error (.invalid "Token".toList [⟨["name".toList], fault⟩])) tree) ∨
      ¬baseline.Refused kind ∧ ∃ index, Baseline.Indexes baseline.inventories kind index ∧
        (analyzeKind surroundings config baseline kind).Leaves tree
          (.ok (Analysis.ofIndex config kind index)) tree := by
  rcases baseline.checkNames_cases kind with ⟨refused, fault, failed⟩ | ⟨sound, passed⟩
  · exact .inl ⟨refused, fault, (leaves_ofExcept_of_error failed).bind_error⟩
  · obtain ⟨index, indexes⟩ := h.exists_indexes sound
    refine .inr ⟨sound, index, indexes, (leaves_ofExcept_of_ok passed).bind ?_⟩
    refine (leaves_ofExcept_of_ok (h.index_eq indexes)).bind ?_
    dsimp only
    split_ifs
    · exact (leaves_forM (fun _ => leaves_warn _) _).bind ((leaves_warn _).bind leaves_pure)
    · exact leaves_pure

/-- The search goes through the kinds one after another. -/
theorem analyze_eq (surroundings : Surroundings) (config : AnalyzerConfig) (baseline : Baseline) :
    analyze surroundings config baseline = (do
      let properties ← analyzeKind surroundings config baseline .property
      let blocks ← analyzeKind surroundings config baseline .block
      let functions ← analyzeKind surroundings config baseline .function
      return ⟨[properties, blocks, functions]⟩) := by
  simp [analyze, TokenKind.grouped]

/-- **The search** fails for the first kind with a refused name, and else gives the groups of the
indexes of all kinds. -/
theorem analyze_cases (surroundings : Surroundings) (config : AnalyzerConfig) (h : baseline.Valid) :
    ((∃ kind ∈ TokenKind.grouped, baseline.Refused kind) ∧
      ∃ fault, (analyze surroundings config baseline).Leaves tree
        (.error (.invalid "Token".toList [⟨["name".toList], fault⟩])) tree) ∨
    ¬(∃ kind ∈ TokenKind.grouped, baseline.Refused kind) ∧ ∃ properties blocks functions,
      Baseline.Indexes baseline.inventories .property properties ∧
      Baseline.Indexes baseline.inventories .block blocks ∧
      Baseline.Indexes baseline.inventories .function functions ∧
      (analyze surroundings config baseline).Leaves tree
        (.ok ⟨[Analysis.ofIndex config .property properties, Analysis.ofIndex config .block blocks,
          Analysis.ofIndex config .function functions]⟩) tree := by
  rw [analyze_eq]
  rcases analyzeKind_cases surroundings config h .property with
    ⟨refused, fault, failed⟩ | ⟨sound₁, properties, index₁, first⟩
  -- a kind that fails hides what the later ones would give
  · exact .inl ⟨⟨.property, by decide, refused⟩, fault, failed.bind_error⟩
  rcases analyzeKind_cases surroundings config h .block with
    ⟨refused, fault, failed⟩ | ⟨sound₂, blocks, index₂, second⟩
  · exact .inl ⟨⟨.block, by decide, refused⟩, fault, first.bind failed.bind_error⟩
  rcases analyzeKind_cases surroundings config h .function with
    ⟨refused, fault, failed⟩ | ⟨sound₃, functions, index₃, third⟩
  · exact .inl ⟨⟨.function, by decide, refused⟩, fault, first.bind (second.bind failed.bind_error)⟩
  refine .inr ⟨?_, properties, blocks, functions, index₁, index₂, index₃,
    first.bind (second.bind (third.bind leaves_pure))⟩
  rintro ⟨kind, mem, refused⟩
  cases kind with
  | property => exact sound₁ refused
  | block => exact sound₂ refused
  | function => exact sound₃ refused
  | moduleRef => exact absurd mem (by decide)

end Search

/-- **The search for duplicates** fails exactly if a property, a block or a function has a name that
is refused: it is empty, or taken for one that no file can hold. Otherwise it gives the groups of
these kinds in their order, and the groups of each kind are its duplicates. -/
theorem analyze_finds (surroundings : Surroundings) (config : AnalyzerConfig) (baseline : Baseline)
    (valid : baseline.Valid) (tree : FileTree) :
    let search := analyze surroundings config baseline
    ((∃ fault, search.Leaves tree
        (.error (.invalid "Token".toList [⟨["name".toList], fault⟩])) tree) ↔
      ∃ kind ∈ TokenKind.grouped, baseline.Refused kind) ∧
    (¬(∃ kind ∈ TokenKind.grouped, baseline.Refused kind) → ∃ analysis,
      search.Leaves tree (.ok analysis) tree ∧ Analysis.ofBaseline config baseline = .ok analysis ∧
      analysis.kinds.map KindAnalysis.kind = [.property, .block, .function] ∧
      ∀ found ∈ analysis.kinds, found.IsExact config baseline.inventories) := by
  intro search
  rcases analyze_cases surroundings config valid with
    ⟨refused, failed⟩ | ⟨sound, properties, blocks, functions, index₁, index₂, index₃, found⟩
  · exact ⟨iff_of_true failed refused, fun sound => absurd refused sound⟩
  · refine ⟨iff_of_false ?_ sound, fun _ => ⟨_, found, ?_, rfl, ?_⟩⟩
    · rintro ⟨fault, failed⟩
      cases failed.unique found
    · exact Analysis.ofBaseline_eq_ok (valid.index_eq index₁) (valid.index_eq index₂)
        (valid.index_eq index₃)
    · simp only [List.forall_mem_cons]
      exact ⟨index₁.isExact_ofIndex config, index₂.isExact_ofIndex config,
        index₃.isExact_ofIndex config, nofun⟩

/-- Two stylesheets that declare a property and two similar blocks. -/
def twinBaseline : Baseline :=
  .ofInventories [.ofLists "b.scss".toList ["--a".toList] ["gap".toList] [] [],
    .ofLists "core/a.scss".toList ["--a".toList] ["gaps".toList] [] []]

theorem analyze_finds_twins :
    twinBaseline.Valid ∧ ¬(∃ kind ∈ TokenKind.grouped, twinBaseline.Refused kind) ∧
    ∃ analysis, (analyze { settings := { workers := 1 } } {} twinBaseline).Leaves ⟨[], []⟩
        (.ok analysis) ⟨[], []⟩ ∧
      analysis.kinds.map KindAnalysis.kind = [.property, .block, .function] ∧
      ∀ found ∈ analysis.kinds, found.IsExact {} twinBaseline.inventories := by
  have valid : twinBaseline.Valid := by
    refine Baseline.valid_ofInventories fun i mem kind => ?_
    simp only [List.mem_cons, List.not_mem_nil, or_false] at mem
    rcases mem with rfl | rfl <;> cases kind <;> exact Ascending.strict_ofList _
  have sound : ¬(∃ kind ∈ TokenKind.grouped, twinBaseline.Refused kind) := by decide +kernel
  obtain ⟨-, finds⟩ := analyze_finds { settings := { workers := 1 } } {} twinBaseline valid ⟨[], []⟩
  obtain ⟨analysis, found, -, rest⟩ := finds sound
  exact ⟨valid, sound, analysis, found, rest⟩

/-- A baseline in a file, with an escape for half of a surrogate pair. -/
def unpairedTree : FileTree where
  working := ["work".toList]
  nodes := [(["b.json".toList],
    .file (.text "\x7b\"a.scss\": \x7b\"properties\": [\"\\ud800\"]\x7d\x7d".toList))]

/-- A name that is not empty, but that no file can hold, is refused, too. -/
theorem analyze_finds_unpaired :
    let baseline := Baseline.ofInventories [.ofLists "a.scss".toList [[unpaired 0xd800]] [] [] []]
    ((loadBaseline (.parse "b.json".toList)).outcome { tree := unpairedTree }).1 = .ok baseline ∧
    (∀ i ∈ baseline.inventories, ∀ kind ∈ TokenKind.grouped, [] ∉ i.names kind) ∧
    ((analyze { settings := { workers := 1 } } {} baseline).outcome { tree := unpairedTree }).1 =
      .error (.invalid "Token".toList [⟨["name".toList], .textNotEncoded⟩]) := by
  intro baseline
  exact ⟨by decide +kernel, by decide +kernel, by decide +kernel⟩

end StyleTokens
