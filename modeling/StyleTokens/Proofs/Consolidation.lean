import StyleTokens.Proofs.Analysis
import StyleTokens.Proofs.Prune.Plan
import StyleTokens.Proofs.Prune.Sheet
import StyleTokens.Proofs.Report.Fill

/-!
# Merging the duplicates of sheets

The inventories of some sheets are searched for duplicates, the report of what was found is
filled in, read back, and the redundant declarations are deleted. Every property that was declared
is still declared: by the same file if there was one, and else by the canonical file only.

## Main definitions

* `inventoriesOf`, `mergeDuplicates`: the whole way from stylesheets to merged stylesheets

## Main results

* `mem_planned_merge`: what the plan deletes
* `declaringFiles_merged`: the files that declare a property after the merge
-/

namespace StyleTokens

open Report (SafePath SafeName SafeVariant)

/-- The inventories of stylesheets under their paths. -/
def inventoriesOf (files : List (Text × Text)) : Option (List Inventory) :=
  files.mapM fun (path, t) => (Inventory.extract t path).toOption

/-- The groups that are read from a report in which every decision left open is to merge. -/
def mergedGroups (analysis : Analysis) : List Group :=
  Report.read (Report.fill .merge [] (Report.render analysis)).1

/-- The stylesheets under their paths with their duplicates merged. -/
def mergeDuplicates (config : AnalyzerConfig) (files : List (Text × Text)) :
    Option (List (Text × Text)) := do
  let inventories ← inventoriesOf files
  let analysis ← (Analysis.ofBaseline config (.ofInventories inventories)).toOption
  let plan := planRemovals (mergedGroups analysis)
  return files.map fun (path, t) => (path, (prune (planned plan path) t).1)

/-- The texts of sheets under their paths. -/
def Sheet.texts (files : List (Text × Sheet)) : List (Text × Text) :=
  files.map fun (path, sheet) => (path, sheet.text)

/-- The inventories of sheets under their paths. -/
def Sheet.inventories (files : List (Text × Sheet)) : List Inventory :=
  files.map fun (path, sheet) => .ofLists path sheet.names [] [] []

/-! ## The inventories of sheets -/

theorem inventoriesOf_cons {file : Text × Text} {files : List (Text × Text)}
    {inventory : Inventory} {inventories : List Inventory}
    (read : Inventory.extract file.2 file.1 = .ok inventory)
    (others : inventoriesOf files = some inventories) :
    inventoriesOf (file :: files) = some (inventory :: inventories) := by
  rw [inventoriesOf] at others
  rw [inventoriesOf, List.mapM_cons, others]
  simp only [read]
  rfl

theorem inventoriesOf_texts (files : List (Text × Sheet)) :
    inventoriesOf (Sheet.texts files) = some (Sheet.inventories files) := by
  induction files with
  | nil => rfl
  | cons file files ih => exact inventoriesOf_cons (file.2.extract_text file.1) ih

variable {files : List (Text × Sheet)} {kind : TokenKind} {name : Text}

/-- The names of a sheet are names of custom properties. -/
theorem Sheet.exists_customProperty {sheet : Sheet} (h : name ∈ sheet.names) :
    ∃ property : CustomProperty, property.text = name := by
  obtain ⟨rule, -, mem⟩ := List.mem_flatMap.mp h
  obtain ⟨d, -, rfl⟩ := List.mem_map.mp mem
  exact ⟨d.name, rfl⟩

theorem mem_names_inventories {inventory : Inventory} (h : inventory ∈ Sheet.inventories files)
    (hn : name ∈ inventory.names kind) :
    kind = .property ∧ ∃ property : CustomProperty, property.text = name := by
  obtain ⟨⟨path, sheet⟩, -, rfl⟩ := List.mem_map.mp h
  cases kind with
  | property => exact ⟨rfl, Sheet.exists_customProperty (Ascending.mem_ofList.mp hn)⟩
  | block | function | moduleRef => cases hn

theorem ordered_inventories (files : List (Text × Sheet)) (kind : TokenKind) :
    ∀ inventory ∈ Sheet.inventories files, inventory.Ordered kind := by
  intro inventory h
  refine ⟨?_, fun name hn => ?_⟩
  · obtain ⟨⟨path, sheet⟩, -, rfl⟩ := List.mem_map.mp h
    cases kind <;> exact Ascending.strict_ofList _
  · obtain ⟨-, property, rfl⟩ := mem_names_inventories h hn
    exact property.text_ne_nil

/-- The name of a custom property can stand in any header. -/
theorem CustomProperty.safeName (property : CustomProperty) :
    SafeName property.text ∧ ',' ∉ property.text := by
  refine ⟨⟨property.text_ne_nil, fun c hc => ?_⟩, fun hc => ?_⟩
  · exact (of_isTokenChar (property.isTokenChar_of_mem hc)).2.1
  · exact (of_isTokenChar (property.isTokenChar_of_mem hc)).2.2.2.2.1 rfl

theorem mem_declaringFiles_sheets {path : Text} :
    path ∈ declaringFiles .property (Sheet.inventories files) name ↔
      ∃ sheet : Sheet, (path, sheet) ∈ files ∧ name ∈ sheet.names := by
  rw [mem_declaringFiles]
  constructor
  · rintro ⟨inventory, mem, declared, rfl⟩
    obtain ⟨⟨path, sheet⟩, file, rfl⟩ := List.mem_map.mp mem
    exact ⟨sheet, file, Ascending.mem_ofList.mp declared⟩
  · rintro ⟨sheet, file, declared⟩
    exact ⟨_, List.mem_map_of_mem file, Ascending.mem_ofList.mpr declared, rfl⟩

/-! ## The analysis of sheets -/

/-- Paths that can be written into a report and are all different. -/
structure Sheet.SafePaths (files : List (Text × Sheet)) : Prop where
  distinct : (files.map Prod.fst).Nodup
  safe : ∀ file ∈ files, SafePath file.1
  /-- The paths do not look like a decision. -/
  unmarked : ∀ file ∈ files, ¬Text.mentions "Disposition:".toList file.1

/-- The index of sheets. -/
abbrev IndexOf (files : List (Text × Sheet)) : TokenKind → Index → Prop :=
  Baseline.Indexes (Sheet.inventories files)

theorem exists_indexOf (h : Sheet.SafePaths files) (kind : TokenKind) :
    ∃ index, IndexOf files kind index := by
  have distinct : ((Sheet.inventories files).map Inventory.path).Nodup := by
    rw [Sheet.inventories, List.map_map]
    exact h.distinct
  exact Baseline.exists_indexes (ordered_inventories files kind) distinct

namespace IndexOf

variable {index : Index} {config : AnalyzerConfig}

theorem path_of_lists (h : IndexOf files kind index) {file : Text} (listed : index.Lists file) :
    file ∈ files.map Prod.fst := by
  obtain ⟨name, found, eq, mem⟩ := listed
  obtain ⟨inventory, hi, -, rfl⟩ := h.exists_of_find? eq mem
  obtain ⟨⟨path, sheet⟩, hf, rfl⟩ := List.mem_map.mp hi
  exact List.mem_map_of_mem hf

theorem name_of_mem_keys (h : IndexOf files kind index) (hn : name ∈ index.keys) :
    kind = .property ∧ ∃ property : CustomProperty, property.text = name := by
  obtain ⟨inventory, hi, declared⟩ := h.exists_of_mem_keys hn
  exact mem_names_inventories hi declared

theorem reportable (h : IndexOf files kind index) (safe : Sheet.SafePaths files) :
    index.Reportable where
  strict := h.strict
  names := by
    intro name hn
    obtain ⟨-, property, rfl⟩ := h.name_of_mem_keys hn
    obtain ⟨named, noComma⟩ := property.safeName
    exact ⟨named, named.safeVariant noComma⟩
  paths := by
    intro file listed
    obtain ⟨pair, hp, rfl⟩ := List.mem_map.mp (h.path_of_lists listed)
    exact safe.safe pair hp

/-- The groups of sheets can be filled in. -/
theorem fillable (h : IndexOf files kind index) (safe : Sheet.SafePaths files) {group : Group}
    (hg : group ∈ exactGroups config kind index ++ nearGroups config kind index) :
    group.Fillable where
  toReportable := by
    have reportable : (Analysis.ofIndex config kind index).Reportable :=
      Analysis.reportable_ofIndex (h.reportable safe)
    rcases List.mem_append.mp hg with exact | near
    · exact (reportable.exact group exact).2.2
    · exact (reportable.near group near).2.2
  plain := by
    intro name hn
    obtain ⟨names, -⟩ := mem_index_of_mem_ofIndex h.strict hg
    obtain ⟨-, property, rfl⟩ := h.name_of_mem_keys (names name hn)
    exact property.safeName
  unmarked := by
    intro file hf
    obtain ⟨-, files'⟩ := mem_index_of_mem_ofIndex h.strict hg
    obtain ⟨pair, hp, rfl⟩ := List.mem_map.mp (h.path_of_lists (files' file hf))
    exact safe.unmarked pair hp

end IndexOf

/-! ## The plan -/

variable {config : AnalyzerConfig} {properties blocks functions : Index}

/-- What is found in sheets. -/
def analysisOf (config : AnalyzerConfig) (properties blocks functions : Index) : Analysis :=
  ⟨[Analysis.ofIndex config .property properties, Analysis.ofIndex config .block blocks,
    Analysis.ofIndex config .function functions]⟩

theorem mem_groups_analysisOf {group : Group} :
    group ∈ (analysisOf config properties blocks functions).groups ↔
      (group ∈ exactGroups config .property properties ++ nearGroups config .property properties) ∨
      (group ∈ exactGroups config .block blocks ++ nearGroups config .block blocks) ∨
      (group ∈ exactGroups config .function functions ++
        nearGroups config .function functions) := by
  simp [Analysis.groups, analysisOf, Analysis.ofIndex, or_assoc]

theorem fillable_analysisOf (safe : Sheet.SafePaths files) (hp : IndexOf files .property properties)
    (hb : IndexOf files .block blocks) (hf : IndexOf files .function functions) :
    (analysisOf config properties blocks functions).Fillable where
  reportable := by
    intro kind hk
    simp only [analysisOf, List.mem_cons, List.not_mem_nil, or_false] at hk
    rcases hk with rfl | rfl | rfl
    · exact Analysis.reportable_ofIndex (hp.reportable safe)
    · exact Analysis.reportable_ofIndex (hb.reportable safe)
    · exact Analysis.reportable_ofIndex (hf.reportable safe)
  groups := by
    intro group hg
    rcases mem_groups_analysisOf.mp hg with hg | hg | hg
    · exact hp.fillable safe hg
    · exact hb.fillable safe hg
    · exact hf.fillable safe hg

theorem decision_nil (mode : Disposition) (names : List Text) :
    Report.decision mode [] names = mode := by
  have none_given : names.findSome? (fun name => Entries.get? name
      ([] : Entries Text Disposition)) = none := by
    simp [Entries.get?]
  rw [Report.decision, none_given]
  rfl

/-- The groups that are read back are those that were found, decided. -/
theorem mergedGroups_eq {analysis : Analysis} (h : analysis.Fillable) :
    mergedGroups analysis = analysis.groups.map (Group.decided .merge []) := by
  have decides : ∀ names, Report.decision .merge [] names ≠ .unset := by
    intro names
    rw [decision_nil]
    nofun
  rw [mergedGroups, Report.fill_render h decides,
    Report.read_render (Report.reportable_decided_analysis h.reportable), Report.groups_decided]

theorem decided_ofFiles (kind : TokenKind) (matchType : MatchType) (names found : List Text) :
    (Group.ofFiles config kind matchType names found).decided .merge [] =
      { Group.ofFiles config kind matchType names found with disposition := .merge } := by
  have undecided : (Group.ofFiles config kind matchType names found).disposition = .unset := rfl
  rw [Group.decided, if_pos undecided, decision_nil]

/-- Of the groups that are found, those of one property are to be pruned. -/
theorem mem_exactGroups_of_isActionable {group : Group}
    (hg : group ∈ (analysisOf config properties blocks functions).groups)
    (actionable : (group.decided .merge []).isActionable) :
    group ∈ exactGroups config .property properties := by
  simp only [Group.isActionable, Bool.and_eq_true, decide_eq_true_eq, Report.decided_kind,
    Report.decided_matchType] at actionable
  obtain ⟨⟨-, exact⟩, property⟩ := actionable
  have noNear : ∀ {kind index}, group ∉ nearGroups config kind index := by
    intro kind index hg
    obtain ⟨names, -, -, rfl⟩ := mem_nearGroups hg
    cases exact
  have ofKind : ∀ {kind} {index : Index}, group ∈ exactGroups config kind index →
      group.kind = kind := by
    intro kind index hg
    obtain ⟨⟨name, found⟩, -, eq⟩ := List.mem_filterMap.mp hg
    obtain ⟨-, eq⟩ := Option.ite_none_left_eq_some.mp eq
    rw [← Option.some.inj eq]
    rfl
  -- the groups of blocks and functions are of another kind
  rcases mem_groups_analysisOf.mp hg with hg | hg | hg
  · exact (List.mem_append.mp hg).resolve_right noNear
  · have := ofKind ((List.mem_append.mp hg).resolve_right noNear)
    rw [property] at this
    cases this
  · have := ofKind ((List.mem_append.mp hg).resolve_right noNear)
    rw [property] at this
    cases this

/-- The files of a group that are not canonical. -/
theorem mem_redundantFiles_ofFiles {names found : List Text} {path : Text}
    {matchType : MatchType} (ne : found ≠ []) :
    path ∈ (Group.ofFiles config kind matchType names found).redundantFiles ↔
      path ∈ found ∧ Rank.canonical? config.priority found ≠ some path := by
  obtain ⟨c, -, canonical⟩ := Rank.canonical?_eq_some config.priority ne
  simp only [Group.redundantFiles, Group.ofFiles, canonical, List.mem_filter, Option.getD_some,
    decide_eq_true_eq, ne_eq, Option.some.injEq]
  exact and_congr_right fun _ => not_congr eq_comm

/-- **What the plan deletes**: the declarations of a property that several files declare, from
all of them but the canonical one. -/
theorem mem_planned_merge (safe : Sheet.SafePaths files)
    (hp : IndexOf files .property properties) (hb : IndexOf files .block blocks)
    (hf : IndexOf files .function functions) (config : AnalyzerConfig) (name path : Text) :
    name ∈ planned (planRemovals (mergedGroups
        (analysisOf config properties blocks functions))) path ↔
      2 ≤ (declaringFiles .property (Sheet.inventories files) name).length ∧
        path ∈ declaringFiles .property (Sheet.inventories files) name ∧
        Rank.canonical? config.priority (declaringFiles .property (Sheet.inventories files) name) ≠
          some path := by
  have ofList_eq : ∀ name, Ascending.ofList (declaringFiles .property (Sheet.inventories files)
      name) = declaringFiles .property (Sheet.inventories files) name := fun name =>
    Ascending.ofList_eq_self (strict_declaringFiles _ _ name)
  have some_files : 2 ≤ (declaringFiles .property (Sheet.inventories files) name).length →
      declaringFiles .property (Sheet.inventories files) name ≠ [] := by
    intro two none_found
    simp [none_found] at two
  have redundant (two : 2 ≤ (declaringFiles .property (Sheet.inventories files) name).length) :
      path ∈ (Group.ofFiles config .property .exact [name]
          (declaringFiles .property (Sheet.inventories files) name)).redundantFiles ↔ _ :=
    mem_redundantFiles_ofFiles (some_files two)
  rw [mem_planRemovals, mergedGroups_eq (fillable_analysisOf safe hp hb hf)]
  constructor
  · rintro ⟨decided, mem, actionable, mem_files, named⟩
    -- a group that is to be pruned is the group of one property and its declaring files
    obtain ⟨group, hg, rfl⟩ := List.mem_map.mp mem
    obtain ⟨name', found, eq, two, rfl⟩ :=
      (mem_exactGroups hp.strict).mp (mem_exactGroups_of_isActionable hg actionable)
    rw [decided_ofFiles] at mem_files named
    obtain rfl : name = name' := named.symm
    obtain ⟨-, rfl⟩ := (hp.find? name found).mp eq
    rw [ofList_eq] at two mem_files
    exact ⟨two, (redundant two).mp mem_files⟩
  · rintro ⟨two, mem_files⟩
    -- the index lists the declaring files of the property, so their group is found and decided
    have found := (hp.find? name _).mpr ⟨some_files two, rfl⟩
    have exact : Group.ofFiles config .property .exact [name]
        (declaringFiles .property (Sheet.inventories files) name) ∈
          exactGroups config .property properties :=
      (mem_exactGroups hp.strict).mpr ⟨name, _, found, by rwa [ofList_eq], by rw [ofList_eq]⟩
    have mem : _ ∈ (analysisOf config properties blocks functions).groups :=
      mem_groups_analysisOf.mpr (.inl (List.mem_append_left _ exact))
    refine ⟨_, List.mem_map_of_mem mem, ?_⟩
    rw [decided_ofFiles]
    exact ⟨rfl, (redundant two).mpr mem_files, rfl⟩

/-! ## The merged sheets -/

/-- The sheets without the properties that a plan lists for their paths. -/
def Sheet.pruned (plan : Entries Text (List Text)) (files : List (Text × Sheet)) :
    List (Text × Sheet) :=
  files.map fun (path, sheet) => (path, sheet.without (planned plan path))

/-- Merging the duplicates of sheets gives sheets again. -/
theorem mergeDuplicates_texts (config : AnalyzerConfig) (safe : Sheet.SafePaths files) : ∃ plan,
    mergeDuplicates config (Sheet.texts files) = some (Sheet.texts (Sheet.pruned plan files)) ∧
      ∀ name path, name ∈ planned plan path ↔
        2 ≤ (declaringFiles .property (Sheet.inventories files) name).length ∧
          path ∈ declaringFiles .property (Sheet.inventories files) name ∧
          Rank.canonical? config.priority
            (declaringFiles .property (Sheet.inventories files) name) ≠ some path := by
  obtain ⟨properties, hp⟩ := exists_indexOf safe .property
  obtain ⟨blocks, hb⟩ := exists_indexOf safe .block
  obtain ⟨functions, hf⟩ := exists_indexOf safe .function
  have deletes := mem_planned_merge safe hp hb hf config
  refine ⟨planRemovals (mergedGroups (analysisOf config properties blocks functions)), ?_, deletes⟩
  have analysed : (Analysis.ofBaseline config (.ofInventories (Sheet.inventories files))).toOption =
      some (analysisOf config properties blocks functions) := by
    rw [Analysis.ofBaseline_eq_ok hp.eq hb.eq hf.eq]
    rfl
  rw [mergeDuplicates, inventoriesOf_texts]
  simp only [Option.bind_eq_bind, Option.bind_some, analysed, Option.pure_def, Option.some.injEq]
  generalize planRemovals (mergedGroups (analysisOf config properties blocks functions)) = plan
    at deletes ⊢
  -- Each file loses the tokens that the plan lists for its path.
  rw [Sheet.texts, Sheet.texts, Sheet.pruned, List.map_map, List.map_map]
  refine List.map_congr_left fun file _ => Prod.ext rfl ?_
  refine Sheet.prune_text (fun token ht => ?_) file.2
  -- a token that is deleted is declared by some sheet
  obtain ⟨-, declared, -⟩ := (deletes token file.1).mp ht
  obtain ⟨sheet, -, mem⟩ := mem_declaringFiles_sheets.mp declared
  exact Sheet.exists_customProperty mem

theorem mem_declaringFiles_pruned {plan : Entries Text (List Text)} {path : Text} :
    path ∈ declaringFiles .property (Sheet.inventories (Sheet.pruned plan files)) name ↔
      path ∈ declaringFiles .property (Sheet.inventories files) name ∧
        name ∉ planned plan path := by
  rw [mem_declaringFiles_sheets, mem_declaringFiles_sheets]
  constructor
  · rintro ⟨kept, mem, declared⟩
    obtain ⟨⟨path, sheet⟩, file, eq⟩ := List.mem_map.mp mem
    obtain ⟨rfl, rfl⟩ := Prod.mk.inj eq
    rw [Sheet.names_without, List.mem_filter] at declared
    exact ⟨⟨sheet, file, declared.1⟩, by simpa using declared.2⟩
  · rintro ⟨⟨sheet, file, declared⟩, stays⟩
    refine ⟨sheet.without (planned plan path), List.mem_map_of_mem file, ?_⟩
    rw [Sheet.names_without, List.mem_filter]
    exact ⟨declared, by simpa using stays⟩

/-- **Merging loses no property and leaves one declaration of each.** The stylesheets are read with
the names that the sheets declare, merged and read again. A property that one file declared is
declared by this file afterwards, and one that several files declared by the canonical one of them
only. -/
theorem declaringFiles_merged (config : AnalyzerConfig) (files : List (Text × Sheet))
    (safe : Sheet.SafePaths files) :
    inventoriesOf (Sheet.texts files) = some (Sheet.inventories files) ∧
    ∃ merged after, mergeDuplicates config (Sheet.texts files) = some merged ∧
      merged.map Prod.fst = files.map Prod.fst ∧ inventoriesOf merged = some after ∧
      ∀ name, declaringFiles .property after name =
        if (declaringFiles .property (Sheet.inventories files) name).length < 2 then
          declaringFiles .property (Sheet.inventories files) name
        else (Rank.canonical? config.priority
          (declaringFiles .property (Sheet.inventories files) name)).toList := by
  obtain ⟨plan, merged_eq, deletes⟩ := mergeDuplicates_texts config safe
  refine ⟨inventoriesOf_texts files, _, _, merged_eq, ?_, inventoriesOf_texts _, fun name => ?_⟩
  · rw [Sheet.texts, Sheet.pruned, List.map_map, List.map_map]
    rfl
  · have strict := strict_declaringFiles .property (Sheet.inventories files) name
    have strict' := strict_declaringFiles .property (Sheet.inventories (Sheet.pruned plan files))
      name
    split_ifs with few
    · -- nothing is deleted where fewer than two files declare the property
      refine strict'.ext strict fun path => ?_
      rw [mem_declaringFiles_pruned, deletes]
      exact and_iff_left fun h => absurd h.1 (Nat.not_le.mpr few)
    · -- otherwise the canonical file is the only one of them that keeps the property
      have some_files : declaringFiles .property (Sheet.inventories files) name ≠ [] := by
        intro none_found
        simp [none_found] at few
      obtain ⟨c, mem, canonical⟩ :=
        Rank.canonical?_eq_some config.priority some_files
      rw [canonical]
      refine strict'.ext (List.pairwise_singleton _ c) fun path => ?_
      rw [mem_declaringFiles_pruned, deletes, canonical, Option.toList_some, List.mem_singleton]
      constructor
      · rintro ⟨declared, stays⟩
        by_contra other
        exact stays ⟨Nat.le_of_not_lt few, declared, fun eq => other (Option.some.inj eq).symm⟩
      · rintro rfl
        exact ⟨mem, fun h => h.2.2 rfl⟩

/-- The declaration of a property `--gap` or `--gap-s`. -/
def sampleDeclaration (short : Bool) (value : Text) (h : value ≠ [] ∧ ∀ c ∈ value, isInert c) :
    SheetDeclaration where
  name :=
    if short then ⟨"gap-s".toList, by decide, by decide⟩
    else ⟨"gap".toList, by decide, by decide⟩
  value := value
  nonempty := h.1
  inert := h.2

/-- Two sheets that share a property, one of them with a header that looks like a declaration. -/
def sampleSheets : List (Text × Sheet) :=
  [("b.scss".toList,
    [⟨"--gap:hover".toList, by decide, by decide, by rintro _ ⟨⟩; decide,
      [sampleDeclaration false "1px".toList (by decide)]⟩]),
   ("core/a.scss".toList,
    [⟨".a".toList, by decide, by decide, by rintro _ ⟨⟩; decide,
      [sampleDeclaration false " 2px".toList (by decide),
       sampleDeclaration true "3px".toList (by decide),
       sampleDeclaration false "4px".toList (by decide)]⟩])]

theorem declaringFiles_merged_sample :
    Sheet.SafePaths sampleSheets ∧
      declaringFiles .property (Sheet.inventories sampleSheets) "--gap".toList =
        ["b.scss".toList, "core/a.scss".toList] ∧
      inventoriesOf (Sheet.texts sampleSheets) = some (Sheet.inventories sampleSheets) ∧
      ∃ merged after, mergeDuplicates {} (Sheet.texts sampleSheets) = some merged ∧
        merged.map Prod.fst = sampleSheets.map Prod.fst ∧ inventoriesOf merged = some after ∧
        ∀ name, declaringFiles .property after name =
          if (declaringFiles .property (Sheet.inventories sampleSheets) name).length < 2 then
            declaringFiles .property (Sheet.inventories sampleSheets) name
          else (Rank.canonical? ({} : AnalyzerConfig).priority
            (declaringFiles .property (Sheet.inventories sampleSheets) name)).toList := by
  have safe : Sheet.SafePaths sampleSheets := ⟨by decide, by decide, by decide⟩
  exact ⟨safe, by decide, declaringFiles_merged {} sampleSheets safe⟩

end StyleTokens
