import StyleTokens.Proofs.Consolidation
import StyleTokens.Proofs.Inventory
import StyleTokens.Proofs.Report.Image

/-!
# The report of extracted names

The names of a stylesheet hold no blanks, so each of them is read back from the header of a group
of its own. A property may hold a comma, though, and the header of similar names separates them by
commas: a report is read back as it was found exactly if no name of a cluster has one.

## Main definitions

* `Extracted`: inventories that were extracted from stylesheets

## Main results

* `exists_inventoriesOf`: stylesheets that can be read have their inventories
* `Baseline.Indexes.reportable_ofExtracted`: the groups of extracted names can be written into a
  report
* `Report.read_render_extracted`: when the report of stylesheets is read back
-/

namespace StyleTokens

open Report (SafePath SafeName SafeVariant)

variable {files : List (Text × Text)} {inventories : List Inventory} {kind : TokenKind}
  {index : Index} {config : AnalyzerConfig}

/-! ## The inventories of stylesheets -/

/-- The inventories were extracted from the stylesheets under their paths. -/
structure Extracted (files : List (Text × Text)) (inventories : List Inventory) : Prop where
  paths : inventories.map Inventory.path = files.map Prod.fst
  source : ∀ inventory ∈ inventories, ∃ file ∈ files,
    Inventory.extract file.2 file.1 = .ok inventory

/-- Stylesheets that can be read have their inventories. -/
theorem exists_inventoriesOf
    (accepted : ∀ file ∈ files, ∃ inventory, Inventory.extract file.2 file.1 = .ok inventory) :
    ∃ inventories, inventoriesOf files = some inventories ∧ Extracted files inventories := by
  induction files with
  | nil => exact ⟨[], rfl, rfl, nofun⟩
  | cons file files ih =>
    rw [List.forall_mem_cons] at accepted
    obtain ⟨⟨first, read⟩, others⟩ := accepted
    obtain ⟨inventories, all, extracted⟩ := ih others
    refine ⟨first :: inventories, inventoriesOf_cons read all, ?_, ?_⟩
    · obtain ⟨statements, -, rfl⟩ := Inventory.exists_of_extract read
      rw [List.map_cons, List.map_cons, extracted.paths]
      rfl
    · intro inventory mem
      rcases List.mem_cons.mp mem with rfl | mem
      · exact ⟨file, List.mem_cons_self, read⟩
      · obtain ⟨other, ho, source⟩ := extracted.source inventory mem
        exact ⟨other, List.mem_cons_of_mem file ho, source⟩

namespace Extracted

theorem safeName (h : Extracted files inventories) {inventory : Inventory} {name : Text}
    (hi : inventory ∈ inventories) (other : kind ≠ .moduleRef) (hn : name ∈ inventory.names kind) :
    SafeName name := by
  obtain ⟨file, -, read⟩ := h.source inventory hi
  obtain ⟨ne, noBlank⟩ := Inventory.noBlank_of_extract read other hn
  exact ⟨ne, noBlank⟩

theorem exists_indexes (h : Extracted files inventories) (distinct : (files.map Prod.fst).Nodup)
    (kind : TokenKind) (other : kind ≠ .moduleRef) :
    ∃ index, Baseline.Indexes inventories kind index := by
  refine Baseline.exists_indexes (fun inventory hi => ⟨?_, fun name hn => ?_⟩) ?_
  · obtain ⟨file, -, read⟩ := h.source inventory hi
    obtain ⟨statements, -, rfl⟩ := Inventory.exists_of_extract read
    exact Inventory.strict_names_ofTokens
  · exact (h.safeName hi other hn).nonempty
  · rwa [h.paths]

end Extracted

/-! ## The groups of extracted names -/

namespace Baseline.Indexes

variable {group : Group} {name : Text}

theorem safeName_of_mem_keys (h : Indexes inventories kind index)
    (extracted : Extracted files inventories) (other : kind ≠ .moduleRef)
    (hn : name ∈ index.keys) : SafeName name := by
  obtain ⟨inventory, hi, declared⟩ := h.exists_of_mem_keys hn
  exact extracted.safeName hi other declared

/-- The names of the groups can stand alone in a header. -/
theorem safeName_of_mem_names (h : Indexes inventories kind index)
    (extracted : Extracted files inventories) (other : kind ≠ .moduleRef)
    (hg : group ∈ exactGroups config kind index ++ nearGroups config kind index)
    (hn : name ∈ group.names) : SafeName name := by
  obtain ⟨names, -⟩ := mem_index_of_mem_ofIndex h.strict hg
  exact h.safeName_of_mem_keys extracted other (names name hn)

/-- **The groups of extracted names can be written into a report**, if those of similar names have
no commas. -/
theorem reportable_ofExtracted (h : Indexes inventories kind index)
    (extracted : Extracted files inventories) (other : kind ≠ .moduleRef)
    (safe : ∀ file ∈ files, SafePath file.1)
    (noComma : ∀ group ∈ exactGroups config kind index ++ nearGroups config kind index,
      group.matchType = .near → ∀ name ∈ group.names, ',' ∉ name) :
    (Analysis.ofIndex config kind index).Reportable := by
  apply Analysis.reportable_of_near h.strict
  · intro name hn
    exact h.safeName_of_mem_keys extracted other hn
  · -- the files of the index are those of the stylesheets
    rintro file ⟨name, found, eq, mem⟩
    obtain ⟨inventory, hi, -, rfl⟩ := h.exists_of_find? eq mem
    have path : inventory.path ∈ files.map Prod.fst := extracted.paths ▸ List.mem_map_of_mem hi
    obtain ⟨sheet, hs, eq⟩ := List.mem_map.mp path
    rw [← eq]
    exact safe sheet hs
  · intro group hg name hn
    have inside := List.mem_append_right (exactGroups config kind index) hg
    have similar : group.matchType = .near := by
      obtain ⟨names, -, -, rfl⟩ := mem_nearGroups hg
      rfl
    have named := h.safeName_of_mem_names extracted other inside hn
    exact named.safeVariant (noComma group inside similar name hn)

end Baseline.Indexes

namespace Report

/-- **When the report of stylesheets is read back.** Stylesheets that can be read, under paths that
a report can hold, have an analysis; the header of a single name gives every name of its groups
back, and the whole report gives the groups back if and only if no name in a list of similar names
has a comma. -/
theorem read_render_extracted (config : AnalyzerConfig) (files : List (Text × Text))
    (distinct : (files.map Prod.fst).Nodup) (safe : ∀ file ∈ files, SafePath file.1)
    (accepted : ∀ file ∈ files, ∃ inventory, Inventory.extract file.2 file.1 = .ok inventory) :
    ∃ inventories analysis, inventoriesOf files = some inventories ∧
      Analysis.ofBaseline config (.ofInventories inventories) = .ok analysis ∧
      (∀ group ∈ analysis.groups, ∀ name ∈ group.names,
        Mark.ofLine ("### Token: ".toList ++ name) = .token name) ∧
      (read (render analysis) = analysis.groups ↔
        ∀ group ∈ analysis.groups, group.matchType = .near → ∀ name ∈ group.names, ',' ∉ name) := by
  obtain ⟨inventories, all, extracted⟩ := exists_inventoriesOf accepted
  obtain ⟨properties, hp⟩ := extracted.exists_indexes distinct .property nofun
  obtain ⟨blocks, hb⟩ := extracted.exists_indexes distinct .block nofun
  obtain ⟨functions, hf⟩ := extracted.exists_indexes distinct .function nofun
  refine ⟨inventories, analysisOf config properties blocks functions, all,
    Analysis.ofBaseline_eq_ok hp.eq hb.eq hf.eq, ?_, ?_, ?_⟩
  · intro group hg name hn
    apply Mark.ofLine_token
    rcases mem_groups_analysisOf.mp hg with hg | hg | hg
    · exact hp.safeName_of_mem_names extracted nofun hg hn
    · exact hb.safeName_of_mem_names extracted nofun hg hn
    · exact hf.safeName_of_mem_names extracted nofun hg hn
  · -- whatever is read from a list of names has no comma
    intro same group hg similar name hn
    rw [← same] at hg
    have header := (legible_of_mem_read hg).names name hn
    rw [similar] at header
    exact header.noComma
  · intro noComma
    apply read_render
    intro kind hk
    simp only [analysisOf, List.mem_cons, List.not_mem_nil, or_false] at hk
    rcases hk with rfl | rfl | rfl
    · apply hp.reportable_ofExtracted extracted nofun safe
      exact fun group hg => noComma group (mem_groups_analysisOf.mpr (.inl hg))
    · apply hb.reportable_ofExtracted extracted nofun safe
      exact fun group hg => noComma group (mem_groups_analysisOf.mpr (.inr (.inl hg)))
    · apply hf.reportable_ofExtracted extracted nofun safe
      exact fun group hg => noComma group (mem_groups_analysisOf.mpr (.inr (.inr hg)))

/-- Two stylesheets with one declaration each. -/
def sheetsDeclaring (first second : Text) : List (Text × Text) :=
  [("a.scss".toList, ":root \x7b ".toList ++ first ++ ": 1; \x7d".toList),
   ("b.scss".toList, ":root \x7b ".toList ++ second ++ ": 2; \x7d".toList)]

/-- One property with a comma, in the header of a single name. -/
theorem read_render_extracted_sameName :
    ∃ inventories analysis,
      inventoriesOf (sheetsDeclaring "--a,b".toList "--a,b".toList) = some inventories ∧
      Analysis.ofBaseline {} (.ofInventories inventories) = .ok analysis ∧
      (∀ group ∈ analysis.groups, ∀ name ∈ group.names,
        Mark.ofLine ("### Token: ".toList ++ name) = .token name) ∧
      (read (render analysis) = analysis.groups ↔
        ∀ group ∈ analysis.groups, group.matchType = .near → ∀ name ∈ group.names, ',' ∉ name) := by
  refine read_render_extracted {} (sheetsDeclaring "--a,b".toList "--a,b".toList)
    (by decide) (by decide) fun file hf => ?_
  simp only [sheetsDeclaring, List.mem_cons, List.not_mem_nil, or_false] at hf
  rcases hf with rfl | rfl
  · exact ⟨_, rfl⟩
  · exact ⟨_, rfl⟩

/-- Two similar properties with commas: their list is read as one of four names. -/
theorem read_render_extracted_similarNames :
    ((sheetsDeclaring "--a,b".toList "--a,c".toList).map Prod.fst).Nodup ∧
      (∀ file ∈ sheetsDeclaring "--a,b".toList "--a,c".toList, SafePath file.1) ∧
      ∃ inventories analysis,
        inventoriesOf (sheetsDeclaring "--a,b".toList "--a,c".toList) = some inventories ∧
        Analysis.ofBaseline {} (.ofInventories inventories) = .ok analysis ∧
        analysis.groups.map Group.names = [["--a,b".toList, "--a,c".toList]] ∧
        (read (render analysis)).map Group.names =
          [["--a".toList, "b".toList, "--a".toList, "c".toList]] ∧
        read (render analysis) ≠ analysis.groups := by
  let group : Group := .ofFiles {} .property .near ["--a,b".toList, "--a,c".toList]
    ["a.scss".toList, "b.scss".toList]
  let analysis : Analysis :=
    ⟨[⟨.property, [], [group]⟩, ⟨.block, [], []⟩, ⟨.function, [], []⟩]⟩
  have found : (read (render analysis)).map Group.names =
      [["--a".toList, "b".toList, "--a".toList, "c".toList]] := by
    decide +kernel
  refine ⟨by decide, by decide, _, analysis, rfl, by decide +kernel, rfl, found, fun same => ?_⟩
  rw [same] at found
  exact absurd found (by decide)

end Report

end StyleTokens
