import StyleTokens.Analysis
import StyleTokens.Proofs.Baseline
import StyleTokens.Proofs.Cluster
import StyleTokens.Proofs.Rank
import StyleTokens.Proofs.Report.RoundTrip

/-!
# The groups that are found

The groups of an index keep the rules of a group. If its names and paths can be written into a
report, so can the groups.

## Main definitions

* `Index.Reportable`: an index whose names and paths can be written into a report

## Main results

* `mem_exactGroups`: the groups of one name
* `Analysis.reportable_of_near`, `Analysis.reportable_ofIndex`: the groups of an index can be
  written into a report
* `Analysis.ofBaseline_eq_ok`: the analysis of a baseline succeeds
-/

namespace StyleTokens

open Report (SafePath SafeName SafeVariant HeaderName)

variable {config : AnalyzerConfig} {kind : TokenKind} {index : Index} {group : Group}

/-! ## Groups of files -/

theorem eraseDups_of_nodup {names : List Text} (h : names.Nodup) : names.eraseDups = names := by
  induction names with
  | nil => rfl
  | cons name names ih =>
    rw [List.nodup_cons] at h
    have same : names.filter (fun other => !other == name) = names := by
      refine List.filter_eq_self.mpr fun other mem => ?_
      have : other ≠ name := fun eq => h.1 (eq ▸ mem)
      simpa using this
    rw [List.eraseDups_cons, same, ih h.2]

/-- The group of two files or more keeps the rules, if its names fit the match type. -/
theorem Group.valid_ofFiles {matchType : MatchType} {names files : List Text}
    (strict : Ascending.Strict files) (two : 2 ≤ files.length) (ne : names ≠ [])
    (exact : matchType = .exact → names.length = 1)
    (near : matchType = .near → names.Nodup ∧ 2 ≤ names.length) :
    (Group.ofFiles config kind matchType names files).Valid where
  names := ne
  files := two
  nodup := strict.nodup
  canonical := by
    have some_files : files ≠ [] := by
      rintro rfl
      simp at two
    obtain ⟨file, mem, eq⟩ := Rank.canonical?_eq_some config.priority some_files
    rw [ofFiles, eq]
    exact mem
  exact := exact
  near := by
    intro hm
    obtain ⟨nodup, two⟩ := near hm
    show 2 ≤ names.eraseDups.length
    rwa [eraseDups_of_nodup nodup]

theorem Group.reportable_ofFiles {matchType : MatchType} {names files : List Text}
    (valid : (Group.ofFiles config kind matchType names files).Valid)
    (strict : Ascending.Strict files) (paths : ∀ file ∈ files, SafePath file)
    (headers : ∀ name ∈ names, HeaderName matchType name) :
    (Group.ofFiles config kind matchType names files).Reportable where
  valid := check_eq_ok_iff.mpr valid
  sorted := strict.imp fun lt => le_of_lt lt
  paths := paths
  names := headers

/-! ## Groups of an index -/

/-- **The groups of one name**: one for every name that at least two files declare. -/
theorem mem_exactGroups (strict : Table.Strict index) :
    group ∈ exactGroups config kind index ↔
      ∃ name files, index.find? name = some files ∧ 2 ≤ (Ascending.ofList files).length ∧
        group = .ofFiles config kind .exact [name] (Ascending.ofList files) := by
  rw [exactGroups, List.mem_filterMap]
  constructor
  · rintro ⟨⟨name, files⟩, entry, found⟩
    obtain ⟨two, eq⟩ := Option.ite_none_left_eq_some.mp found
    obtain rfl := Option.some.inj eq
    exact ⟨name, files, (Table.mem_iff_find? strict).mp entry, Nat.le_of_not_lt two, rfl⟩
  · rintro ⟨name, files, found, two, rfl⟩
    refine ⟨(name, files), (Table.mem_iff_find? strict).mpr found, ?_⟩
    exact if_neg (Nat.not_lt.mpr two)

theorem mem_nearGroups (h : group ∈ nearGroups config kind index) :
    ∃ names ∈ clusters config.threshold index.keys, 2 ≤ (index.filesOf names).length ∧
      group = .ofFiles config kind .near names (index.filesOf names) := by
  rw [nearGroups, List.mem_filterMap] at h
  obtain ⟨⟨names, files⟩, similar, found⟩ := h
  obtain ⟨members, cluster, eq⟩ := List.mem_map.mp similar
  obtain ⟨rfl, rfl⟩ := Prod.mk.inj eq
  obtain ⟨two, eq⟩ := Option.ite_none_left_eq_some.mp found
  obtain rfl := Option.some.inj eq
  exact ⟨members, cluster, Nat.le_of_not_lt two, rfl⟩

theorem mem_nearGroups_of_mem_clusters {names : List Text}
    (h : names ∈ clusters config.threshold index.keys) (two : 2 ≤ (index.filesOf names).length) :
    .ofFiles config kind .near names (index.filesOf names) ∈ nearGroups config kind index := by
  refine List.mem_filterMap.mpr ⟨(names, index.filesOf names), List.mem_map_of_mem h, ?_⟩
  exact if_neg (Nat.not_lt.mpr two)

/-- A file of the index, with a name that it declares. -/
def Index.Lists (index : Index) (file : Text) : Prop :=
  ∃ name files, index.find? name = some files ∧ file ∈ files

theorem Index.lists_of_mem_filesOf {names : List Text} {file : Text}
    (h : file ∈ index.filesOf names) : index.Lists file := by
  rw [Index.filesOf, Ascending.mem_ofList, List.mem_flatMap] at h
  obtain ⟨name, -, mem⟩ := h
  cases found : index.find? name with
  | none => simp [found] at mem
  | some files => exact ⟨name, files, found, by simpa [found] using mem⟩

/-- The names and files of a group come from the index. -/
theorem mem_index_of_mem_ofIndex (strict : Table.Strict index)
    (h : group ∈ exactGroups config kind index ++ nearGroups config kind index) :
    (∀ name ∈ group.names, name ∈ index.keys) ∧ (∀ file ∈ group.files, index.Lists file) := by
  rcases List.mem_append.mp h with exact | near
  · obtain ⟨name, files, found, -, rfl⟩ := (mem_exactGroups strict).mp exact
    have entry := (Table.mem_iff_find? strict).mpr found
    refine ⟨fun other ho => ?_, fun file hf => ⟨name, files, found, Ascending.mem_ofList.mp hf⟩⟩
    rw [List.mem_singleton.mp ho]
    exact List.mem_map_of_mem entry
  · obtain ⟨names, cluster, -, rfl⟩ := mem_nearGroups near
    exact ⟨fun name hn => mem_of_mem_clusters cluster hn, fun file => Index.lists_of_mem_filesOf⟩

/-- An index whose names and paths can be written into a report. -/
structure Index.Reportable (index : Index) : Prop where
  strict : Table.Strict index
  names : ∀ name ∈ index.keys, SafeName name ∧ SafeVariant name
  paths : ∀ file, index.Lists file → SafePath file

/-- **The groups of an index can be written into a report**, if its names can stand alone in a
header and those of the clusters in a list of names. -/
theorem Analysis.reportable_of_near (strict : Table.Strict index)
    (alone : ∀ name ∈ index.keys, SafeName name) (paths : ∀ file, index.Lists file → SafePath file)
    (near : ∀ group ∈ nearGroups config kind index, ∀ name ∈ group.names, SafeVariant name) :
    (Analysis.ofIndex config kind index).Reportable where
  exact := by
    intro group hg
    obtain ⟨names, files⟩ := mem_index_of_mem_ofIndex strict (List.mem_append_left _ hg)
    obtain ⟨name, found, -, two, rfl⟩ := (mem_exactGroups strict).mp hg
    have strict := Ascending.strict_ofList found
    have valid : (Group.ofFiles config kind .exact [name] (Ascending.ofList found)).Valid :=
      Group.valid_ofFiles strict two nofun (fun _ => rfl) nofun
    exact ⟨rfl, rfl, Group.reportable_ofFiles valid strict
      (fun file hf => paths file (files file hf)) fun name hn => alone name (names name hn)⟩
  near := by
    intro group hg
    obtain ⟨-, files⟩ := mem_index_of_mem_ofIndex strict (List.mem_append_right _ hg)
    have headers := near group hg
    obtain ⟨names, cluster, two, rfl⟩ := mem_nearGroups hg
    have strict : Ascending.Strict (index.filesOf names) := Ascending.strict_ofList _
    have some_names := two_le_of_mem_clusters cluster
    have valid : (Group.ofFiles config kind .near names (index.filesOf names)).Valid := by
      refine Group.valid_ofFiles strict two ?_ nofun fun _ => ?_
      · rintro rfl
        simp at some_names
      · exact ⟨(strict_of_mem_clusters cluster).nodup, some_names⟩
    exact ⟨rfl, rfl, Group.reportable_ofFiles valid strict
      (fun file hf => paths file (files file hf)) headers⟩

theorem Analysis.reportable_ofIndex (h : index.Reportable) :
    (Analysis.ofIndex config kind index).Reportable := by
  refine reportable_of_near h.strict (fun name hn => (h.names name hn).1) h.paths
    fun group hg name hn => ?_
  obtain ⟨names, -⟩ := mem_index_of_mem_ofIndex h.strict (List.mem_append_right _ hg)
  exact (h.names name (names name hn)).2

/-- **The analysis of a baseline** succeeds if its index does for every kind. -/
theorem Analysis.ofBaseline_eq_ok {baseline : Baseline} {properties blocks functions : Index}
    (hp : baseline.index .property = .ok properties) (hb : baseline.index .block = .ok blocks)
    (hf : baseline.index .function = .ok functions) :
    Analysis.ofBaseline config baseline = .ok
      ⟨[ofIndex config .property properties, ofIndex config .block blocks,
        ofIndex config .function functions]⟩ := by
  rw [ofBaseline, TokenKind.grouped]
  simp only [List.mapM_cons, List.mapM_nil, hp, hb, hf]
  rfl

end StyleTokens
