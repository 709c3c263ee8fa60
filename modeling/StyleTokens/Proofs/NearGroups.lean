import StyleTokens.Proofs.Component
import StyleTokens.Proofs.Duplicates

/-!
# Similar names under a greater threshold

A greater threshold makes more names similar, so clusters grow, and some of them become one. But
they never fall apart: the names of a group are in one group under a greater threshold, too, and in
no other. As more names are declared by more files, that group is not left out for want of files.

## Main results

* `Index.filesOf_subset`: more names are declared by more files
* `nearGroups_widen`: the groups under a greater threshold
-/

namespace StyleTokens

variable {config : AnalyzerConfig} {kind : TokenKind} {index : Index} {names more : List Text}

/-- More names are declared by more files. -/
theorem Index.filesOf_subset (sub : names ⊆ more) : index.filesOf names ⊆ index.filesOf more := by
  intro file mem
  obtain ⟨name, declared, here⟩ := List.mem_flatMap.mp (Ascending.mem_ofList.mp mem)
  exact Ascending.mem_ofList.mpr (List.mem_flatMap.mpr ⟨name, sub declared, here⟩)

theorem Index.length_filesOf_le (sub : names ⊆ more) :
    (index.filesOf names).length ≤ (index.filesOf more).length :=
  ((Ascending.strict_ofList _).nodup.subperm (filesOf_subset sub)).length_le

theorem nodup_nearGroups : (nearGroups config kind index).Nodup :=
  List.Nodup.of_map Group.representative Baseline.Indexes.strict_nearGroups.nodup

/-- One member of a list without repeats has a property, and no other. -/
theorem filter_eq_singleton {α : Type} {xs : List α} {x : α} {p : α → Bool} (nodup : xs.Nodup)
    (mem : x ∈ xs) (only : ∀ y ∈ xs, p y ↔ y = x) : xs.filter p = [x] := by
  refine List.perm_singleton.mp ((List.perm_ext_iff_of_nodup (nodup.filter p)
    (List.nodup_singleton x)).mpr fun y => ?_)
  rw [List.mem_filter, List.mem_singleton]
  constructor
  · rintro ⟨hy, holds⟩
    exact (only y hy).mp holds
  · rintro rfl
    exact ⟨mem, (only y mem).mpr rfl⟩

/-- **A greater threshold loses no similar names**: all names of a group are in exactly one group,
which has all of its files, too. -/
theorem nearGroups_widen (priority : List Text) (kind : TokenKind) (index : Index) {s t : Nat}
    (le : s ≤ t) : ∀ group ∈ nearGroups ⟨s, priority⟩ kind index, ∃ wider,
      (nearGroups ⟨t, priority⟩ kind index).filter (fun other => group.names ⊆ other.names) =
          [wider] ∧
        group.files ⊆ wider.files := by
  intro group mem
  obtain ⟨names, cluster, two, rfl⟩ := mem_nearGroups mem
  obtain ⟨more, found, sub⟩ := exists_mem_clusters_of_le (Int.ofNat_le.mpr le) cluster
  have wide : .ofFiles ⟨t, priority⟩ kind .near more (index.filesOf more) ∈
      nearGroups ⟨t, priority⟩ kind index :=
    mem_nearGroups_of_mem_clusters found (two.trans (Index.length_filesOf_le sub))
  refine ⟨_, filter_eq_singleton nodup_nearGroups wide ?_, Index.filesOf_subset sub⟩
  intro other listed
  obtain ⟨others, found', -, rfl⟩ := mem_nearGroups listed
  rw [decide_eq_true_iff]
  constructor
  · -- a group with these names has a name in common with the wider one
    intro sub'
    obtain ⟨name, hn, -⟩ := exists_ne_of_two_le (strict_of_mem_clusters cluster).nodup
      (two_le_of_mem_clusters cluster)
    rw [eq_of_mem_clusters found' found (sub' hn) (sub hn)]
  · rintro same
    rw [same]
    exact sub

/-- Two similar names, and a third one that is less similar. -/
def gapIndex : Index :=
  [("gap".toList, ["a.scss".toList]), ("gapped".toList, ["c.scss".toList]),
    ("gaps".toList, ["b.scss".toList])]

theorem nearGroups_widen_gaps :
    1 ≤ 3 ∧ ∃ group ∈ nearGroups ⟨1, []⟩ .block gapIndex,
      group.names = ["gap".toList, "gaps".toList] ∧
      ∃ wider, (nearGroups ⟨3, []⟩ .block gapIndex).filter (fun other =>
          group.names ⊆ other.names) = [wider] ∧
        group.files ⊆ wider.files := by
  have le : 1 ≤ 3 := by decide
  have mem : .ofFiles ⟨1, []⟩ .block .near ["gap".toList, "gaps".toList]
      ["a.scss".toList, "b.scss".toList] ∈ nearGroups ⟨1, []⟩ .block gapIndex := by
    decide +kernel
  exact ⟨le, _, mem, rfl, nearGroups_widen [] .block gapIndex le _ mem⟩

end StyleTokens
