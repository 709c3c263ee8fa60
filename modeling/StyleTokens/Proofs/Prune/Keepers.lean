import StyleTokens.Proofs.Prune.Record
import StyleTokens.Report.Reader

/-!
# The files that keep a declaration

A group that is to be pruned names the file that keeps the declaration. The group itself spares this
file, but another group of the same token may list it among its own files and prefer another one. So
the keepers are spared exactly if the groups agree about them, which they do in a report with one
group for every token.

## Main definitions

* `KeepersAgree`: no group takes a declaration from the file that another one keeps it in

## Main results

* `mem_planned_canonical_iff`: when the plan lists a token for the file that keeps it
* `keepersAgree_of_nodup`: with one group for every token there is nothing to agree about
* `keepers_spared`: when the keepers of a report are spared
-/

namespace StyleTokens

variable {groups : List Group} {group : Group}

/-- Of two groups that are to be pruned and have the same token, the second keeps the declaration
where the first one does, if it lists that file at all. -/
def KeepersAgree (groups : List Group) : Prop :=
  ∀ group ∈ groups, ∀ other ∈ groups, group.isActionable → other.isActionable →
    group.representative = other.representative → group.canonical ∈ other.files →
      group.canonical = other.canonical

/-- The plan lists a token for the file that keeps it if another group of the token lists the file
and prefers another one. -/
theorem mem_planned_canonical_iff :
    group.representative ∈ planned (planRemovals groups) group.canonical ↔
      ∃ other ∈ groups, other.isActionable ∧ group.representative = other.representative ∧
        group.canonical ∈ other.files ∧ group.canonical ≠ other.canonical := by
  rw [mem_planRemovals]
  constructor
  · rintro ⟨other, mem, actionable, redundant, same⟩
    obtain ⟨file, ne⟩ := List.mem_filter.mp redundant
    exact ⟨other, mem, actionable, same.symm, file, by simpa using ne⟩
  · rintro ⟨other, mem, actionable, same, file, ne⟩
    refine ⟨other, mem, actionable, ?_, same.symm⟩
    exact List.mem_filter.mpr ⟨file, by simpa using ne⟩

/-- The keepers are spared by the plan exactly if the groups agree about them. -/
theorem spared_iff_keepersAgree :
    (∀ group ∈ groups, group.isActionable →
      group.representative ∉ planned (planRemovals groups) group.canonical) ↔
        KeepersAgree groups := by
  constructor
  · intro spared group mem other mem' actionable actionable' same file
    by_contra ne
    refine spared group mem actionable (mem_planned_canonical_iff.mpr ?_)
    exact ⟨other, mem', actionable', same, file, ne⟩
  · intro agree group mem actionable listed
    obtain ⟨other, mem', actionable', same, file, ne⟩ := mem_planned_canonical_iff.mp listed
    exact ne (agree group mem other mem' actionable actionable' same file)

/-- With one group for every token there is nothing to agree about. -/
theorem keepersAgree_of_nodup
    (h : ((groups.filter Group.isActionable).map Group.representative).Nodup) :
    KeepersAgree groups := by
  intro group mem other mem' actionable actionable' same _
  have one : group = other := by
    apply List.inj_on_of_nodup_map h
    · exact List.mem_filter.mpr ⟨mem, actionable⟩
    · exact List.mem_filter.mpr ⟨mem', actionable'⟩
    · exact same
  rw [one]

/-- **When the keepers of a report are spared.** Whatever text is read, the plan lists no token for
a file that a group prefers for it exactly if the groups agree about their keepers; then no run
deletes the token from there. They do agree if no token has two groups that are to be pruned. -/
theorem keepers_spared (t : Text) :
    ((∀ group ∈ Report.read t, group.isActionable →
        group.representative ∉ planned (planRemovals (Report.read t)) group.canonical) ↔
      KeepersAgree (Report.read t)) ∧
    (KeepersAgree (Report.read t) → ∀ base tree, ∀ group ∈ Report.read t, group.isActionable →
      ¬PruneRun.Deletes base tree (Report.read t) group.canonical group.representative) ∧
    ((((Report.read t).filter Group.isActionable).map Group.representative).Nodup →
      KeepersAgree (Report.read t)) := by
  refine ⟨spared_iff_keepersAgree, fun agree base tree group mem actionable deleted => ?_,
    keepersAgree_of_nodup⟩
  exact spared_iff_keepersAgree.mpr agree group mem actionable deleted.planned

/-- The report of two groups of one token, each of which keeps the declaration where the other one
deletes it. -/
def swappedReport : Text :=
  Text.joined ['\n'] (["## properties Duplicates",
    "### Token: --a", "Defined in:", "- a.scss", "- b.scss", "Preferred source: a.scss",
    "Disposition: merge",
    "### Token: --a", "Defined in:", "- a.scss", "- b.scss", "Preferred source: b.scss",
    "Disposition: merge"].map String.toList)

/-- Both keepers lose the declaration. -/
theorem keepers_spared_swapped :
    planRemovals (Report.read swappedReport) =
        [("b.scss".toList, ["--a".toList]), ("a.scss".toList, ["--a".toList])] ∧
      ∃ group ∈ Report.read swappedReport, group.isActionable ∧
        group.representative ∈ planned (planRemovals (Report.read swappedReport))
          group.canonical := by
  have read : Report.read swappedReport =
      [⟨.property, .exact, ["--a".toList], ["a.scss".toList, "b.scss".toList], "a.scss".toList,
          .merge⟩,
        ⟨.property, .exact, ["--a".toList], ["a.scss".toList, "b.scss".toList], "b.scss".toList,
          .merge⟩] := by
    decide +kernel
  rw [read]
  decide

end StyleTokens
