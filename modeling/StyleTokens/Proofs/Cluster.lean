import StyleTokens.Cluster
import StyleTokens.Proofs.Data.Ascending

/-!
# The members of clusters

Growing a cluster moves names from the names left over to the members, and loses none. So the
clusters of names share them out: every name is in one cluster, and in no other.

## Main results

* `Cluster.perm_grow`, `Cluster.perm_all`: the clusters share out the names
* `strict_of_mem_clusters`, `two_le_of_mem_clusters`, `mem_of_mem_clusters`: a cluster is in
  order, has at least two members, and all of them are among the names
* `pairwise_clusters`: the clusters stand in the order of their first names
-/

namespace StyleTokens

namespace Cluster

variable {α : Type} (similar : α → α → Bool)

theorem perm_joining_staying (member : α) (names : List α) :
    (joining similar member names ++ staying similar member names).Perm names :=
  List.filter_append_perm (similar member) names

/-- Growing a cluster loses no name. -/
theorem perm_grow (frontier names : List α) :
    ((grow similar frontier names).1 ++ (grow similar frontier names).2).Perm
      (frontier ++ names) := by
  fun_induction grow similar frontier names with
  | case1 names => exact .refl _
  | case2 member frontier names rest ih =>
    rw [List.cons_append, List.cons_append]
    refine (ih.trans ?_).cons member
    rw [List.append_assoc]
    exact (perm_joining_staying similar member names).append_left frontier

/-- The names left over stand as they stood. -/
theorem grow_sublist (frontier names : List α) : (grow similar frontier names).2.Sublist names := by
  fun_induction grow similar frontier names with
  | case1 names => exact List.Sublist.refl names
  | case2 member frontier names rest ih => exact ih.trans List.filter_sublist

/-- **The clusters share out the names.** -/
theorem perm_all (names : List α) : (all similar names).flatten.Perm names := by
  fun_induction all similar names with
  | case1 => exact .refl _
  | case2 seed names ih =>
    rw [List.flatten_cons]
    exact (ih.append_left _).trans (perm_grow similar [seed] names)

variable {similar} {names members : List α}

theorem nodup_of_mem_all (nodup : names.Nodup) (h : members ∈ all similar names) :
    members.Nodup :=
  (List.nodup_flatten.mp ((perm_all similar names).nodup_iff.mpr nodup)).1 members h

theorem mem_of_mem_all (h : members ∈ all similar names) {name : α} (hn : name ∈ members) :
    name ∈ names :=
  (perm_all similar names).mem_iff.mp (List.mem_flatten_of_mem h hn)

end Cluster

theorem Ascending.length_ofList {xs : List Text} (h : xs.Nodup) :
    (Ascending.ofList xs).length = xs.length := by
  refine List.Perm.length_eq ?_
  exact (List.perm_ext_iff_of_nodup (strict_ofList xs).nodup h).mpr fun _ => mem_ofList

variable {threshold : Int} {names members : List Text}

theorem mem_clusters (h : members ∈ clusters threshold names) :
    ∃ found ∈ Cluster.all (isWithin threshold) (Ascending.ofList names),
      2 ≤ found.length ∧ Ascending.ofList found = members := by
  obtain ⟨found, hf, rfl⟩ := List.mem_map.mp h
  obtain ⟨all, two⟩ := List.mem_filter.mp hf
  exact ⟨found, all, by simpa using two, rfl⟩

theorem strict_of_mem_clusters (h : members ∈ clusters threshold names) :
    Ascending.Strict members := by
  obtain ⟨found, -, -, rfl⟩ := mem_clusters h
  exact Ascending.strict_ofList found

theorem two_le_of_mem_clusters (h : members ∈ clusters threshold names) : 2 ≤ members.length := by
  obtain ⟨found, all, two, rfl⟩ := mem_clusters h
  have nodup := Cluster.nodup_of_mem_all (Ascending.strict_ofList names).nodup all
  rwa [Ascending.length_ofList nodup]

theorem mem_of_mem_clusters (h : members ∈ clusters threshold names) {name : Text}
    (hn : name ∈ members) : name ∈ names := by
  obtain ⟨found, all, -, rfl⟩ := mem_clusters h
  exact Ascending.mem_ofList.mp (Cluster.mem_of_mem_all all (Ascending.mem_ofList.mp hn))

/-! ## The order of clusters -/

/-- **A cluster has a member below all later clusters**: the one that seeded it. -/
theorem Cluster.pairwise_all {similar : Text → Text → Bool} {names : List Text}
    (strict : Ascending.Strict names) : (all similar names).Pairwise fun members later =>
      ∃ seed ∈ members, ∀ name ∈ later, seed < name := by
  fun_induction all similar names with
  | case1 => exact List.Pairwise.nil
  | case2 seed names ih =>
    obtain ⟨least, rest⟩ := Ascending.strict_cons.mp strict
    have fewer := grow_sublist similar [seed] names
    refine List.pairwise_cons.mpr ⟨fun later mem => ⟨seed, ?_, fun name hn => ?_⟩,
      ih (rest.sublist fewer)⟩
    · rw [grow]
      exact List.mem_cons_self
    · exact least name (fewer.subset (mem_of_mem_all mem hn))

theorem Ascending.headD_le {xs : List Text} {x : Text} (h : Strict xs) (mem : x ∈ xs) :
    xs.headD [] ≤ x := by
  cases xs with
  | nil => cases mem
  | cons y ys =>
    rcases List.mem_cons.mp mem with rfl | mem
    · exact le_refl _
    · exact le_of_lt ((strict_cons.mp h).1 x mem)

theorem Ascending.headD_mem {xs : List Text} (ne : xs ≠ []) : xs.headD [] ∈ xs := by
  obtain ⟨x, xs, rfl⟩ := List.exists_cons_of_ne_nil ne
  exact List.mem_cons_self

/-- **The clusters stand in the order of their first names.** -/
theorem pairwise_clusters (threshold : Int) (names : List Text) :
    (clusters threshold names).Pairwise fun members later => members.headD [] < later.headD [] := by
  have strict := Ascending.strict_ofList names
  refine List.pairwise_map.mpr (((Cluster.pairwise_all strict).sublist
    List.filter_sublist).imp_of_mem ?_)
  intro members later _ mem below
  obtain ⟨seed, inside, least⟩ := below
  have two : 2 ≤ later.length := by simpa using (List.mem_filter.mp mem).2
  have ne : Ascending.ofList later ≠ [] := by
    intro none
    obtain ⟨name, rest, rfl⟩ : ∃ name rest, later = name :: rest :=
      List.exists_cons_of_ne_nil (by rintro rfl; simp at two)
    have listed := Ascending.mem_ofList.mpr (List.mem_cons_self (a := name) (l := rest))
    rw [none] at listed
    cases listed
  calc (Ascending.ofList members).headD [] ≤ seed :=
        Ascending.headD_le (Ascending.strict_ofList members) (Ascending.mem_ofList.mpr inside)
    _ < (Ascending.ofList later).headD [] :=
        least _ (Ascending.mem_ofList.mp (Ascending.headD_mem ne))

theorem clusters_congr {more : List Text} (threshold : Int)
    (h : ∀ name, name ∈ names ↔ name ∈ more) :
    clusters threshold names = clusters threshold more := by
  rw [clusters, clusters, Ascending.ofList_congr h]

end StyleTokens
