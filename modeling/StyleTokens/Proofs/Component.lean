import Mathlib.Combinatorics.SimpleGraph.Connectivity.Connected
import StyleTokens.Proofs.Cluster
import StyleTokens.Proofs.Distance

/-!
# Clusters are connected components

Names are joined by an edge if their distance is at most the threshold. A cluster grows from its
seed along these edges, so all of its members are connected. It stops growing when no name that is
left is similar to a member, and the names left over seed the later clusters. As the distance is
symmetric, no edge leads from a later cluster back to an earlier one, either. So the order in which
the names are visited settles the order of the clusters, but not what they are: the connected
components.

## Main definitions

* `similarityGraph`: the names, with the edges between similar ones

## Main results

* `Cluster.not_similar_of_left`, `Cluster.reached_of_mem_grow`: how far a cluster grows
* `reachable_iff_of_mem_clusters`: a member of a cluster leads to its members and to no other name
* `exists_mem_clusters_of_reachable`: a name that leads to another one is in a cluster
* `clusters_components`: the clusters are the connected components of at least two names
-/

namespace StyleTokens

open Relation (ReflTransGen)

/-! ## How far a cluster grows -/

namespace Cluster

variable {α : Type} {similar : α → α → Bool} {frontier names members : List α} {a b : α}

/-- A step from a name to a similar one among the names. -/
def Step (similar : α → α → Bool) (names : List α) (a b : α) : Prop :=
  b ∈ names ∧ similar a b

theorem Step.mono {more : List α} (sub : names ⊆ more) (h : ReflTransGen (Step similar names) a b) :
    ReflTransGen (Step similar more) a b :=
  ReflTransGen.mono (fun _ _ step => ⟨sub step.1, step.2⟩) a b h

/-- **A cluster stops growing** when no name that is left is similar to a member. -/
theorem not_similar_of_left (ha : a ∈ (grow similar frontier names).1)
    (hb : b ∈ (grow similar frontier names).2) : similar a b = false := by
  fun_induction grow similar frontier names with
  | case1 names => cases ha
  | case2 member frontier names rest ih =>
    rcases List.mem_cons.mp ha with rfl | ha
    · -- the names similar to this member have joined the frontier
      have stays : b ∈ staying similar a names := (grow_sublist similar _ _).subset hb
      simpa using (List.mem_filter.mp stays).2
    · exact ih ha hb

/-- **A cluster grows along steps** from its frontier. -/
theorem reached_of_mem_grow (ha : a ∈ (grow similar frontier names).1) :
    ∃ root ∈ frontier, ReflTransGen (Step similar names) root a := by
  fun_induction grow similar frontier names with
  | case1 names => cases ha
  | case2 member frontier names rest ih =>
    rcases List.mem_cons.mp ha with rfl | ha
    · exact ⟨a, List.mem_cons_self, .refl⟩
    · obtain ⟨root, mem, path⟩ := ih ha
      replace path := Step.mono List.filter_sublist.subset path
      rcases List.mem_append.mp mem with mem | mem
      · exact ⟨root, List.mem_cons_of_mem member mem, path⟩
      · -- the root has joined the frontier behind the member
        obtain ⟨listed, near⟩ := List.mem_filter.mp mem
        exact ⟨member, List.mem_cons_self, .head ⟨listed, near⟩ path⟩

/-- All members of a cluster are reached from one of them. -/
theorem exists_seed_of_mem_all (h : members ∈ all similar names) :
    ∃ seed ∈ members, ∀ a ∈ members, ReflTransGen (Step similar names) seed a := by
  fun_induction all similar names with
  | case1 => cases h
  | case2 seed names ih =>
    rcases List.mem_cons.mp h with rfl | h
    · refine ⟨seed, ?_, fun a ha => ?_⟩
      · rw [grow]
        exact List.mem_cons_self
      · obtain ⟨root, mem, path⟩ := reached_of_mem_grow ha
        obtain rfl := List.mem_singleton.mp mem
        exact Step.mono (List.subset_cons_self root names) path
    · obtain ⟨first, mem, paths⟩ := ih h
      have left := (grow_sublist similar [seed] names).subset
      exact ⟨first, mem, fun a ha =>
        Step.mono (List.Subset.trans left (List.subset_cons_self seed names)) (paths a ha)⟩

/-- No member of a cluster is similar to a member of a later one. -/
theorem pairwise_not_similar (similar : α → α → Bool) (names : List α) :
    (all similar names).Pairwise fun members later =>
      ∀ a ∈ members, ∀ b ∈ later, similar a b = false := by
  fun_induction all similar names with
  | case1 => exact List.Pairwise.nil
  | case2 seed names ih =>
    refine List.pairwise_cons.mpr ⟨fun later mem a ha b hb => ?_, ih⟩
    exact not_similar_of_left ha (mem_of_mem_all mem hb)

/-- **No step leads out of a cluster**, if being similar is symmetric. -/
theorem mem_of_step (symmetric : ∀ a b, similar a b = similar b a)
    (h : members ∈ all similar names) (ha : a ∈ members) (step : Step similar names a b) :
    b ∈ members := by
  obtain ⟨listed, near⟩ := step
  obtain ⟨other, mem, hb⟩ := List.mem_flatten.mp ((perm_all similar names).mem_iff.mpr listed)
  by_contra outside
  have ne : members ≠ other := by
    rintro rfl
    exact outside hb
  -- one of the two clusters is the later one, but it does not matter which
  have both : Std.Symm fun members other : List α =>
      ∀ a ∈ members, ∀ b ∈ other, similar a b = false := by
    refine ⟨fun earlier later far b hb a ha => ?_⟩
    rw [symmetric]
    exact far a ha b hb
  have apart := (pairwise_not_similar similar names).forall h mem ne
  rw [apart a ha b hb] at near
  cases near

end Cluster

/-! ## The graph of names -/

/-- The names, with an edge between two of them if their distance is at most the threshold. -/
def similarityGraph (threshold : Int) (names : List Text) : SimpleGraph {name // name ∈ names} where
  Adj a b := a ≠ b ∧ (distance a b : Int) ≤ threshold
  symm := ⟨fun a b near => ⟨near.1.symm, distance_comm a b ▸ near.2⟩⟩
  loopless := ⟨fun _ near => near.1 rfl⟩

variable {s t threshold : Int} {names members others : List Text}

/-- A greater threshold makes more names similar. -/
theorem similarityGraph_mono (le : s ≤ t) : similarityGraph s names ≤ similarityGraph t names :=
  fun _ _ near => ⟨near.1, near.2.trans le⟩

/-- Steps lead along edges. -/
theorem reachable_of_steps {a b : Text}
    (path : ReflTransGen (Cluster.Step (isWithin threshold) names) a b) (ha : a ∈ names) :
    ∃ hb : b ∈ names, (similarityGraph threshold names).Reachable ⟨a, ha⟩ ⟨b, hb⟩ := by
  induction path with
  | refl => exact ⟨ha, .rfl⟩
  | @tail b c _ step ih =>
    obtain ⟨hb, reached⟩ := ih
    obtain ⟨hc, near⟩ := step
    refine ⟨hc, reached.trans ?_⟩
    by_cases same : b = c
    · subst same
      rfl
    · refine SimpleGraph.Adj.reachable ⟨fun eq => ?_, isWithin_iff.mp near⟩
      exact same (congrArg Subtype.val eq)

/-- A member of a cluster leads to its members and to no other name. -/
theorem reachable_iff_of_mem_all {a b : {name // name ∈ names}}
    (h : members ∈ Cluster.all (isWithin threshold) (Ascending.ofList names)) (ha : a.1 ∈ members) :
    (similarityGraph threshold names).Reachable a b ↔ b.1 ∈ members := by
  constructor
  · intro path
    rw [SimpleGraph.reachable_iff_reflTransGen] at path
    induction path with
    | refl => exact ha
    | @tail b c _ near ih =>
      exact Cluster.mem_of_step isWithin_comm h ih
        ⟨Ascending.mem_ofList.mpr c.2, isWithin_iff.mpr near.2⟩
  · intro hb
    obtain ⟨seed, mem, paths⟩ := Cluster.exists_seed_of_mem_all h
    have listed : ∀ name ∈ Ascending.ofList names, name ∈ names := fun _ => Ascending.mem_ofList.mp
    -- both names are reached from the seed
    have reached : ∀ c : {name // name ∈ names}, c.1 ∈ members →
        (similarityGraph threshold names).Reachable
          ⟨seed, listed seed (Cluster.mem_of_mem_all h mem)⟩ c := by
      intro c hc
      obtain ⟨_, path⟩ := reachable_of_steps (Cluster.Step.mono listed (paths c.1 hc))
        (listed seed (Cluster.mem_of_mem_all h mem))
      exact path
    exact (reached a ha).symm.trans (reached b hb)

/-! ## Clusters and components -/

/-- **A member of a cluster leads to its members** and to no other name. -/
theorem reachable_iff_of_mem_clusters {a b : {name // name ∈ names}}
    (h : members ∈ clusters threshold names) (ha : a.1 ∈ members) :
    (similarityGraph threshold names).Reachable a b ↔ b.1 ∈ members := by
  obtain ⟨found, all, -, rfl⟩ := mem_clusters h
  rw [Ascending.mem_ofList] at ha ⊢
  exact reachable_iff_of_mem_all all ha

/-- **A name that leads to another one** is in a cluster. -/
theorem exists_mem_clusters_of_reachable {a b : {name // name ∈ names}} (ne : a ≠ b)
    (path : (similarityGraph threshold names).Reachable a b) :
    ∃ members ∈ clusters threshold names, a.1 ∈ members := by
  obtain ⟨found, all, ha⟩ := List.mem_flatten.mp ((Cluster.perm_all (isWithin threshold)
    (Ascending.ofList names)).mem_iff.mpr (Ascending.mem_ofList.mpr a.2))
  have hb : b.1 ∈ found := (reachable_iff_of_mem_all all ha).mp path
  have two : 2 ≤ found.length := by
    match found, ha, hb with
    | [c], ha, hb =>
      rw [List.mem_singleton] at ha hb
      exact absurd (Subtype.ext (ha.trans hb.symm)) ne
    | _ :: _ :: _, _, _ => simp
  refine ⟨Ascending.ofList found, List.mem_map_of_mem (List.mem_filter.mpr ⟨all, ?_⟩),
    Ascending.mem_ofList.mpr ha⟩
  exact decide_eq_true two

/-- The names of a component. -/
def componentNames (component : (similarityGraph threshold names).ConnectedComponent) : Set Text :=
  Subtype.val '' component.supp

theorem mem_componentNames {a : {name // name ∈ names}} {name : Text} :
    name ∈ componentNames ((similarityGraph threshold names).connectedComponentMk a) ↔
      ∃ listed : name ∈ names, (similarityGraph threshold names).Reachable a ⟨name, listed⟩ := by
  constructor
  · rintro ⟨b, mem, rfl⟩
    exact ⟨b.2, (SimpleGraph.ConnectedComponent.exact mem).symm⟩
  · rintro ⟨listed, path⟩
    exact ⟨⟨name, listed⟩, SimpleGraph.ConnectedComponent.sound path.symm, rfl⟩

/-- A cluster has the names of the component of any of its members. -/
theorem setOf_mem_eq_componentNames {a : {name // name ∈ names}}
    (h : members ∈ clusters threshold names) (ha : a.1 ∈ members) :
    {name | name ∈ members} =
      componentNames ((similarityGraph threshold names).connectedComponentMk a) := by
  ext name
  rw [Set.mem_ofPred_eq, mem_componentNames]
  constructor
  · intro mem
    exact ⟨mem_of_mem_clusters h mem, (reachable_iff_of_mem_clusters h ha).mpr mem⟩
  · rintro ⟨listed, path⟩
    exact (reachable_iff_of_mem_clusters h ha).mp path

/-- Two clusters with a common member are one. -/
theorem eq_of_mem_clusters {name : Text} (h : members ∈ clusters threshold names)
    (h' : others ∈ clusters threshold names) (mem : name ∈ members) (mem' : name ∈ others) :
    members = others := by
  have same : {name | name ∈ members} = {name | name ∈ others} :=
    (setOf_mem_eq_componentNames (a := ⟨name, mem_of_mem_clusters h mem⟩) h mem).trans
      (setOf_mem_eq_componentNames h' mem').symm
  exact (strict_of_mem_clusters h).ext (strict_of_mem_clusters h') fun other =>
    Set.ext_iff.mp same other

/-- Two different members of a list of at least two. -/
theorem exists_ne_of_two_le {xs : List Text} (nodup : xs.Nodup) (two : 2 ≤ xs.length) :
    ∃ x ∈ xs, ∃ y ∈ xs, x ≠ y := by
  match xs, nodup, two with
  | x :: y :: _, nodup, _ =>
    exact ⟨x, by simp, y, by simp, by rintro rfl; simp at nodup⟩

/-- **A cluster is a connected component** of at least two names, in order, and every such component
is a cluster. -/
theorem mem_clusters_iff : members ∈ clusters threshold names ↔
    Ascending.Strict members ∧ 2 ≤ members.length ∧
      ∃ component : (similarityGraph threshold names).ConnectedComponent,
        {name | name ∈ members} = componentNames component := by
  constructor
  · intro h
    have strict := strict_of_mem_clusters h
    have two := two_le_of_mem_clusters h
    obtain ⟨name, mem, -⟩ := exists_ne_of_two_le strict.nodup two
    exact ⟨strict, two, _,
      setOf_mem_eq_componentNames (a := ⟨name, mem_of_mem_clusters h mem⟩) h mem⟩
  · rintro ⟨strict, two, component, eq⟩
    have inside : ∀ name, name ∈ members → name ∈ componentNames component := fun name mem =>
      Set.ext_iff.mp eq name |>.mp mem
    -- two of the names lead to one another, so the first of them is in a cluster
    obtain ⟨a, ha, b, hb, ne⟩ := exists_ne_of_two_le strict.nodup two
    obtain ⟨a, supp, rfl⟩ := inside a ha
    obtain rfl : (similarityGraph threshold names).connectedComponentMk a = component := supp
    obtain ⟨listed, path⟩ := mem_componentNames.mp (inside b hb)
    obtain ⟨cluster, found, mem⟩ :=
      exists_mem_clusters_of_reachable (fun same => ne (congrArg Subtype.val same)) path
    -- and this cluster has the names of the same component
    have same := (setOf_mem_eq_componentNames found mem).trans eq.symm
    have equal : cluster = members :=
      (strict_of_mem_clusters found).ext strict fun name => Set.ext_iff.mp same name
    exact equal ▸ found

/-- **A greater threshold** keeps the members of a cluster together. -/
theorem exists_mem_clusters_of_le (le : s ≤ t) (h : members ∈ clusters s names) :
    ∃ wider ∈ clusters t names, members ⊆ wider := by
  obtain ⟨a, ha, b, hb, ne⟩ := exists_ne_of_two_le (strict_of_mem_clusters h).nodup
    (two_le_of_mem_clusters h)
  have listed := mem_of_mem_clusters h ha
  -- what the first member leads to, it leads to over the edges of the greater threshold, too
  have leads : ∀ c (hc : c ∈ members), (similarityGraph t names).Reachable ⟨a, listed⟩
      ⟨c, mem_of_mem_clusters h hc⟩ := by
    intro c hc
    exact ((reachable_iff_of_mem_clusters h ha).mpr hc).mono (similarityGraph_mono le)
  obtain ⟨wider, found, mem⟩ := exists_mem_clusters_of_reachable
    (fun same => ne (congrArg Subtype.val same)) (leads b hb)
  exact ⟨wider, found, fun c hc => (reachable_iff_of_mem_clusters found mem).mp (leads c hc)⟩

/-- Two clusters have no name in common. -/
theorem nodup_flatten_clusters (threshold : Int) (names : List Text) :
    (clusters threshold names).flatten.Nodup := by
  refine List.nodup_flatten.mpr ⟨fun members h => (strict_of_mem_clusters h).nodup, ?_⟩
  refine (pairwise_clusters threshold names).imp_of_mem ?_
  intro members later h h' lt name mem mem'
  rw [eq_of_mem_clusters h h' mem mem'] at lt
  exact lt_irrefl _ lt

/-- The first name of a cluster is below the names of all later clusters. -/
theorem pairwise_clusters_least (threshold : Int) (names : List Text) :
    (clusters threshold names).Pairwise fun members later =>
      ∃ least ∈ members, ∀ name ∈ later, least < name := by
  refine (pairwise_clusters threshold names).imp_of_mem ?_
  intro members later h h' lt
  have ne : members ≠ [] := List.ne_nil_of_length_pos (by
    have := two_le_of_mem_clusters h
    omega)
  refine ⟨members.headD [], Ascending.headD_mem ne, fun name mem => ?_⟩
  exact lt_of_lt_of_le lt (Ascending.headD_le (strict_of_mem_clusters h') mem)

/-- **The clusters are the connected components** of at least two names. Each is in order, they
stand in the order of their least names, and no name is in two of them. -/
theorem clusters_components (threshold : Int) (names : List Text) :
    (∀ members, members ∈ clusters threshold names ↔
      Ascending.Strict members ∧ 2 ≤ members.length ∧
        ∃ component : (similarityGraph threshold names).ConnectedComponent,
          {name | name ∈ members} = componentNames component) ∧
      ((clusters threshold names).Pairwise fun members later =>
        ∃ least ∈ members, ∀ name ∈ later, least < name) ∧
      (clusters threshold names).flatten.Nodup :=
  ⟨fun _ => mem_clusters_iff, pairwise_clusters_least threshold names,
    nodup_flatten_clusters threshold names⟩

end StyleTokens
