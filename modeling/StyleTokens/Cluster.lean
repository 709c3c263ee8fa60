import StyleTokens.Data.Ascending
import StyleTokens.Distance

/-!
# Clusters of similar names

Names are similar if their edit distance is at most a threshold, and a cluster holds all names
that lead to one another over similar names. The least name not yet placed seeds a cluster,
which grows as long as a name outside is similar to a member.

## Main definitions

* `Cluster.grow`: the members that a frontier leads to, and the names left
* `clusters`: the clusters of at least two names
-/

namespace StyleTokens

namespace Cluster

variable {α : Type}

/-- The names that are similar to a member. -/
def joining (similar : α → α → Bool) (member : α) (names : List α) : List α :=
  names.filter (similar member)

/-- The names that are not similar to a member. -/
def staying (similar : α → α → Bool) (member : α) (names : List α) : List α :=
  names.filter fun n => !similar member n

theorem length_joining_add_length_staying (similar : α → α → Bool) (member : α)
    (names : List α) :
    (joining similar member names).length + (staying similar member names).length =
      names.length := by
  induction names with
  | nil => rfl
  | cons n names ih =>
    simp only [joining, staying] at ih ⊢
    cases h : similar member n <;> simp [h] <;> omega

/-- The members that the frontier leads to among the names, and the names left over. A member of
the frontier takes with it the names similar to it, which join the frontier at its end. -/
def grow (similar : α → α → Bool) : List α → List α → List α × List α
  | [], names => ([], names)
  | member :: frontier, names =>
    let rest := grow similar (frontier ++ joining similar member names)
      (staying similar member names)
    (member :: rest.1, rest.2)
termination_by frontier names => frontier.length + names.length
decreasing_by
  have := length_joining_add_length_staying similar member names
  simp only [List.length_append, List.length_cons]
  omega

theorem length_grow (similar : α → α → Bool) (frontier names : List α) :
    (grow similar frontier names).1.length + (grow similar frontier names).2.length =
      frontier.length + names.length := by
  fun_induction grow similar frontier names with
  | case1 names => simp
  | case2 member frontier names rest ih =>
    have parts := length_joining_add_length_staying similar member names
    simp only [List.length_append] at ih
    simp only [List.length_cons, rest]
    omega

theorem length_snd_grow_singleton (similar : α → α → Bool) (seed : α) (names : List α) :
    (grow similar [seed] names).2.length ≤ names.length := by
  have total := length_grow similar [seed] names
  have : 0 < (grow similar [seed] names).1.length := by
    rw [grow]
    simp
  simp only [List.length_singleton] at total
  omega

/-- The clusters of names, each in the order in which it grew, with those of a single name. -/
def all (similar : α → α → Bool) : List α → List (List α)
  | [] => []
  | seed :: names =>
    (grow similar [seed] names).1 :: all similar (grow similar [seed] names).2
termination_by names => names.length
decreasing_by
  have := length_snd_grow_singleton similar seed names
  simp only [List.length_cons]
  omega

end Cluster

/-- The clusters of at least two names, each in ascending order. -/
def clusters (threshold : Int) (names : List Text) : List (List Text) :=
  ((Cluster.all (isWithin threshold) (Ascending.ofList names)).filter fun members =>
    2 ≤ members.length).map Ascending.ofList

end StyleTokens
