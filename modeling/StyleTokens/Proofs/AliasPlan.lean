import Mathlib.Data.Finset.Card
import Mathlib.Data.List.Induction
import StyleTokens.AliasPlan
import StyleTokens.Proofs.Data.Ascending
import StyleTokens.Proofs.Json.Document
import StyleTokens.Proofs.Prune.Plan

/-!
# Alias plans are sets

A plan grows record by record, and its paths and tokens stand in it in the order of their arrival.
What it says does not depend on this order. Every record adds its path and token to what the plan
lists, unless they are listed already, so the plan is the set of its records. Its document lists
this set in ascending order, and there is only one such listing.

## Main definitions

* `AliasPlan.ofRecords`: the plan of several records
* `AliasPlan.Lists`: a plan that lists given records, each of them once
* `AliasPlan.table`: a plan in ascending order
* `AliasPlan.Listing`: records in ascending order

## Main results

* `AliasPlan.mem_planned_recordAll`: what a plan lists after several tokens of one file
* `AliasPlan.mem_members`: what the document of a plan lists
* `AliasPlan.Lists.record`, `AliasPlan.lists_ofRecords`: one record, and several
* `AliasPlan.Listing.unique`: there is only one listing of a set of records
* `AliasPlan.ofRecords_is_set`: a plan is the set of its records
-/

namespace StyleTokens.AliasPlan

variable {plan : AliasPlan} {path file token : Text} {tokens names : List Text}
  {records others : List (Text × Text)} {rows rows' : Table Text (List Text)}
  {e : Text × List Text}

/-! ## Several tokens of one file -/

theorem mem_planned_recordAll : token ∈ planned (plan.recordAll path tokens).removed file ↔
    token ∈ planned plan.removed file ∨ file = path ∧ token ∈ tokens := by
  induction tokens generalizing plan with
  | nil => simp [recordAll]
  | cons first tokens ih =>
    have here : token ∈ planned (plan.record path first).removed file ↔
        token ∈ planned plan.removed file ∨ file = path ∧ token = first := mem_planned_add
    change token ∈ planned ((plan.record path first).recordAll path tokens).removed file ↔ _
    rw [ih, here, List.mem_cons, or_assoc, ← and_or_left]

theorem nodup_recordAll (h : (plan.removed.map Prod.fst).Nodup) :
    ((plan.recordAll path tokens).removed.map Prod.fst).Nodup := by
  induction tokens generalizing plan with
  | nil => exact h
  | cons first tokens ih =>
    have recorded : ((plan.record path first).removed.map Prod.fst).Nodup := Entries.nodup_set h
    exact ih recorded

/-! ## The document of a plan -/

theorem mem_sorted : token ∈ sorted names ↔ token ∈ names :=
  List.mem_mergeSort

/-- Distinct tokens in ascending order ascend strictly. -/
theorem strict_sorted (distinct : names.Nodup) : Ascending.Strict (sorted names) := by
  have ascending : (sorted names).Pairwise fun a b => !decide (b < a) := by
    refine List.pairwise_mergeSort (fun a b c hab hbc => ?_) (fun a b => ?_) names
    · simp only [Bool.not_eq_true', decide_eq_false_iff_not, not_lt] at hab hbc ⊢
      exact hab.trans hbc
    · simpa using le_total a b
  have apart : (sorted names).Pairwise (· ≠ ·) :=
    (List.mergeSort_perm names _).nodup_iff.mpr distinct
  refine (ascending.and apart).imp fun {a b} h => ?_
  exact lt_of_le_of_ne (by simpa using h.1) h.2

/-- The plan in ascending order: its paths, and with each of them its tokens. -/
def table (plan : AliasPlan) : Table Text (List Text) :=
  (Table.ofList plan.removed).map fun (path, names) => (path, sorted names)

theorem strict_table (plan : AliasPlan) : Table.Strict plan.table := by
  have keys : plan.table.map Prod.fst = (Table.ofList plan.removed).map Prod.fst := by
    rw [table, List.map_map]
    rfl
  rw [Table.Strict, Table.keys, keys]
  exact Table.strict_ofList plan.removed

theorem mem_table (distinct : (plan.removed.map Prod.fst).Nodup) :
    (file, names) ∈ plan.table ↔ ∃ given, (file, given) ∈ plan.removed ∧ sorted given = names := by
  constructor
  · intro mem
    obtain ⟨⟨path, given⟩, entry, eq⟩ := List.mem_map.mp mem
    obtain ⟨rfl, same⟩ := Prod.mk.inj eq
    exact ⟨given, (Table.mem_ofList distinct).mp entry, same⟩
  · rintro ⟨given, entry, rfl⟩
    exact List.mem_map_of_mem ((Table.mem_ofList distinct).mpr entry)

/-- The plan in ascending order lists the same tokens. -/
theorem exists_mem_table (distinct : (plan.removed.map Prod.fst).Nodup) :
    (∃ names, (file, names) ∈ plan.table ∧ token ∈ names) ↔ token ∈ planned plan.removed file := by
  constructor
  · rintro ⟨names, mem, listed⟩
    obtain ⟨given, entry, rfl⟩ := (mem_table distinct).mp mem
    rw [planned_of_mem distinct entry]
    exact mem_sorted.mp listed
  · intro listed
    have entry := mem_of_mem_planned distinct listed
    exact ⟨_, (mem_table distinct).mpr ⟨_, entry, rfl⟩, mem_sorted.mpr listed⟩

/-- The members of the document of a plan. -/
def members (plan : AliasPlan) : List (Text × Json.Value) :=
  (Table.ofList plan.removed).map fun (path, names) => (path, .ofTexts (sorted names))

theorem json_eq (plan : AliasPlan) : plan.json = Json.document (.object plan.members) :=
  rfl

theorem members_eq (plan : AliasPlan) :
    plan.members = plan.table.map fun e => (e.1, .ofTexts e.2) := by
  rw [members, table, List.map_map]
  rfl

theorem ofTexts_injective : Function.Injective Json.Value.ofTexts := by
  intro names others eq
  refine List.map_injective_iff.mpr (fun a b h => ?_) (Json.Value.array.inj eq)
  exact Json.Value.text.inj h

/-- **What the document of a plan lists.** -/
theorem mem_members (distinct : (plan.removed.map Prod.fst).Nodup) :
    (∃ names, (file, Json.Value.ofTexts names) ∈ plan.members ∧ token ∈ names) ↔
      token ∈ planned plan.removed file := by
  have entry : ∀ names, (file, Json.Value.ofTexts names) ∈ plan.members ↔
      (file, names) ∈ plan.table := by
    intro names
    rw [members_eq, List.mem_map]
    constructor
    · rintro ⟨e, mem, eq⟩
      obtain ⟨rfl, same⟩ := Prod.mk.inj eq
      exact ofTexts_injective same ▸ mem
    · exact fun mem => ⟨(file, names), mem, rfl⟩
  simp only [entry, exists_mem_table distinct]

/-- **The document of a plan is read back**, with its members in their order. -/
theorem read_json (plan : AliasPlan) : Json.read plan.json = .ok (.object plan.members) := by
  refine Json.read_document (v := .object plan.members) ?_
  have keys : plan.members.map Prod.fst = plan.table.map Prod.fst := by
    rw [members_eq, List.map_map]
    rfl
  refine Json.Storable.object (keys ▸ Ascending.Strict.nodup plan.strict_table) fun m mem => ?_
  obtain ⟨e, -, rfl⟩ := List.mem_map.mp mem
  refine Json.Storable.array fun v mem => ?_
  obtain ⟨t, -, rfl⟩ := List.mem_map.mp mem
  exact .text _ t

/-! ## Record by record -/

/-- The plan of several records, each of them a path and a token. -/
def ofRecords (records : List (Text × Text)) : AliasPlan :=
  records.foldl (fun plan record => plan.record record.1 record.2) {}

/-- The plan lists the records and nothing else, each path and each of its tokens once. -/
structure Lists (plan : AliasPlan) (records : List (Text × Text)) : Prop where
  /-- Every path has one entry. -/
  distinct : (plan.removed.map Prod.fst).Nodup
  /-- No token stands twice in the entry of a path. -/
  once : ∀ path, (planned plan.removed path).Nodup
  /-- No entry is without tokens. -/
  used : ∀ e ∈ plan.removed, e.2 ≠ []
  /-- The tokens of a path are those recorded with it. -/
  listed : ∀ path token, token ∈ planned plan.removed path ↔ (path, token) ∈ records

namespace Lists

/-- **One more record.** -/
theorem record (h : plan.Lists records) (path token : Text) :
    (plan.record path token).Lists (records ++ [(path, token)]) := by
  have distinct : ((plan.record path token).removed.map Prod.fst).Nodup :=
    Entries.nodup_set h.distinct
  refine ⟨distinct, fun file => nodup_planned_add (h.once file), fun e mem => ?_,
    fun file other => ?_⟩
  · have found := (Entries.mem_iff_get? distinct).mp mem
    rw [AliasPlan.record, Entries.get?_modify] at found
    split_ifs at found with same
    · -- the token stands in the entry of its path
      have here : token ∈ e.2 := by
        rw [← Option.some.inj found, mem_addOnce]
        exact .inr rfl
      exact List.ne_nil_of_mem here
    · exact h.used e ((Entries.mem_iff_get? h.distinct).mpr found)
  · rw [List.mem_append, List.mem_singleton, Prod.mk.injEq, ← h.listed]
    exact mem_planned_add

theorem mem_iff (h : plan.Lists records) (mem : (path, names) ∈ plan.removed) :
    token ∈ names ↔ (path, token) ∈ records := by
  rw [← h.listed, planned_of_mem h.distinct mem]

end Lists

/-- **The plan of several records** lists these records. -/
theorem lists_ofRecords (records : List (Text × Text)) : (ofRecords records).Lists records := by
  induction records using List.reverseRecOn with
  | nil =>
    exact ⟨List.nodup_nil, fun _ => List.nodup_nil, by simp [ofRecords],
      by simp [ofRecords, planned, Entries.get?]⟩
  | append_singleton records e ih =>
    have step : ofRecords (records ++ [e]) = (ofRecords records).record e.1 e.2 := by
      rw [ofRecords, List.foldl_append]
      rfl
    rw [step]
    exact ih.record e.1 e.2

/-! ## The size of a plan -/

/-- The records that a plan lists. -/
def pairs (plan : AliasPlan) : List (Text × Text) :=
  plan.removed.flatMap fun e => e.2.map fun token => (e.1, token)

theorem length_pairs (plan : AliasPlan) : plan.pairs.length = plan.size := by
  simp only [pairs, size, List.length_flatMap, List.length_map]

namespace Lists

theorem mem_pairs (h : plan.Lists records) :
    (path, token) ∈ plan.pairs ↔ (path, token) ∈ records := by
  constructor
  · intro mem
    obtain ⟨e, entry, mem⟩ := List.mem_flatMap.mp mem
    obtain ⟨t, listed, eq⟩ := List.mem_map.mp mem
    obtain ⟨rfl, rfl⟩ := Prod.mk.inj eq
    exact (h.mem_iff entry).mp listed
  · intro mem
    have listed := (h.listed path token).mpr mem
    refine List.mem_flatMap.mpr ⟨_, mem_of_mem_planned h.distinct listed, ?_⟩
    exact List.mem_map.mpr ⟨token, listed, rfl⟩

theorem nodup_pairs (h : plan.Lists records) : plan.pairs.Nodup := by
  refine List.nodup_flatMap.mpr ⟨fun e mem => ?_, ?_⟩
  · have once := h.once e.1
    rw [planned_of_mem h.distinct mem] at once
    exact once.map fun _ _ eq => (Prod.mk.inj eq).2
  · -- entries of different paths have no record in common
    refine (List.pairwise_map.mp h.distinct).imp fun ne => List.disjoint_left.mpr ?_
    intro r mem mem'
    obtain ⟨_, -, rfl⟩ := List.mem_map.mp mem
    obtain ⟨_, -, eq⟩ := List.mem_map.mp mem'
    exact ne (Prod.mk.inj eq).1.symm

/-- A plan has as many tokens as there are different records. -/
theorem size_eq (h : plan.Lists records) : plan.size = records.toFinset.card := by
  have same : plan.pairs.toFinset = records.toFinset := by
    ext ⟨path, token⟩
    rw [List.mem_toFinset, List.mem_toFinset, h.mem_pairs]
  rw [← same, List.toFinset_card_of_nodup h.nodup_pairs, length_pairs]

end Lists

/-! ## Listings -/

/-- Records in ascending order. -/
structure Listing (records : List (Text × Text)) (rows : Table Text (List Text)) : Prop where
  /-- The paths ascend. -/
  paths : Table.Strict rows
  /-- The tokens of a path ascend. -/
  tokens : ∀ e ∈ rows, Ascending.Strict e.2
  /-- No path is without tokens. -/
  used : ∀ e ∈ rows, e.2 ≠ []
  /-- The records are listed, and nothing else. -/
  listed : ∀ path token, (path, token) ∈ records ↔ ∃ names, (path, names) ∈ rows ∧ token ∈ names

theorem Lists.listing (h : plan.Lists records) : Listing records plan.table := by
  have given : ∀ e ∈ plan.table, ∃ names, (e.1, names) ∈ plan.removed ∧ sorted names = e.2 :=
    fun e mem => (mem_table h.distinct).mp mem
  refine ⟨plan.strict_table, fun e mem => ?_, fun e mem => ?_, fun path token => ?_⟩
  · obtain ⟨names, entry, eq⟩ := given e mem
    rw [← eq]
    refine strict_sorted ?_
    rw [← planned_of_mem h.distinct entry]
    exact h.once e.1
  · obtain ⟨names, entry, eq⟩ := given e mem
    obtain ⟨token, listed⟩ := List.exists_mem_of_ne_nil names (h.used _ entry)
    rw [← eq]
    exact List.ne_nil_of_mem (mem_sorted.mpr listed)
  · rw [exists_mem_table h.distinct, h.listed]

namespace Listing

theorem mem_iff (h : Listing records rows) (mem : (path, names) ∈ rows) :
    token ∈ names ↔ (path, token) ∈ records := by
  rw [h.listed]
  constructor
  · exact fun listed => ⟨names, mem, listed⟩
  · rintro ⟨names', mem', listed⟩
    -- the path has one entry
    rw [Table.mem_iff_find? h.paths] at mem mem'
    obtain rfl := Option.some.inj (mem.symm.trans mem')
    exact listed

theorem mem_of_mem (h : Listing records rows) (h' : Listing records rows') (mem : e ∈ rows) :
    e ∈ rows' := by
  obtain ⟨token, listed⟩ := List.exists_mem_of_ne_nil e.2 (h.used e mem)
  obtain ⟨names, mem', -⟩ := (h'.listed e.1 token).mp ((h.mem_iff mem).mp listed)
  have same : e.2 = names :=
    (h.tokens e mem).ext (h'.tokens _ mem') fun token => by rw [h.mem_iff mem, h'.mem_iff mem']
  rwa [← same] at mem'

/-- **There is only one listing** of a set of records. -/
theorem unique (h : Listing records rows) (h' : Listing records rows') : rows = rows' :=
  h.paths.ext h'.paths fun _ => ⟨h.mem_of_mem h', h'.mem_of_mem h⟩

theorem congr (same : others.toFinset = records.toFinset) (h : Listing others rows) :
    Listing records rows := by
  refine { h with listed := fun path token => ?_ }
  rw [← List.mem_toFinset, ← same, List.mem_toFinset, h.listed]

end Listing

/-- **A plan is the set of its records.** Its size is the number of different records. Its document
lists them in ascending order, each of them once, and is the same for every order in which they
arrive and however often they do. -/
theorem ofRecords_is_set (records : List (Text × Text)) :
    (ofRecords records).size = records.toFinset.card ∧
    (∃ rows, Listing records rows ∧
      Json.read (ofRecords records).json =
        .ok (.object (rows.map fun e => (e.1, .ofTexts e.2)))) ∧
    ∀ others : List (Text × Text), others.toFinset = records.toFinset →
      (ofRecords others).json = (ofRecords records).json := by
  have lists := lists_ofRecords records
  refine ⟨lists.size_eq, ⟨_, lists.listing, ?_⟩, fun others same => ?_⟩
  · rw [read_json, members_eq]
  · have tables := ((lists_ofRecords others).listing.congr same).unique lists.listing
    rw [json_eq, json_eq, members_eq, members_eq, tables]

theorem ofRecords_is_set_repeated :
    let fewer := [("b.scss".toList, "--x".toList), ("b.scss".toList, "--y".toList)]
    let more := [("b.scss".toList, "--y".toList), ("b.scss".toList, "--x".toList),
      ("b.scss".toList, "--y".toList)]
    fewer.toFinset = more.toFinset ∧ (ofRecords more).size = 2 ∧
      (ofRecords fewer).json = (ofRecords more).json := by
  intro fewer more
  have same : fewer.toFinset = more.toFinset := by decide
  obtain ⟨size, -, texts⟩ := ofRecords_is_set more
  exact ⟨same, size.trans (by decide), texts fewer same⟩

end StyleTokens.AliasPlan
