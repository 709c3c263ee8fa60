import StyleTokens.Proofs.Duplicates
import StyleTokens.Proofs.Field
import StyleTokens.Proofs.Json.Document
import StyleTokens.Proofs.RenameMap

/-!
# What is kept in files

A baseline and a rename map are kept as JSON documents. The document of a baseline has a member for
every path, and that of a rename map one for every old name, so no key comes twice. The names of an
inventory are in order already, and so are the paths and the old names. Nothing is left to be put in
order or to be dropped when the documents are read, so what comes back is what was written.

## Main results

* `Inventory.ofEntry_members`: an inventory is read back from its member of a baseline file
* `Baseline.read_json`, `Baseline.ofMembers_members`: a baseline is read back
* `RenameMap.read_json`, `RenameMap.ofValue_object`: a rename map is read back
* `stored_read_back`: both are
-/

namespace StyleTokens

/-! ## Baselines -/

namespace Inventory

variable {inventory : Inventory} {kind : TokenKind}

/-- The members of an inventory in a baseline file. -/
def members (inventory : Inventory) : List (Text × Json.Value) :=
  TokenKind.all.map fun kind => (kind.key, .ofTexts (inventory.names kind))

theorem nodup_keys_members (inventory : Inventory) : (inventory.members.map Prod.fst).Nodup := by
  have keys : inventory.members.map Prod.fst = TokenKind.all.map TokenKind.key := by
    rw [members, List.map_map]
    rfl
  rw [keys]
  decide

theorem listOfMembers_members (inventory : Inventory) (kind : TokenKind) :
    listOfMembers inventory.members kind.key = .ok (inventory.names kind) := by
  have listed : (kind.key, .ofTexts (inventory.names kind)) ∈ inventory.members :=
    List.mem_map.mpr ⟨kind, by cases kind <;> decide, rfl⟩
  have found := (Entries.mem_iff_get? inventory.nodup_keys_members).mp listed
  rw [listOfMembers, Field.optional, found]
  simp only [Field.texts_ofTexts, Checked.inside]

/-- **An inventory is read back** from its member of a baseline file. -/
theorem ofEntry_members (h : ∀ kind, Ascending.Strict (inventory.names kind)) :
    ofEntry inventory.path inventory.members = .ok inventory := by
  have properties : listOfMembers inventory.members "properties".toList =
      .ok inventory.properties := inventory.listOfMembers_members .property
  have blocks : listOfMembers inventory.members "blocks".toList = .ok inventory.blocks :=
    inventory.listOfMembers_members .block
  have functions : listOfMembers inventory.members "functions".toList = .ok inventory.functions :=
    inventory.listOfMembers_members .function
  have refs : listOfMembers inventory.members "moduleRefs".toList = .ok inventory.moduleRefs :=
    inventory.listOfMembers_members .moduleRef
  have ordered : ofLists inventory.path inventory.properties inventory.blocks inventory.functions
      inventory.moduleRefs = inventory := by
    have same : ∀ kind, Ascending.ofList (inventory.names kind) = inventory.names kind :=
      fun kind => Ascending.ofList_eq_self (h kind)
    rw [ofLists, show Ascending.ofList inventory.properties = _ from same .property,
      show Ascending.ofList inventory.blocks = _ from same .block,
      show Ascending.ofList inventory.functions = _ from same .function,
      show Ascending.ofList inventory.moduleRefs = _ from same .moduleRef]
    rfl
  rw [ofEntry, withMembers, properties, blocks, functions, refs]
  exact congrArg Except.ok ordered

end Inventory

namespace Baseline

variable {baseline : Baseline}

/-- The members of a baseline file. -/
def members (baseline : Baseline) : List (Text × Json.Value) :=
  baseline.files.map fun e => (e.1, .object e.2.members)

/-- **The document of a baseline is read back** as its members. -/
theorem read_json (h : baseline.Valid) :
    Json.read baseline.json = .ok (.object baseline.members) := by
  refine Json.read_document (v := .object baseline.members) ?_
  have keys : baseline.members.map Prod.fst = baseline.files.keys := by
    rw [members, List.map_map]
    rfl
  -- an object of objects of lists of texts
  refine Json.Storable.object (keys ▸ Ascending.Strict.nodup h.strict) fun m mem => ?_
  obtain ⟨e, -, rfl⟩ := List.mem_map.mp mem
  refine Json.Storable.object e.2.nodup_keys_members fun m mem => ?_
  obtain ⟨kind, -, rfl⟩ := List.mem_map.mp mem
  refine Json.Storable.array fun v mem => ?_
  obtain ⟨t, -, rfl⟩ := List.mem_map.mp mem
  exact .text _ t

/-- **The members of a baseline file** give the baseline. -/
theorem ofMembers_members (h : baseline.Valid) : ofMembers baseline.members = .ok baseline := by
  have entry : ∀ e ∈ baseline.files, inventoryOfEntry e.1 (.object e.2.members) = .ok e.2 := by
    intro e mem
    have read : Inventory.ofEntry e.1 e.2.members = .ok e.2 := by
      rw [← h.keyed e mem]
      exact Inventory.ofEntry_members (h.names e mem)
    rw [inventoryOfEntry, read]
    rfl
  have same : ofInventories (baseline.files.map Prod.snd) = baseline := h.ofInventories_inventories
  rw [ofMembers, members, mapM_map_eq_ok entry]
  exact congrArg Except.ok same

end Baseline

/-! ## Rename maps -/

namespace RenameMap

/-- The JSON object of a rename map. -/
def object (map : RenameMap) : Json.Value :=
  .object (map.pairs.map fun e => (e.1, .text e.2))

/-- **The document of a rename map is read back** as its object. -/
theorem read_json (pairs : List (Text × Text)) :
    Json.read (ofPairs pairs).json = .ok (ofPairs pairs).object := by
  refine Json.read_document (v := (ofPairs pairs).object) ?_
  have keys : ((ofPairs pairs).pairs.map fun e => (e.1, Json.Value.text e.2)).map Prod.fst =
      (ofPairs pairs).pairs.keys := by
    rw [List.map_map]
    rfl
  refine Json.Storable.object ?_ fun m mem => ?_
  · rw [keys]
    exact Ascending.Strict.nodup (strict_ofPairs pairs)
  · obtain ⟨e, -, rfl⟩ := List.mem_map.mp mem
    exact .text _ e.2

/-- **The object of a rename map** gives the map: no pair is dropped and none changes its place. -/
theorem ofValue_object (pairs : List (Text × Text)) :
    ofValue (ofPairs pairs).object = .ok (ofPairs pairs) := by
  have texts : Field.textMembers (ofPairs pairs).object = .ok (ofPairs pairs).pairs := by
    rw [object, Field.textMembers, List.map_map]
    exact (Checked.all_map_ok fun e _ => rfl).trans (congrArg Except.ok (List.map_id _))
  rw [ofValue, texts]
  exact congrArg Except.ok (ofPairs_pairs pairs)

end RenameMap

/-! ## Both files -/

/-- **What is kept in files is read back.** The document of every baseline gives the same baseline
again, so its own document is the same, too, and that of every rename map gives the same map, with
its old names in the same order. -/
theorem stored_read_back (baseline : Baseline) (valid : baseline.Valid)
    (pairs : List (Text × Text)) :
    (∃ members loaded, Json.read baseline.json = .ok (.object members) ∧
      Baseline.ofMembers members = .ok loaded ∧ loaded = baseline ∧
      loaded.json = baseline.json) ∧
    ∃ object, Json.read (RenameMap.ofPairs pairs).json = .ok object ∧
      RenameMap.ofValue object = .ok (RenameMap.ofPairs pairs) := by
  constructor
  · exact ⟨baseline.members, baseline, Baseline.read_json valid,
      Baseline.ofMembers_members valid, rfl, rfl⟩
  · exact ⟨(RenameMap.ofPairs pairs).object, RenameMap.read_json pairs,
      RenameMap.ofValue_object pairs⟩

/-- A file whose path and names are escaped in all ways. -/
def escapedBaseline : Baseline :=
  .ofInventories [.ofLists "a \"b\"\\c\t.scss".toList ["--größe".toList, "--\x7f\x01".toList]
    ["gap\r\n".toList] ["🎨".toList] [[], "\uffff/\x08\x0c".toList]]

theorem stored_read_back_escaped :
    escapedBaseline.Valid ∧
    (∃ members loaded, Json.read escapedBaseline.json = .ok (.object members) ∧
      Baseline.ofMembers members = .ok loaded ∧ loaded = escapedBaseline ∧
      loaded.json = escapedBaseline.json) ∧
    ∃ object, Json.read (RenameMap.ofPairs [("--🎨".toList, "--é\n".toList)]).json = .ok object ∧
      RenameMap.ofValue object = .ok (RenameMap.ofPairs [("--🎨".toList, "--é\n".toList)]) := by
  have valid : escapedBaseline.Valid := by
    refine Baseline.valid_ofInventories fun i mem kind => ?_
    obtain rfl := List.mem_singleton.mp mem
    cases kind <;> exact Ascending.strict_ofList _
  obtain ⟨baseline_read, map_read⟩ :=
    stored_read_back escapedBaseline valid [("--🎨".toList, "--é\n".toList)]
  exact ⟨valid, baseline_read, map_read⟩

end StyleTokens
