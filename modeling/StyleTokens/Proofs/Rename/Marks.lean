import StyleTokens.Proofs.Rename.Spelling
import StyleTokens.Proofs.Text.Stretches

/-!
# Renaming as marks on the stretches of a text

A rule that takes whole names takes runs of name characters, from end to end. So a pass of renaming
marks some of the runs of a text, and gives each of them its new name. A new name is a run as well,
so the text with new names has the same stretches, up to the names that were marked.

## Main definitions

* `Rename.Mark`: a stretch of a text, and whether it gets a new name
* `Rename.spelled`: the text with new names for what is marked
* `Rename.Marks`: marks on the stretches of a text

## Main results

* `Rename.exists_marks`: names that stand apart are marked stretches
* `Rename.exists_marks_atomsBy`: what a rule cuts out is marked
* `Rename.Marks.stretches_spelled`: the stretches of the text with new names
-/

namespace StyleTokens.Rename

/-- A stretch of a text, and whether it gets a new name. -/
structure Mark where
  stretch : Text
  renamed : Bool
  deriving DecidableEq, Inhabited, Repr

/-- The stretch, or its new name. -/
def Mark.spelled (f : Text → Text) (mark : Mark) : Text :=
  if mark.renamed then f mark.stretch else mark.stretch

/-- The atoms of the stretch. -/
def Mark.atoms (mark : Mark) : List Atom :=
  if mark.renamed then [.name mark.stretch] else mark.stretch.map .plain

/-- The text with new names for what is marked. -/
def spelled (f : Text → Text) (marks : List Mark) : Text :=
  marks.flatMap (Mark.spelled f)

/-- Marks on the stretches of a text. What is marked is one of the names. -/
structure Marks (names : List Text) (t : Text) (marks : List Mark) : Prop where
  stretches : marks.map Mark.stretch = t.stretches
  mem : ∀ mark ∈ marks, mark.renamed → mark.stretch ∈ names

section

variable {f : Text → Text} {names : List Text} {rule : Rule Occurrence} {marks : List Mark}
  {mark : Mark} {A : List Atom} {t old : Text}

theorem Mark.spelled_of_renamed (h : mark.renamed = true) : mark.spelled f = f mark.stretch :=
  if_pos h

theorem Mark.spelled_of_not_renamed (h : mark.renamed = false) : mark.spelled f = mark.stretch :=
  if_neg (by simp [h])

theorem written_flatMap_atoms : written f (marks.flatMap Mark.atoms) = spelled f marks := by
  rw [written, List.flatMap_assoc, spelled]
  congr 1
  funext mark
  cases renamed : mark.renamed with
  | true => simp [Mark.atoms, Mark.spelled, renamed, Atom.written]
  | false =>
    rw [Mark.atoms, if_neg (by simp [renamed]), Mark.spelled_of_not_renamed renamed]
    exact written_map_plain mark.stretch

/-- Without new names, the marks make up the text. -/
theorem written_id_flatMap_atoms :
    written id (marks.flatMap Mark.atoms) = (marks.map Mark.stretch).flatten := by
  rw [written_flatMap_atoms, spelled, ← List.flatMap_def]
  congr 1
  funext mark
  exact ite_self _

theorem Mark.atoms_of_renamed (h : mark.renamed = true) : mark.atoms = [.name mark.stretch] :=
  if_pos h

theorem Mark.atoms_of_not_renamed (h : mark.renamed = false) :
    mark.atoms = mark.stretch.map .plain :=
  if_neg (by simp [h])

theorem countP_flatMap_atoms :
    (marks.flatMap Mark.atoms).countP Atom.isName = marks.countP Mark.renamed := by
  induction marks with
  | nil => rfl
  | cons mark marks ih =>
    rw [List.flatMap_cons, List.countP_append, ih, List.countP_cons, Nat.add_comm]
    congr 1
    cases renamed : mark.renamed with
    | true => simp [Mark.atoms, renamed, Atom.isName]
    | false => simp [Mark.atoms, renamed, List.countP_eq_zero, Atom.isName]

theorem name_mem_flatMap_atoms (mem : mark ∈ marks) (renamed : mark.renamed) :
    .name mark.stretch ∈ marks.flatMap Mark.atoms :=
  List.mem_flatMap.mpr ⟨mark, mem, by simp [Mark.atoms, renamed]⟩

/-- The atoms of one kind are those of a stretch: a name stands alone among them. -/
theorem exists_mark {part : List Atom} (chain : A.IsChain Atom.Apart) (inA : part <:+: A)
    (kind : ∃ k, ∀ a ∈ part, a.inName = k) :
    ∃ mark, Mark.atoms mark = part ∧ mark.stretch = written id part := by
  by_cases name : ∃ old, .name old ∈ part
  · obtain ⟨old, mem⟩ := name
    obtain ⟨k, hk⟩ := kind
    have inside : ∀ a ∈ part, a.inName := fun a ha => (hk a ha).trans (hk _ mem).symm
    obtain rfl := eq_singleton_of_isChain chain inA inside mem
    exact ⟨⟨old, true⟩, rfl, (List.append_nil old).symm⟩
  · refine ⟨⟨written id part, false⟩, ?_, rfl⟩
    rw [Mark.atoms, if_neg Bool.false_ne_true]
    clear inA kind
    induction part with
    | nil => rfl
    | cons a part ih =>
      have rest := ih (mt (Exists.imp fun old => List.mem_cons_of_mem a) name)
      cases a with
      | plain c => rw [written_plain, List.map_cons, rest]
      | name old => exact absurd ⟨old, List.mem_cons_self⟩ name

/-- The characters of atoms are of their kind. -/
theorem written_kind {part : List Atom} (named : ∀ old, .name old ∈ part → IsName old)
    (ne : part ≠ []) : written id part ≠ [] ∧
      ∀ c ∈ written id part, ∃ a ∈ part, isNameChar c = a.inName := by
  constructor
  · obtain ⟨a, part, rfl⟩ := List.exists_cons_of_ne_nil ne
    cases a with
    | plain c => exact List.cons_ne_nil _ _
    | name old => exact List.append_ne_nil_of_left_ne_nil (named old List.mem_cons_self).ne_nil _
  · intro c hc
    obtain ⟨a, ha, hc⟩ := List.mem_flatMap.mp hc
    refine ⟨a, ha, ?_⟩
    cases a with
    | plain d => rw [List.mem_singleton.mp hc]; rfl
    | name old => exact (named old ha).chars c hc

/-- **Names that stand apart are marked stretches.** -/
theorem exists_marks (named : ∀ old, .name old ∈ A → IsName old) (chain : A.IsChain Atom.Apart) :
    ∃ marks : List Mark, marks.map Mark.stretch = (written id A).stretches ∧
      marks.flatMap Mark.atoms = A := by
  -- the atoms fall into stretches as their characters do
  obtain ⟨whole, cut⟩ := splitBy_eq_iff_isCut.mp
    (rfl : A.splitBy (fun a b => a.inName == b.inName) = _)
  generalize A.splitBy (fun a b => a.inName == b.inName) = parts at whole cut
  have each : ∀ part ∈ parts, ∃ mark, Mark.atoms mark = part ∧ mark.stretch = written id part := by
    intro part mem
    exact exists_mark chain (whole ▸ List.infix_of_mem_flatten mem) (cut.part part mem).2
  choose! markOf atoms stretch using each
  refine ⟨parts.map markOf, ?_, ?_⟩
  · rw [List.map_map, List.map_congr_left (f := Mark.stretch ∘ markOf) stretch, eq_comm,
      Text.stretches_eq_iff]
    constructor
    · rw [whole, written, List.flatten_eq_flatMap, List.flatMap_assoc]
      rfl
    · refine IsCut.map (f := id) (by rwa [List.map_id]) fun part mem => ?_
      refine written_kind (fun old here => named old ?_) (cut.part part mem).1
      rw [whole]
      exact List.mem_flatten_of_mem mem here
  · rw [List.flatMap_map, whole, List.flatten_eq_flatMap]
    exact List.flatMap_congr atoms

/-- **What a rule cuts out is marked.** -/
theorem exists_marks_atomsBy (hn : ∀ name ∈ names, IsName name) (whole : TakesWhole names rule)
    (t : Text) : ∃ marks, Marks names t marks ∧ marks.flatMap Mark.atoms = atomsBy rule none t := by
  obtain ⟨text, cut⟩ := cutBy_atomsBy (fun name mem => (hn name mem).ne_nil) whole none t
  obtain ⟨marks, stretches, atoms⟩ :=
    exists_marks (fun old mem => hn old ((cut.whole whole).mem mem)) ((cut.whole whole).isChain hn)
  rw [text] at stretches
  refine ⟨marks, ⟨stretches, fun mark mem renamed => ?_⟩, atoms⟩
  refine (cut.whole whole).mem ?_
  rw [← atoms]
  exact name_mem_flatMap_atoms mem renamed

theorem replaced_eq_spelled (atoms : marks.flatMap Mark.atoms = atomsBy rule none t) :
    rule.replaced (fun o => o.lead ++ f o.old) t = spelled f marks := by
  rw [Rule.replaced_eq, ← written_atomsBy, ← atoms, written_flatMap_atoms]

theorem hitCount_eq_countP (atoms : marks.flatMap Mark.atoms = atomsBy rule none t) :
    rule.hitCount t = marks.countP Mark.renamed := by
  rw [← countP_atomsBy, ← atoms, countP_flatMap_atoms]

/-- **The stretches of the text with new names** are those that were marked, with their new names.
-/
theorem Marks.stretches_spelled (h : Marks names t marks) (hn : ∀ name ∈ names, IsName name)
    (new : ∀ name ∈ names, IsName (f name)) :
    (spelled f marks).stretches = marks.map (Mark.spelled f) := by
  rw [Text.stretches_eq_iff]
  refine ⟨rfl, IsCut.map (h.stretches ▸ Text.isCut_stretches t) fun mark mem => ?_⟩
  have here : mark.stretch ∈ t.stretches := h.stretches ▸ List.mem_map_of_mem mem
  have ne := ((Text.isCut_stretches t).part _ here).1
  cases renamed : mark.renamed with
  | false =>
    rw [Mark.spelled_of_not_renamed renamed]
    exact ⟨ne, fun c hc => ⟨c, hc, rfl⟩⟩
  | true =>
    -- both the old name and the new one are name characters
    rw [Mark.spelled_of_renamed renamed]
    have name := h.mem mark mem renamed
    obtain ⟨d, hd⟩ := List.exists_mem_of_ne_nil _ ne
    refine ⟨(new _ name).ne_nil, fun c hc => ⟨d, hd, ?_⟩⟩
    rw [(new _ name).chars c hc, (hn _ name).chars d hd]

end

end StyleTokens.Rename
