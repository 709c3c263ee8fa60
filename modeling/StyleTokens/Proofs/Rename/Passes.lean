import StyleTokens.Proofs.Rename.Agreement
import StyleTokens.Proofs.Rename.Marks

/-!
# The two passes of renaming

Properties are renamed first, mixins and functions in the result. Both rules take whole names, so
each pass marks some stretches of the text it is given. If properties get the names of properties,
nothing that the first pass has written is a name that the second one knows. So no name is renamed
twice, and the two passes together mark the stretches of the text that was there in the beginning.

## Main results

* `Rename.takesWhole_callableRule`: mixins and functions are taken as a whole
* `Rename.exists_marks_both`: marks of one pass after another
* `Rename.exists_marks_rename`: a renamed text has new names for some of its runs, each in one step
-/

namespace StyleTokens.Rename

/-! ## Mixins and functions -/

section

variable {names : List Text} {o : Occurrence} {t lead keyword rest : Text} {n : Nat}

theorem not_startsInName_of_endsName (h : endsName t) : Text.startsInName t = false := by
  simpa [endsName] using h

theorem not_startsInName_of_parenFollows (h : parenFollows t) : Text.startsInName t = false := by
  rw [parenFollows, decide_eq_true_eq] at h
  rw [Text.startsInName, h]
  rfl

/-- A whole name of the list, behind a character that is no part of a name. -/
def TakesBehind (names : List Text) (t : Text) (o : Occurrence) : Prop :=
  o.old ∈ names ∧ (∃ c, o.lead.getLast? = some c ∧ isNameChar c = false) ∧
    ∃ rest, t = o.lead ++ o.old ++ rest ∧ Text.startsInName rest = false

theorem qualifiedName?_eq_some (h : qualifiedName? names lead t = some o) :
    TakesBehind names (lead ++ t) o := by
  by_cases empty : t.nameRun.isEmpty
  · simp [qualifiedName?, empty] at h
  · simp only [qualifiedName?, if_neg empty, Option.bind_eq_bind, Option.pure_def,
      Option.bind_eq_some_iff, List.isPrefixOf?_eq_some_iff_append_eq, Option.some.injEq] at h
    -- the module's name is the whole run in front of the dot
    obtain ⟨behind, dot, old, name, rfl⟩ := h
    obtain ⟨mem, rest, rfl, ends⟩ := nameAt?_eq_some name
    refine ⟨mem, ⟨'.', List.getLast?_concat, by decide⟩, rest, ?_,
      not_startsInName_of_endsName ends⟩
    have split : t.nameRun ++ t.drop t.nameRun.length = t :=
      List.prefix_iff_eq_append.mp (List.takeWhile_prefix isNameChar)
    calc lead ++ t = lead ++ (t.nameRun ++ (['.'] ++ (old ++ rest))) := by rw [dot, split]
      _ = lead ++ t.nameRun ++ ['.'] ++ old ++ rest := by simp only [List.append_assoc]

theorem last_take_blanks (pos : n ≠ 0) (le : n ≤ (rest.takeWhile isBlank).length) :
    ∃ c, (rest.take n).getLast? = some c ∧ isNameChar c = false := by
  -- so few characters are blanks only
  have blanks : rest.take n = (rest.takeWhile isBlank).take n := by
    conv_lhs => rw [← List.takeWhile_append_dropWhile (p := isBlank) (l := rest)]
    exact List.take_append_of_le_length le
  have ne : (rest.takeWhile isBlank).take n ≠ [] := by
    rw [← List.length_pos_iff, List.length_take]
    omega
  rw [blanks]
  refine ⟨_, List.getLast?_eq_some_getLast ne, ?_⟩
  have blank := List.mem_takeWhile_imp (List.mem_of_mem_take (List.getLast_mem ne))
  simpa using not_isNameChar_of_isBlank blank

/-- A name in a rule stands behind a blank or a dot. -/
theorem ruleName?_eq_some (pos : n ≠ 0) (le : n ≤ (rest.takeWhile isBlank).length)
    (h : ruleName? names keyword rest n = some o) : TakesBehind names (keyword ++ rest) o := by
  have split : keyword ++ rest = keyword ++ rest.take n ++ rest.drop n := by
    rw [List.append_assoc, List.take_append_drop]
  rw [split]
  rcases eq_some_of_orElse h with qualified | found
  · exact qualifiedName?_eq_some qualified
  · obtain ⟨old, name, rfl⟩ := Option.map_eq_some_iff.mp found
    obtain ⟨mem, behind, eq, ends⟩ := nameAt?_eq_some name
    obtain ⟨c, last, outside⟩ := last_take_blanks pos le
    refine ⟨mem, ⟨c, ?_, outside⟩, behind, ?_, not_startsInName_of_endsName ends⟩
    · change (keyword ++ rest.take n).getLast? = some c
      rw [List.getLast?_append, last]
      rfl
    · rw [eq, ← List.append_assoc]

theorem namedInRule?_eq_some (h : namedInRule? names t = some o) : TakesBehind names t o := by
  simp only [namedInRule?, Option.bind_eq_bind, Option.bind_eq_some_iff] at h
  obtain ⟨⟨keyword, rest⟩, found, h⟩ := h
  obtain ⟨keyword', -, found⟩ := List.exists_of_findSome?_eq_some found
  obtain ⟨rest', split, eq⟩ := Option.map_eq_some_iff.mp found
  cases eq
  obtain rfl := List.isPrefixOf?_eq_some_iff_append_eq.mp split
  -- whatever number of blanks is tried, it is at least one
  obtain ⟨i, mem, found⟩ := List.exists_of_findSome?_eq_some h
  have few : i < (rest.takeWhile isBlank).length := List.mem_range.mp mem
  exact ruleName?_eq_some (Nat.sub_ne_zero_of_lt few) (Nat.sub_le _ _) found

/-- **Mixins and functions are taken as a whole.** -/
theorem takesWhole_callableRule (names : List Text) : TakesWhole names (callableRule names) := by
  refine takesWhole_of_forall fun before t hit found => ?_
  obtain ⟨o, either, rfl⟩ := Option.map_eq_some_iff.mp found
  refine ⟨o, ?_⟩
  rcases eq_some_of_orElse either with named | called
  · obtain ⟨mem, ⟨c, last, outside⟩, rest, split, ends⟩ := namedInRule?_eq_some named
    exact ⟨rest, rfl, split, mem, by simpa [last] using outside, ends⟩
  · unfold freshName? at called
    split_ifs at called with inside
    obtain ⟨old, name, rfl⟩ := Option.map_eq_some_iff.mp called
    obtain ⟨mem, rest, rfl, paren⟩ := nameAt?_eq_some name
    exact ⟨rest, rfl, rfl, mem, by simpa using inside, not_startsInName_of_parenFollows paren⟩

end

/-! ## One pass after another -/

/-- At most one of two passes marks a stretch. -/
theorem exists_mark_both {f : Text → Text} {mark mark' : Mark}
    (here : mark'.stretch = mark.spelled f)
    (fresh : mark.renamed → mark'.renamed → mark'.stretch ≠ f mark.stretch) :
    ∃ both : Mark, both.stretch = mark.stretch ∧ both.spelled f = mark'.spelled f ∧
      both.renamed.toNat = mark.renamed.toNat + mark'.renamed.toNat ∧
      (both = mark ∨ both = mark') := by
  cases first : mark.renamed with
  | true =>
    have new : mark'.stretch = f mark.stretch := here.trans (Mark.spelled_of_renamed first)
    have second : mark'.renamed = false := by
      by_contra second
      exact fresh first (by simpa using second) new
    refine ⟨mark, rfl, ?_, by rw [first, second]; rfl, .inl rfl⟩
    rw [Mark.spelled_of_not_renamed second, here]
  | false =>
    have same : mark'.stretch = mark.stretch := here.trans (Mark.spelled_of_not_renamed first)
    exact ⟨mark', same, rfl, (Nat.zero_add _).symm, .inr rfl⟩

theorem countP_renamed_cons (mark : Mark) (marks : List Mark) :
    (mark :: marks).countP Mark.renamed = marks.countP Mark.renamed + mark.renamed.toNat := by
  rw [List.countP_cons]
  cases mark.renamed <;> rfl

/-- **Marks of one pass after another** are marks on the text that was there in the beginning, if
nothing that the first pass has written is marked again. -/
theorem exists_marks_both {f : Text → Text} {marks later : List Mark}
    (stretches : later.map Mark.stretch = marks.map (Mark.spelled f))
    (fresh : ∀ mark ∈ marks, mark.renamed → ∀ mark' ∈ later, mark'.renamed →
      mark'.stretch ≠ f mark.stretch) :
    ∃ both : List Mark, both.map Mark.stretch = marks.map Mark.stretch ∧
      spelled f both = spelled f later ∧
      both.countP Mark.renamed = marks.countP Mark.renamed + later.countP Mark.renamed ∧
      ∀ mark ∈ both, mark ∈ marks ∨ mark ∈ later := by
  induction marks generalizing later with
  | nil =>
    obtain rfl : later = [] := List.map_eq_nil_iff.mp stretches
    exact ⟨[], rfl, rfl, rfl, nofun⟩
  | cons mark marks ih =>
    obtain ⟨mark', later, rfl, here, stretches⟩ := List.map_eq_cons_iff.mp stretches
    obtain ⟨one, same₁, text₁, count₁, mem₁⟩ := exists_mark_both here fun renamed renamed' =>
      fresh mark List.mem_cons_self renamed mark' List.mem_cons_self renamed'
    obtain ⟨both, same, text, count, mem⟩ := ih stretches fun m hm renamed m' hm' =>
      fresh m (List.mem_cons_of_mem mark hm) renamed m' (List.mem_cons_of_mem mark' hm')
    refine ⟨one :: both, by rw [List.map_cons, List.map_cons, same₁, same], ?_, ?_, ?_⟩
    · calc spelled f (one :: both) = one.spelled f ++ spelled f both := List.flatMap_cons
        _ = mark'.spelled f ++ spelled f later := by rw [text₁, text]
        _ = spelled f (mark' :: later) := List.flatMap_cons.symm
    · simp only [countP_renamed_cons, count, count₁]
      omega
    · intro m hm
      rcases List.mem_cons.mp hm with rfl | hm
      · rcases mem₁ with rfl | rfl
        · exact .inl List.mem_cons_self
        · exact .inr List.mem_cons_self
      · exact (mem m hm).imp (List.mem_cons_of_mem mark) (List.mem_cons_of_mem mark')

/-! ## Renamed texts -/

section

variable {pairs : List (Text × Text)}

/-- The names of mixins and functions that pairs change. -/
def changedCallables (pairs : List (Text × Text)) : List Text :=
  inOrder (((effective pairs).map Prod.fst).filter fun name => !isProperty name)

theorem mem_changedCallables {name : Text} : name ∈ changedCallables pairs ↔
    isProperty name = false ∧ ∃ new, (name, new) ∈ pairs ∧ RenameMap.changes name new := by
  simp [changedCallables, inOrder, effective, and_comm]

/-- An old name has its new one in the pairs. -/
theorem newName_mem {old new : Text} (h : (old, new) ∈ pairs) :
    (old, newName pairs old) ∈ pairs := by
  unfold newName
  cases found : Entries.get? old pairs with
  | some new => exact mem_of_get? found
  | none =>
    induction pairs with
    | nil => cases h
    | cons pair pairs ih =>
      rw [Entries.get?] at found
      split_ifs at found with here
      rcases List.mem_cons.mp h with rfl | h
      · exact absurd rfl here
      · exact List.mem_cons_of_mem _ (ih h found)

/-- **A renamed text has new names for some of its runs**, and all else as it was. Each name is one
of the pairs', and gets its new name in one step. The number of changes is the number of these runs.
-/
theorem exists_marks_rename (t : Text)
    (hp : ∀ pair ∈ pairs, IsName pair.1 ∧ IsName pair.2 ∧
      (isProperty pair.1 → isProperty pair.2)) :
    ∃ marks : List Mark, marks.map Mark.stretch = t.stretches ∧
      (∀ mark ∈ marks, mark.renamed → (mark.stretch, newName pairs mark.stretch) ∈ pairs) ∧
      rename pairs t = (spelled (newName pairs) marks, marks.countP Mark.renamed) := by
  have keys : ∀ name, name ∈ changed pairs ∨ name ∈ changedCallables pairs →
      (name, newName pairs name) ∈ pairs := by
    rintro name (mem | mem)
    · obtain ⟨-, new, mem, -⟩ := mem_changed.mp mem
      exact newName_mem mem
    · obtain ⟨-, new, mem, -⟩ := mem_changedCallables.mp mem
      exact newName_mem mem
  have names : ∀ name ∈ changed pairs, IsName name := fun name mem =>
    (hp _ (keys name (.inl mem))).1
  have names' : ∀ name ∈ changedCallables pairs, IsName name := fun name mem =>
    (hp _ (keys name (.inr mem))).1
  -- each pass marks the text that it is given
  obtain ⟨marks, first, atoms⟩ := exists_marks_atomsBy names (takesWhole_propertyRule _) t
  obtain ⟨later, second, atoms'⟩ := exists_marks_atomsBy names' (takesWhole_callableRule _)
    (spelled (newName pairs) marks)
  have stretches : later.map Mark.stretch = marks.map (Mark.spelled (newName pairs)) :=
    second.stretches.trans (first.stretches_spelled names fun name mem =>
      (hp _ (keys name (.inl mem))).2.1)
  -- the new name of a property is one of a property
  have fresh : ∀ mark ∈ marks, mark.renamed → ∀ mark' ∈ later, mark'.renamed →
      mark'.stretch ≠ newName pairs mark.stretch := by
    intro mark hm renamed mark' hm' renamed' eq
    have old := first.mem mark hm renamed
    have new := (hp _ (keys _ (.inl old))).2.2 (mem_changed.mp old).1
    have other := (mem_changedCallables.mp (second.mem mark' hm' renamed')).1
    rw [eq, new] at other
    cases other
  obtain ⟨both, same, text, count, mem⟩ := exists_marks_both stretches fresh
  refine ⟨both, same.trans first.stretches, fun mark hm renamed => ?_, ?_⟩
  · rcases mem mark hm with hm | hm
    · exact keys _ (.inl (first.mem mark hm renamed))
    · exact keys _ (.inr (second.mem mark hm renamed))
  · have between : (properties pairs).replaced (renamed pairs) t = spelled (newName pairs) marks :=
      replaced_eq_spelled (f := newName pairs) atoms
    have after : (callables pairs).replaced (renamed pairs) (spelled (newName pairs) marks) =
        spelled (newName pairs) later := replaced_eq_spelled (f := newName pairs) atoms'
    have hits : (properties pairs).hitCount t = marks.countP Mark.renamed :=
      hitCount_eq_countP atoms
    have hits' : (callables pairs).hitCount (spelled (newName pairs) marks) =
        later.countP Mark.renamed := hitCount_eq_countP atoms'
    rw [rename, between, after, hits, hits', text, count]

/-- A mixin gets the name of a property that gets a new name itself. -/
def chainedPairs : List (Text × Text) :=
  [("--a".toList, "--b".toList), ("tip".toList, "--a".toList)]

/-- No name is renamed twice, and `--a-b` is a name of its own. -/
theorem exists_marks_rename_chained :
    (∀ pair ∈ chainedPairs, IsName pair.1 ∧ IsName pair.2 ∧
      (isProperty pair.1 → isProperty pair.2)) ∧
    (∃ marks : List Mark,
      marks.map Mark.stretch = (Text.stretches "--a:tip(--a-b)@include tip:".toList) ∧
      (∀ mark ∈ marks, mark.renamed → (mark.stretch, newName chainedPairs mark.stretch) ∈
        chainedPairs) ∧
      rename chainedPairs "--a:tip(--a-b)@include tip:".toList =
        (spelled (newName chainedPairs) marks, marks.countP Mark.renamed)) ∧
    rename chainedPairs "--a:tip(--a-b)@include tip:".toList =
      ("--b:--a(--a-b)@include --a:".toList, 3) := by
  have pairs : ∀ pair ∈ chainedPairs, IsName pair.1 ∧ IsName pair.2 ∧
      (isProperty pair.1 → isProperty pair.2) := by decide
  exact ⟨pairs, exists_marks_rename _ pairs, by decide +kernel⟩

end

end StyleTokens.Rename
