import StyleTokens.Proofs.Rename.Runs

/-!
# Renaming properties a second time

Renaming is committed once and may be run again. If no new name is an old one, a run that was
renamed is none of the old names any more, so a second pass could only rename a run that the first
one has left. Such a run stands where it stood, between the same separators, and whether it is
declared or used is read off these and off the run in front of them. That run may be a new one; as
long as no new name ends in `var`, it makes no use of what it was not used in before.

## Main results

* `Rename.declares_of_spelled`, `Rename.uses_of_spelled`: what is declared or used in the renamed
  text was declared or used before
* `Rename.rename_rename`: a second pass changes nothing
-/

namespace StyleTokens.Rename

section

variable {f : Text → Text} {names : List Text} {t : Text} {front behind : List Mark}
  {mark : Mark}

/-- A new name has name characters only. -/
theorem Mark.not_renamed_of_spelled (name : mark.renamed → IsName (f mark.stretch)) {c : Char}
    (hc : c ∈ mark.spelled f) (outside : isNameChar c = false) : mark.renamed = false := by
  by_contra renamed
  have renamed : mark.renamed = true := by simpa using renamed
  rw [Mark.spelled_of_renamed renamed] at hc
  rw [(name renamed).chars c hc] at outside
  cases outside

/-- In front of a colon stands what stood there before. -/
theorem declares_of_spelled (new : ∀ m ∈ behind, m.renamed → IsName (f m.stretch))
    (h : Declares (behind.map (Mark.spelled f))) : Declares (behind.map Mark.stretch) := by
  obtain ⟨separator, head, colon⟩ := h
  cases behind with
  | nil => cases head
  | cons m behind =>
    obtain rfl : m.spelled f = separator := by simpa using head
    -- a name neither is blank nor starts with a colon
    have left : m.renamed = false := by
      by_contra renamed
      have renamed : m.renamed = true := by simpa using renamed
      have starts := (new m List.mem_cons_self renamed).startsInName []
      rw [Mark.spelled_of_renamed renamed] at colon
      rw [List.append_nil, not_startsInName_of_colonFollows colon] at starts
      cases starts
    rw [Mark.spelled_of_not_renamed left] at colon
    exact ⟨m.stretch, rfl, colon⟩

/-- Behind `var(` stands what stood there before, and the run in front of the parenthesis is left
alone. -/
theorem uses_of_spelled (new : ∀ m ∈ front, m.renamed →
      IsName (f m.stretch) ∧ ¬"var".toList <:+ f m.stretch)
    (h : Uses (front.map (Mark.spelled f))) : Uses (front.map Mark.stretch) ∧ LeftAlone front := by
  obtain ⟨first, run, blanks, eq, var, blank⟩ := h
  obtain ⟨first, ends, rfl, -, eq⟩ := List.map_eq_append_iff.mp eq
  obtain ⟨word, ends, rfl, rfl, eq⟩ := List.map_eq_cons_iff.mp eq
  obtain ⟨paren, rfl, paren_eq⟩ := List.map_eq_singleton_iff.mp (List.cons.inj eq).2
  have paren_left : paren.renamed = false :=
    Mark.not_renamed_of_spelled (fun renamed => (new paren (by simp) renamed).1)
      (paren_eq ▸ List.mem_cons_self) (by decide)
  have word_left : word.renamed = false := by
    by_contra renamed
    have renamed : word.renamed = true := by simpa using renamed
    rw [Mark.spelled_of_renamed renamed] at var
    exact (new word (by simp) renamed).2 var
  rw [Mark.spelled_of_not_renamed paren_left] at paren_eq
  rw [Mark.spelled_of_not_renamed word_left] at var
  refine ⟨⟨first.map Mark.stretch, word.stretch, blanks, ?_, var, blank⟩,
    leftAlone_append_pair.mpr word_left⟩
  rw [List.map_append, List.map_cons, List.map_singleton, paren_eq]

/-- Where nothing is marked, the text stays. -/
theorem spelled_of_no_marks {marks : List Mark} (h : ∀ m ∈ marks, m.renamed = false) :
    spelled f marks = (marks.map Mark.stretch).flatten := by
  rw [spelled, List.flatMap_def]
  exact congrArg _ (List.map_congr_left fun m hm => Mark.spelled_of_not_renamed (h m hm))

end

section

variable {pairs : List (Text × Text)} {t : Text} {marks later : List Mark}

/-- **What the first pass has left, the second one leaves as well.** -/
theorem not_renamed_again (hp : ∀ pair ∈ pairs, IsPropertyName pair.1 ∧ IsPropertyName pair.2 ∧
      pair.2 ∉ pairs.map Prod.fst ∧ ¬"var".toList <:+ pair.2)
    (h : Marks (changed pairs) t marks)
    (cut : CutBy (propertyRule (changed pairs)) none (marks.flatMap Mark.atoms))
    (h' : Marks (changed pairs) (spelled (newName pairs) marks) later)
    (cut' : CutBy (propertyRule (changed pairs)) none (later.flatMap Mark.atoms))
    (stretches : later.map Mark.stretch = marks.map (Mark.spelled (newName pairs))) :
    ∀ mark ∈ later, mark.renamed = false := by
  have names := (renames_changed fun pair mem => ⟨(hp pair mem).1, (hp pair mem).2.1⟩).old
  have new : ∀ name ∈ changed pairs, (name, newName pairs name) ∈ pairs := by
    intro name mem
    obtain ⟨-, new, mem, -⟩ := mem_changed.mp mem
    exact newName_mem mem
  intro mark' mem
  by_contra renamed'
  have renamed' : mark'.renamed = true := by simpa using renamed'
  -- the stretch stands at the same place in both texts
  obtain ⟨front', behind', rfl⟩ := List.append_of_mem mem
  rw [List.map_append, List.map_cons] at stretches
  obtain ⟨front, rest, rfl, front_eq, stretches⟩ := List.map_eq_append_iff.mp stretches.symm
  obtain ⟨mark, behind, rfl, here, behind_eq⟩ := List.map_eq_cons_iff.mp stretches
  obtain ⟨old, context⟩ := (renamed_iff names h' cut').mp renamed'
  have given : ∀ m ∈ front ++ mark :: behind, m.renamed →
      (m.stretch, newName pairs m.stretch) ∈ pairs := fun m hm renamed =>
    new m.stretch (h.mem m hm renamed)
  cases renamed : mark.renamed with
  | true =>
    -- what has got a new name is no old one
    rw [← here, Mark.spelled_of_renamed renamed] at old
    obtain ⟨-, newer, again, -⟩ := mem_changed.mp old
    exact (hp _ (given mark (by simp) renamed)).2.2.1 (List.mem_map_of_mem again)
  | false =>
    rw [← here, Mark.spelled_of_not_renamed renamed] at old
    rw [← behind_eq, ← front_eq] at context
    have before : Declares (behind.map Mark.stretch) ∨
        Uses (front.map Mark.stretch) ∧ LeftAlone front := by
      rcases context with declares | ⟨uses, -⟩
      · refine .inl (declares_of_spelled (fun m hm renamed => ?_) declares)
        exact (hp _ (given m (by simp [hm]) renamed)).2.1.isName
      · refine .inr (uses_of_spelled (fun m hm renamed => ?_) uses)
        have pair := hp _ (given m (by simp [hm]) renamed)
        exact ⟨pair.2.1.isName, pair.2.2.2⟩
    rw [(renamed_iff names h cut).mpr ⟨old, before⟩] at renamed
    cases renamed

/-- **Renaming properties a second time changes nothing**, if no new name is an old one and no new
name ends in `var`. -/
theorem rename_rename (t : Text) (hp : ∀ pair ∈ pairs, IsPropertyName pair.1 ∧
      IsPropertyName pair.2 ∧ pair.2 ∉ pairs.map Prod.fst ∧ ¬"var".toList <:+ pair.2) :
    rename pairs (rename pairs t).1 = ((rename pairs t).1, 0) := by
  have properties : ∀ pair ∈ pairs, IsPropertyName pair.1 ∧ IsPropertyName pair.2 :=
    fun pair mem => ⟨(hp pair mem).1, (hp pair mem).2.1⟩
  have renames := renames_changed properties
  obtain ⟨marks, h, cut, text⟩ := exists_marks_changed t properties
  obtain ⟨later, h', cut', text'⟩ :=
    exists_marks_changed (spelled (newName pairs) marks) properties
  have stretches : later.map Mark.stretch = marks.map (Mark.spelled (newName pairs)) :=
    h'.stretches.trans (h.stretches_spelled (fun name mem => (renames.old name mem).isName)
      fun name mem => (renames.new name mem).isName)
  have left := not_renamed_again hp h cut h' cut' stretches
  have same : spelled (newName pairs) later = spelled (newName pairs) marks := by
    rw [spelled_of_no_marks left, stretches, spelled, List.flatMap_def]
  have none_marked : later.countP Mark.renamed = 0 :=
    List.countP_eq_zero.mpr fun mark mem => by simp [left mark mem]
  rw [text, text', same, none_marked]

/-- An old name that ends in `var`. -/
def varPair : List (Text × Text) :=
  [("--var".toList, "--v".toList)]

/-- What stands behind `--var(` is no use of it, neither before nor after the renaming. -/
theorem rename_rename_varPair :
    (∀ pair ∈ varPair, IsPropertyName pair.1 ∧ IsPropertyName pair.2 ∧
      pair.2 ∉ varPair.map Prod.fst ∧ ¬"var".toList <:+ pair.2) ∧
    rename varPair "--var:var(--var( --var))--var-b:".toList =
      ("--v:var(--v( --var))--var-b:".toList, 2) ∧
    rename varPair (rename varPair "--var:var(--var( --var))--var-b:".toList).1 =
      ((rename varPair "--var:var(--var( --var))--var-b:".toList).1, 0) := by
  have pairs : ∀ pair ∈ varPair, IsPropertyName pair.1 ∧ IsPropertyName pair.2 ∧
      pair.2 ∉ varPair.map Prod.fst ∧ ¬"var".toList <:+ pair.2 := by decide
  exact ⟨pairs, by decide +kernel, rename_rename _ pairs⟩

end

end StyleTokens.Rename
