import StyleTokens.Proofs.Rename.Passes

/-!
# Which runs are properties to be renamed

The rule for properties looks at characters, one place after another, and does not look again at
what it has taken. What it marks can be read off the runs and separators alone: a run with one of
the names is marked if the separator behind it starts with a colon behind blanks, or if the
separator in front of it is an opening parenthesis with blanks and the run in front of that ends in
`var` and is left alone. One half says that nothing else is marked, the other that no such run is
passed over.

## Main definitions

* `Rename.Declares`, `Rename.Uses`: the stretches behind a declared property, and those in front of
  one that is used

## Main results

* `Rename.CutBy.context`: a name is cut out where it is declared or used
* `Rename.CutBy.not_passed`: a name that is used is not passed over
* `Rename.renamed_iff`: which runs are marked
* `Rename.exists_marks_properties`: what renaming properties does to a text
-/

namespace StyleTokens.Rename

/-- What stands around a list without `a` and what stands around `a` fall apart in one of two
orders. -/
theorem append_eq_append_cons {α : Type} {a : α} {xs left right left' right' : List α}
    (eq : left ++ (xs ++ right) = left' ++ a :: right') (other : a ∉ xs) :
    (∃ between, left = left' ++ a :: between ∧ right' = between ++ (xs ++ right)) ∨
      ∃ between, left' = left ++ (xs ++ between) ∧ right = between ++ a :: right' := by
  rcases List.append_eq_append_iff.mp eq with ⟨front, rfl, inside⟩ | ⟨front, rfl, behind⟩
  · rcases List.append_eq_append_iff.mp inside with ⟨between, rfl, rest⟩ | ⟨between, rfl, rest⟩
    · exact .inr ⟨between, rfl, rest⟩
    · cases between with
      | nil => exact .inr ⟨[], by simp, rest.symm⟩
      | cons b between =>
        obtain rfl : a = b := (List.cons.inj rest).1
        exact absurd (by simp) other
  · cases front with
    | nil =>
      cases xs with
      | nil => exact .inr ⟨[], by simp, behind.symm⟩
      | cons b xs =>
        obtain rfl : a = b := (List.cons.inj behind).1
        exact absurd List.mem_cons_self other
    | cons b front =>
      obtain ⟨rfl, rest⟩ := List.cons.inj behind
      exact .inl ⟨front, rfl, rest⟩

theorem name_not_mem_map_plain (old t : Text) : .name old ∉ t.map Atom.plain := by
  simp

/-! ## What is cut out -/

section

variable {names : List Text} {before : Option Char} {A A₀ A₁ : List Atom} {old blanks name t : Text}

theorem Lead.eq_nil_or {lead : Text} (h : Lead before lead) :
    lead = [] ∨ ∃ blanks, (∀ c ∈ blanks, isBlank c) ∧ lead = "var(".toList ++ blanks := by
  cases h with
  | fresh => exact .inl rfl
  | used blank => exact .inr ⟨_, blank, rfl⟩

/-- **A name is cut out where it is declared or used.** -/
theorem CutBy.context (h : CutBy (propertyRule names) before (A₀ ++ .name old :: A₁)) :
    colonFollows (written id A₁) ∨ ∃ A' blanks, (∀ c ∈ blanks, isBlank c) ∧
      A₀ = A' ++ ("var(".toList ++ blanks).map .plain := by
  generalize eq : A₀ ++ .name old :: A₁ = A at h
  induction h generalizing A₀ with
  | nil => simp at eq
  | @plain _ c A _ _ ih =>
    cases A₀ with
    | nil => cases eq
    | cons a A₀ =>
      cases eq
      obtain colon | ⟨A', blanks, blank, rfl⟩ := ih rfl
      · exact .inl colon
      · exact .inr ⟨.plain c :: A', blanks, blank, rfl⟩
  | @hit _ o A found _ ih =>
    obtain ⟨-, lead, -, colon⟩ := of_propertyRule_eq_hit found
    -- the name is that of this hit or of a later one, as the lead has none
    have split : [] ++ (o.lead.map .plain ++ .name o.old :: A) = A₀ ++ .name old :: A₁ := eq.symm
    obtain ⟨_, eq', -⟩ | ⟨between, rfl, rest⟩ :=
      append_eq_append_cons split (name_not_mem_map_plain old o.lead)
    · simp at eq'
    cases between with
    | nil =>
      cases rest
      rcases lead.eq_nil_or with empty | ⟨blanks, blank, var⟩
      · exact .inl (colon empty)
      · exact .inr ⟨[], blanks, blank, by simp [var]⟩
    | cons b between =>
      cases rest
      obtain colon | ⟨A', blanks, blank, rfl⟩ := ih rfl
      · exact .inl colon
      · refine .inr ⟨o.lead.map .plain ++ .name o.old :: A', blanks, blank, ?_⟩
        simp

/-- The rule takes a name that is used. -/
theorem propertyRule_ne_none (hn : ∀ name ∈ names, IsPropertyName name) (mem : name ∈ names)
    (blank : ∀ c ∈ blanks, isBlank c) (ends : Text.startsInName t = false) :
    propertyRule names before ("var(".toList ++ (blanks ++ (name ++ t))) ≠ none := by
  have first : (nameAt? names endsName (name ++ t)).isSome := by
    rw [nameAt?, List.find?_isSome]
    exact ⟨name, mem, by simp [endsName, ends]⟩
  obtain ⟨old, found⟩ := Option.isSome_iff_exists.mp first
  have behind : (blanks ++ (name ++ t)).dropWhile isBlank = name ++ t := by
    obtain ⟨tail, rfl⟩ := (hn name mem).exists_eq
    rw [List.dropWhile_append_of_pos blank]
    exact List.dropWhile_cons_of_neg (by decide)
  simp [propertyRule, usedProperty?, behind, found]

/-- **A name that is used is not passed over.** -/
theorem CutBy.not_passed (hn : ∀ name ∈ names, IsPropertyName name) (mem : name ∈ names)
    (blank : ∀ c ∈ blanks, isBlank c) (ends : Text.startsInName (written id A₁) = false) :
    ¬CutBy (propertyRule names) before
      (A₀ ++ (("var(".toList ++ (blanks ++ name)).map .plain ++ A₁)) := by
  intro h
  generalize eq : A₀ ++ (("var(".toList ++ (blanks ++ name)).map .plain ++ A₁) = A at h
  induction h generalizing A₀ with
  | nil => simp at eq
  | @plain before c A none_here _ ih =>
    cases A₀ with
    | nil =>
      -- the letters of `var` start here, where the rule takes nothing
      have text := congrArg (written id) eq
      rw [List.nil_append, written_append, written_map_plain, written_plain, List.append_assoc,
        List.append_assoc] at text
      rw [← text] at none_here
      exact propertyRule_ne_none hn mem blank ends none_here
    | cons a A₀ =>
      cases eq
      exact ih rfl
  | @hit _ o A found _ ih =>
    obtain ⟨-, lead, -⟩ := of_propertyRule_eq_hit found
    -- all of the use stands behind the name of this hit, or all of it in the lead
    rcases append_eq_append_cons eq (name_not_mem_map_plain o.old _) with
      ⟨between, rfl, rest⟩ | ⟨between, inside, -⟩
    · exact ih rest.symm
    · -- a lead has no hyphen
      obtain ⟨tail, rfl⟩ := (hn name mem).exists_eq
      have hyphen : .plain '-' ∈ o.lead.map Atom.plain := by simp [inside]
      exact lead.no_hyphen (by simpa using hyphen)

end

/-! ## Runs and separators -/

/-- The stretches behind a property that is declared: a colon follows, behind blanks. -/
def Declares (behind : List Text) : Prop :=
  ∃ separator ∈ behind.head?, colonFollows separator

/-- The stretches in front of a property that is used: a run that ends in `var`, and an opening
parenthesis with blanks. -/
def Uses (front : List Text) : Prop :=
  ∃ first run blanks, front = first ++ [run, '(' :: blanks] ∧ "var".toList <:+ run ∧
    ∀ c ∈ blanks, isBlank c

section

variable {names parts : List Text} {t s : Text} {front behind : List Mark} {mark : Mark}

/-- Behind a run, blanks and a colon stand in one separator. -/
theorem colonFollows_flatten_iff (cut : IsCut isNameChar (s :: parts))
    (run : ∃ c ∈ s, isNameChar c) : colonFollows parts.flatten ↔ Declares parts := by
  cases parts with
  | nil => simp [Declares, colonFollows]
  | cons separator parts =>
    obtain ⟨c, hc, inName⟩ := run
    obtain ⟨d, hd⟩ := List.exists_mem_of_ne_nil _ (cut.part separator (by simp)).1
    have outside : isNameChar d = false := by
      have differ := (List.isChain_cons_cons.mp cut.apart).1 c hc d hd
      rw [inName] at differ
      simpa using differ.symm
    have next : ∀ e ∈ parts.flatten.head?, isNameChar e := fun e he => by
      have differ := cut.tail.ne_head hd he
      rw [outside] at differ
      simpa using differ.symm
    simp only [Declares, List.head?_cons, Option.mem_def, Option.some.injEq, exists_eq_left',
      colonFollows, List.flatten_cons, List.dropWhile_append]
    split_ifs with blank
    · -- behind blanks alone stands the next run, which is no colon
      rw [List.isEmpty_iff.mp blank]
      cases rest : parts.flatten with
      | nil => simp
      | cons e rest =>
        have inName' : isNameChar e := next e (by simp [rest])
        have other : e ≠ ':' := by
          rintro rfl
          exact absurd inName' (by decide)
        rw [List.dropWhile_cons_of_neg (not_isBlank_of_isNameChar inName')]
        simp [other]
    · rw [List.head?_append_of_ne_nil _ (by simpa using blank)]

theorem isNameChar_of_mem_openParen {blanks : Text} (blank : ∀ c ∈ blanks, isBlank c) :
    ∀ c ∈ '(' :: blanks, isNameChar c = false := by
  rw [List.forall_mem_cons]
  exact ⟨by decide, fun c hc => by simpa using not_isNameChar_of_isBlank (blank c hc)⟩

/-- In front of a run, `var(` and blanks are the end of a run and a separator. -/
theorem eq_of_flatten_var (cut : IsCut isNameChar (parts ++ [s])) (run : ∃ c ∈ s, isNameChar c)
    {u blanks : Text} (blank : ∀ c ∈ blanks, isBlank c)
    (text : parts.flatten = u ++ ("var".toList ++ '(' :: blanks)) :
    ∃ first word, parts = first ++ [word, '(' :: blanks] ∧ "var".toList <:+ word := by
  rw [← List.append_assoc] at text
  rcases List.eq_nil_or_concat' parts with rfl | ⟨parts, separator, rfl⟩
  · simp at text
  -- the last part is a separator, so the parenthesis and the blanks are in it
  have outside : ∀ c ∈ separator, isNameChar c = false := by
    obtain ⟨d, hd, inName⟩ := run
    intro c hc
    rw [List.append_assoc, List.singleton_append] at cut
    have differ := (List.isChain_append_cons_cons.mp cut.apart).2.1 c hc d hd
    rw [inName] at differ
    simpa using differ
  have ne : separator ≠ [] := (cut.part separator (by simp)).1
  rw [List.flatten_append, List.flatten_singleton] at text
  obtain ⟨more, rfl⟩ := cut.left.suffix_last text ne (isNameChar_of_mem_openParen blank)
  rw [← List.append_assoc, List.append_cancel_right_eq] at text
  -- the separator has no letter of `var`
  obtain rfl : more = [] := by
    rcases List.eq_nil_or_concat' more with rfl | ⟨more, c, rfl⟩
    · rfl
    · have var : u ++ "var".toList = u ++ ['v', 'a'] ++ ['r'] := by
        rw [List.append_assoc]
        rfl
      rw [var, ← List.append_assoc] at text
      obtain rfl : c = 'r' := List.singleton_inj.mp (List.append_inj' text rfl).2
      exact absurd (outside 'r' (by simp)) (by decide)
  rw [List.append_nil] at text
  -- the part in front of it is a run and has all of `var`
  rcases List.eq_nil_or_concat' parts with rfl | ⟨first, word, rfl⟩
  · simp at text
  rw [List.flatten_append, List.flatten_singleton] at text
  have ne' : word ≠ [] := (cut.part word (by simp)).1
  have suffix := cut.left.left.suffix_last text ne' (k := true) (by decide)
  exact ⟨first, word, by simp, suffix⟩

/-- The run in front of a use is left alone. -/
def LeftAlone (front : List Mark) : Prop :=
  ∀ run ∈ front.dropLast.getLast?, run.renamed = false

/-- The last two stretches are those of the last two marks. -/
theorem eq_append_pair {first : List Text} {word paren : Text}
    (eq : front.map Mark.stretch = first ++ [word, paren]) : ∃ first word' paren',
      front = first ++ [word', paren'] ∧ word'.stretch = word ∧ paren'.stretch = paren := by
  obtain ⟨first, ends, rfl, -, ends_eq⟩ := List.map_eq_append_iff.mp eq
  obtain ⟨word', ends, rfl, word_eq, paren_eq⟩ := List.map_eq_cons_iff.mp ends_eq
  obtain ⟨paren', rfl, rfl⟩ := List.map_eq_singleton_iff.mp paren_eq
  exact ⟨first, word', paren', rfl, word_eq, rfl⟩

theorem leftAlone_append_pair {first : List Mark} {word paren : Mark} :
    LeftAlone (first ++ [word, paren]) ↔ word.renamed = false := by
  simp [LeftAlone, List.dropLast_append_of_ne_nil]

theorem Marks.isCut (h : Marks names t (front ++ mark :: behind)) :
    IsCut isNameChar (front.map Mark.stretch ++ mark.stretch :: behind.map Mark.stretch) := by
  rw [← List.map_cons, ← List.map_append, h.stretches]
  exact Text.isCut_stretches t

/-- A separator gets no new name. -/
theorem Marks.not_renamed (hn : ∀ name ∈ names, IsPropertyName name) {marks : List Mark}
    (h : Marks names t marks) (mem : mark ∈ marks) {c : Char} (hc : c ∈ mark.stretch)
    (outside : isNameChar c = false) : mark.renamed = false := by
  by_contra renamed
  have name := hn _ (h.mem mark mem (by simpa using renamed))
  rw [name.chars c hc] at outside
  cases outside

/-- What is marked is declared or used. -/
theorem declares_or_uses (hn : ∀ name ∈ names, IsPropertyName name)
    (h : Marks names t (front ++ mark :: behind))
    (cut : CutBy (propertyRule names) none ((front ++ mark :: behind).flatMap Mark.atoms))
    (renamed : mark.renamed) : Declares (behind.map Mark.stretch) ∨
      Uses (front.map Mark.stretch) ∧ LeftAlone front := by
  have name := hn _ (h.mem mark (by simp) renamed)
  have run : ∃ c ∈ mark.stretch, isNameChar c := by
    obtain ⟨c, hc⟩ := List.exists_mem_of_ne_nil _ name.ne_nil
    exact ⟨c, hc, name.chars c hc⟩
  rw [List.flatMap_append, List.flatMap_cons, Mark.atoms_of_renamed renamed, List.singleton_append]
    at cut
  rcases cut.context with colon | ⟨A, blanks, blank, atoms⟩
  · left
    rw [written_id_flatMap_atoms] at colon
    exact (colonFollows_flatten_iff h.isCut.right run).mp colon
  · right
    have text : (front.map Mark.stretch).flatten =
        written id A ++ ("var".toList ++ '(' :: blanks) := by
      rw [← written_id_flatMap_atoms, atoms, written_append, written_map_plain]
      rfl
    obtain ⟨first, word, eq, suffix⟩ :=
      eq_of_flatten_var (List.append_cons .. ▸ h.isCut).left run blank text
    refine ⟨⟨first, word, blanks, eq, suffix, blank⟩, ?_⟩
    obtain ⟨first, word, paren, rfl, -, paren_eq⟩ := eq_append_pair eq
    have left : paren.renamed = false :=
      h.not_renamed hn (by simp) (paren_eq ▸ List.mem_cons_self) (by decide)
    rw [leftAlone_append_pair]
    by_contra renamed
    -- the atoms in front of the parenthesis end in the letters of `var`
    have var : A ++ ("var(".toList ++ blanks).map Atom.plain =
        A ++ ['v', 'a'].map Atom.plain ++ [.plain 'r'] ++ ('(' :: blanks).map .plain := by simp
    rw [List.flatMap_append, List.flatMap_cons, List.flatMap_cons, List.flatMap_nil,
      Mark.atoms_of_not_renamed left, paren_eq, List.append_nil, var, ← List.append_assoc,
      List.append_cancel_right_eq, Mark.atoms_of_renamed (by simpa using renamed)] at atoms
    cases (List.append_inj' atoms rfl).2

/-- What is declared or used is marked. -/
theorem renamed_of_declares_or_uses (hn : ∀ name ∈ names, IsPropertyName name)
    (h : Marks names t (front ++ mark :: behind))
    (cut : CutBy (propertyRule names) none ((front ++ mark :: behind).flatMap Mark.atoms))
    (mem : mark.stretch ∈ names) (context : Declares (behind.map Mark.stretch) ∨
      Uses (front.map Mark.stretch) ∧ LeftAlone front) : mark.renamed := by
  by_contra left
  obtain ⟨tail, text⟩ := (hn _ mem).exists_eq
  have hyphen : '-' ∈ mark.stretch := by simp [text]
  have inName : isNameChar '-' = true := rfl
  rw [List.flatMap_append, List.flatMap_cons, Mark.atoms_of_not_renamed (by simpa using left)]
    at cut
  rcases context with declares | ⟨⟨first, word, blanks, eq, ⟨u, suffix⟩, blank⟩, alone⟩
  · -- where the run starts, a name is declared
    have colon := (colonFollows_flatten_iff h.isCut.right ⟨'-', hyphen, rfl⟩).mpr declares
    have outside : (front.map Mark.stretch).flatten.getLast?.any isNameChar = false := by
      cases last : (front.map Mark.stretch).flatten.getLast? with
      | none => rfl
      | some c => simpa [inName] using h.isCut.ne_getLast hyphen last
    have here := (cut.cut hn).right hn
    rw [written_id_flatMap_atoms, text, List.map_cons, List.cons_append] at here
    cases here with
    | plain none_here =>
      refine none_here ⟨by simpa using outside, mark.stretch, mem, _, ?_, colon⟩
      rw [text, written_append, written_map_plain, written_id_flatMap_atoms]
      rfl
  · -- the letters of `var` and the parenthesis are left alone, so the rule has not jumped over them
    obtain ⟨first, word, paren, rfl, rfl, paren_eq⟩ := eq_append_pair eq
    have paren_left : paren.renamed = false :=
      h.not_renamed hn (by simp) (paren_eq ▸ List.mem_cons_self) (by decide)
    have word_left : word.renamed = false := leftAlone_append_pair.mp alone
    have ends : Text.startsInName (written id (behind.flatMap Mark.atoms)) = false := by
      rw [written_id_flatMap_atoms, Text.startsInName]
      cases next : (behind.map Mark.stretch).flatten.head? with
      | none => rfl
      | some c => simpa [inName] using h.isCut.right.ne_head hyphen next
    have split : (first ++ [word, paren]).flatMap Mark.atoms ++
        (mark.stretch.map .plain ++ behind.flatMap Mark.atoms) =
        (first.flatMap Mark.atoms ++ u.map .plain) ++
          (("var(".toList ++ (blanks ++ mark.stretch)).map .plain ++
            behind.flatMap Mark.atoms) := by
      simp [Mark.atoms_of_not_renamed word_left, Mark.atoms_of_not_renamed paren_left, paren_eq,
        ← suffix]
    exact CutBy.not_passed hn mem blank ends (split ▸ cut)

/-- **A run is marked** if it is one of the names and is declared or used. -/
theorem renamed_iff (hn : ∀ name ∈ names, IsPropertyName name)
    (h : Marks names t (front ++ mark :: behind))
    (cut : CutBy (propertyRule names) none ((front ++ mark :: behind).flatMap Mark.atoms)) :
    mark.renamed ↔ mark.stretch ∈ names ∧ (Declares (behind.map Mark.stretch) ∨
      Uses (front.map Mark.stretch) ∧ LeftAlone front) := by
  constructor
  · intro renamed
    exact ⟨h.mem mark (by simp) renamed, declares_or_uses hn h cut renamed⟩
  · rintro ⟨mem, context⟩
    exact renamed_of_declares_or_uses hn h cut mem context

/-- If no name ends in `var`, the run in front of a use is left alone. -/
theorem leftAlone_of_uses (h : Marks names t (front ++ mark :: behind))
    (var : ∀ name ∈ names, ¬"var".toList <:+ name) (uses : Uses (front.map Mark.stretch)) :
    LeftAlone front := by
  obtain ⟨first, word, blanks, eq, suffix, -⟩ := uses
  obtain ⟨first, word, paren, rfl, rfl, -⟩ := eq_append_pair eq
  rw [leftAlone_append_pair]
  by_contra renamed
  exact var _ (h.mem word (by simp) (by simpa using renamed)) suffix

end

/-! ## Renamed properties -/

section

variable {pairs : List (Text × Text)}

/-- Renaming properties marks stretches as the rule cuts them out. -/
theorem exists_marks_changed (t : Text)
    (hp : ∀ pair ∈ pairs, IsPropertyName pair.1 ∧ IsPropertyName pair.2) :
    ∃ marks, Marks (changed pairs) t marks ∧
      CutBy (propertyRule (changed pairs)) none (marks.flatMap Mark.atoms) ∧
      rename pairs t = (spelled (newName pairs) marks, marks.countP Mark.renamed) := by
  have names := (renames_changed hp).old
  obtain ⟨marks, h, same⟩ := exists_marks_atomsBy (fun name mem => (names name mem).isName)
    (takesWhole_propertyRule _) t
  obtain ⟨-, cut⟩ := cutBy_atomsBy (fun name mem => (names name mem).ne_nil)
    (takesWhole_propertyRule (changed pairs)) none t
  refine ⟨marks, h, same ▸ cut, Prod.ext ?_ ?_⟩
  · rw [rename_eq hp, atoms, ← same, written_flatMap_atoms]
  · rw [rename_snd_eq hp]
    exact hitCount_eq_countP same

/-- **What renaming properties does to a text**: all stretches stay, except for the runs with an old
name that are declared or used, which get the new name. The number of changes is the number of these
runs. -/
theorem exists_marks_properties (t : Text)
    (hp : ∀ pair ∈ pairs, IsPropertyName pair.1 ∧ IsPropertyName pair.2 ∧ pair.1 ≠ pair.2 ∧
      ¬"var".toList <:+ pair.1) :
    ∃ marks : List Mark, marks.map Mark.stretch = t.stretches ∧
      (∀ front mark behind, marks = front ++ mark :: behind → (mark.renamed ↔
        mark.stretch ∈ pairs.map Prod.fst ∧
          (Declares (behind.map Mark.stretch) ∨ Uses (front.map Mark.stretch)))) ∧
      rename pairs t = (spelled (newName pairs) marks, marks.countP Mark.renamed) := by
  have properties : ∀ pair ∈ pairs, IsPropertyName pair.1 ∧ IsPropertyName pair.2 :=
    fun pair mem => ⟨(hp pair mem).1, (hp pair mem).2.1⟩
  have names := (renames_changed properties).old
  -- each pair changes its name
  have keys : ∀ name, name ∈ changed pairs ↔ name ∈ pairs.map Prod.fst := by
    intro name
    rw [mem_changed, List.mem_map]
    constructor
    · rintro ⟨-, new, mem, -⟩
      exact ⟨_, mem, rfl⟩
    · rintro ⟨⟨old, new⟩, mem, rfl⟩
      obtain ⟨property, property', ne, -⟩ := hp _ mem
      exact ⟨List.isPrefixOf_iff_prefix.mpr property.sigil, new, mem,
        changes_of_ne property.ne_nil property'.ne_nil ne⟩
  have var : ∀ name ∈ changed pairs, ¬"var".toList <:+ name := by
    intro name mem
    obtain ⟨pair, here, rfl⟩ := List.mem_map.mp ((keys name).mp mem)
    exact (hp pair here).2.2.2
  obtain ⟨marks, h, cut, text⟩ := exists_marks_changed t properties
  refine ⟨marks, h.stretches, ?_, text⟩
  rintro front mark behind rfl
  rw [renamed_iff names h cut, keys]
  refine and_congr_right fun _ => or_congr_right ?_
  exact and_iff_left_of_imp (leftAlone_of_uses h var)

/-- A declaration, two uses, and two runs that are neither. -/
theorem exists_marks_properties_onePair :
    (∀ pair ∈ onePair, IsPropertyName pair.1 ∧ IsPropertyName pair.2 ∧ pair.1 ≠ pair.2 ∧
      ¬"var".toList <:+ pair.1) ∧
    (∃ marks : List Mark,
      marks.map Mark.stretch = Text.stretches "--a :var(--a)x-var( --a)(--a) --a-b:".toList ∧
      (∀ front mark behind, marks = front ++ mark :: behind → (mark.renamed ↔
        mark.stretch ∈ onePair.map Prod.fst ∧
          (Declares (behind.map Mark.stretch) ∨ Uses (front.map Mark.stretch)))) ∧
      rename onePair "--a :var(--a)x-var( --a)(--a) --a-b:".toList =
        (spelled (newName onePair) marks, marks.countP Mark.renamed)) ∧
    rename onePair "--a :var(--a)x-var( --a)(--a) --a-b:".toList =
      ("--b :var(--b)x-var( --b)(--a) --a-b:".toList, 3) := by
  have pairs : ∀ pair ∈ onePair, IsPropertyName pair.1 ∧ IsPropertyName pair.2 ∧
      pair.1 ≠ pair.2 ∧ ¬"var".toList <:+ pair.1 := by decide
  exact ⟨pairs, exists_marks_properties _ pairs, by decide +kernel⟩

end

end StyleTokens.Rename
