import StyleTokens.Proofs.Prune.Lines
import StyleTokens.Proofs.Stylesheet.Sheet

/-!
# Deleting lines of a sheet

From a sheet, the deletion of a property takes exactly the lines that declare it. A header that
looks like a declaration stays, since its brace keeps it from being one.

## Main definitions

* `SheetRule.markedLines`: the lines of a rule, each with whether it declares a token

## Main results

* `Sheet.prune_text`: the text of a sheet without some properties
-/

namespace StyleTokens

open Prune

theorem CustomProperty.isToken (name : CustomProperty) : IsToken name.text where
  nonempty := name.text_ne_nil
  chars := by
    intro c hc
    have token := name.isTokenChar_of_mem hc
    exact forall_ascii (p := fun c => isTokenChar c → isNameChar c) (by decide)
      (isTokenChar_lt token) token

theorem isInert_ne {c : Char} (h : isInert c) :
    c ≠ ';' ∧ c ≠ '{' ∧ c ≠ '}' ∧ c ≠ '"' ∧ c ≠ '\x27' ∧ c ≠ '#' ∧ c ≠ '\n' := by
  simp only [isInert, Scanner.isPlain, List.contains_cons, Bool.and_eq_true, Bool.not_eq_true',
    Bool.or_eq_false_iff, beq_eq_false_iff_ne, decide_eq_true_eq] at h
  obtain ⟨⟨⟨double, single, -, -, left, right, semicolon, newline, -⟩, -⟩, hash⟩ := h
  exact ⟨semicolon, left, right, double, single, hash, newline⟩

theorem Prune.Value.of_isInert {v : Text} (h : ∀ c ∈ v, isInert c) : Value v := by
  induction v with
  | nil => exact .nil
  | cons c v ih =>
    rw [List.forall_mem_cons] at h
    obtain ⟨semicolon, left, right, double, single, hash, -⟩ := isInert_ne h.1
    exact .plain semicolon left right double single (fun eq => hash eq.1) (ih h.2)

/-- In front of a brace there is no value. -/
theorem Prune.valueLength?_brace {v : Text} (h : ∀ c ∈ v, isInert c) (rest : Text) :
    valueLength? (v ++ '{' :: rest) = none := by
  have both : toSemicolon .value (v ++ '{' :: rest) = none ∧
      toLineEnd .value (v ++ '{' :: rest) = none := by
    induction v with
    | nil => exact ⟨rfl, rfl⟩
    | cons c v ih =>
      rw [List.forall_mem_cons] at h
      obtain ⟨semicolon, left, right, double, single, hash, newline⟩ := isInert_ne h.1
      simp [toSemicolon, toLineEnd, semicolon, left, right, double, single, hash, newline, ih h.2]
  rw [valueLength?, both.1, both.2]
  rfl

theorem newline_notMem_of_isInert {t : Text} (h : ∀ c ∈ t, isInert c) : '\n' ∉ t :=
  fun newline => absurd (h _ newline) (by decide)

/-! ## The lines of a rule -/

theorem isIndent_of_mem_indent : ∀ c ∈ "  ".toList, isIndent c := by
  decide

theorem SheetDeclaration.inert_line (d : SheetDeclaration) : ∀ c ∈ ' ' :: d.value, isInert c :=
  List.forall_mem_cons.mpr ⟨by decide, d.inert⟩

/-- The declaration as a line that can be deleted. -/
def SheetDeclaration.declarationLine (d : SheetDeclaration) : DeclarationLine where
  indent := "  ".toList
  name := d.name.text
  value := ' ' :: d.value
  blank := isIndent_of_mem_indent
  isToken := d.name.isToken
  isValue := .of_isInert d.inert_line
  single := newline_notMem_of_isInert d.inert_line

theorem SheetDeclaration.text_declarationLine (d : SheetDeclaration) :
    d.declarationLine.text = d.line := by
  simp [DeclarationLine.text, declarationLine, line]

variable (token : CustomProperty)

/-- The header of a rule is never taken, even if it starts like a declaration. -/
theorem SheetRule.takesLine_header (rule : SheetRule) :
    (declarationRule token.text).TakesLine () (rule.selector ++ [' ', '{']) false where
  single := by simp [newline_notMem_of_isInert rule.inert]
  start before rest _ := by
    have head : ∀ c ∈ (rule.selector ++ [' ', '{'] ++ '\n' :: rest).head?, ¬isIndent c := by
      obtain ⟨c, selector, eq⟩ := List.exists_cons_of_ne_nil rule.nonempty
      rw [eq]
      rintro d ⟨⟩ indent
      refine (rule.start c (by rw [eq]; rfl)).2 ?_
      simp only [isIndent, Bool.or_eq_true, decide_eq_true_eq] at indent
      rcases indent with rfl | rfl <;> decide
    have none_found : declarationLength? token.text
        (rule.selector ++ [' ', '{'] ++ '\n' :: rest) = none := by
      rw [Option.eq_none_iff_forall_ne_some]
      intro n length
      obtain ⟨blanks, v, k, eq, blank, value, -⟩ := declarationLength?_eq_some_iff.mp length
      have noBrace : '{' ∉ token.text ++ (blanks ++ [':']) := by
        simp only [List.mem_append, List.mem_singleton, Char.reduceEq, or_false, not_or]
        exact ⟨fun h => absurd (token.isTokenChar_of_mem h) (by decide),
          fun h => absurd (blank _ h) (by decide)⟩
      -- the colon stands in front of the brace, so the value runs into the brace
      obtain ⟨more, front, rfl⟩ : ∃ more, rule.selector ++ [' '] =
          token.text ++ (blanks ++ [':']) ++ more ∧ v = more ++ '{' :: '\n' :: rest :=
        exists_append_of_notMem noBrace (by simpa using eq)
      have inert : ∀ c ∈ more, isInert c := by
        intro c hc
        have mem : c ∈ rule.selector ++ [' '] := front ▸ List.mem_append_right _ hc
        rcases List.mem_append.mp mem with mem | mem
        · exact rule.inert c mem
        · rw [List.mem_singleton.mp mem]
          decide
      rw [valueLength?_brace inert] at value
      cases value
    rw [← List.nil_append (rule.selector ++ _ ++ _),
      declarationRule_append token.isToken (by simp) head, none_found]
    simp

theorem takesLine_closing : (declarationRule token.text).TakesLine () ['}'] false := by
  refine takesLine_of_not_looksLike token.isToken (by decide) ?_
  rw [looksLike, CustomProperty.text]
  exact Bool.false_ne_true

/-- The lines of a rule, each with whether it declares a token. -/
def SheetRule.markedLines (rule : SheetRule) (token : Text) : List (Text × Bool) :=
  (rule.selector ++ [' ', '{'], false) ::
    rule.declarations.map (fun d => (d.line, decide (d.name.text = token))) ++ [(['}'], false)]

namespace SheetRule

variable (rule : SheetRule)

theorem map_fst_markedLines (token : Text) :
    (rule.markedLines token).map Prod.fst = rule.lines := by
  simp [markedLines, lines]

theorem map_fst_filter_markedLines (token : Text) :
    ((rule.markedLines token).filter fun l => !l.2).map Prod.fst =
      (rule.without [token]).lines := by
  simp [markedLines, lines, without, List.filter_map, Function.comp_def]

theorem takesLine_of_mem_markedLines {l : Text × Bool} (mem : l ∈ rule.markedLines token.text) :
    (declarationRule token.text).TakesLine () l.1 l.2 := by
  simp only [markedLines, List.cons_append, List.mem_cons, List.mem_append, List.mem_map,
    List.not_mem_nil, or_false] at mem
  rcases mem with rfl | ⟨d, -, rfl⟩ | rfl
  · exact rule.takesLine_header token
  · have taken := d.declarationLine.takesLine token.isToken
    rwa [d.text_declarationLine] at taken
  · exact takesLine_closing token

end SheetRule

/-! ## Whole sheets -/

namespace Sheet

/-- Without a property, a sheet has lost the lines that declare it. -/
theorem without_text (sheet : Sheet) :
    Prune.without token.text sheet.text = (sheet.without [token.text]).text := by
  have each : ∀ l ∈ sheet.flatMap (SheetRule.markedLines · token.text),
      (declarationRule token.text).TakesLine () l.1 l.2 := by
    intro l mem
    obtain ⟨rule, -, mem⟩ := List.mem_flatMap.mp mem
    exact rule.takesLine_of_mem_markedLines token mem
  have deleted := Rule.replaced_unlines (atLineStart_declarationRule token.text) each
  simpa [Prune.without, text, without, List.map_flatMap, List.filter_flatMap, List.flatMap_map,
    SheetRule.map_fst_markedLines, SheetRule.map_fst_filter_markedLines] using deleted

/-- **Without some properties**, a sheet has lost the lines that declare one of them. -/
theorem prune_text {tokens : List Text} (h : ∀ t ∈ tokens, ∃ name : CustomProperty, name.text = t)
    (sheet : Sheet) : (prune tokens sheet.text).1 = (sheet.without tokens).text := by
  induction tokens generalizing sheet with
  | nil => rw [prune, without_nil]
  | cons token tokens ih =>
    rw [List.forall_mem_cons] at h
    obtain ⟨⟨name, rfl⟩, h⟩ := h
    rw [prune, without_text name sheet, ih h, without_without, List.singleton_append]

end Sheet

end StyleTokens
