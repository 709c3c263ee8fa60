import StyleTokens.Inventory
import StyleTokens.Proofs.Stylesheet.Run
import StyleTokens.Proofs.Text.Lines

/-!
# Stylesheets with one declaration a line

A sheet is a sequence of rules. The header of a rule, each of its declarations and its closing
brace have a line of their own, and every declaration is one of a custom property. The inventory
of a sheet lists the properties that its lines declare.

## Main definitions

* `CustomProperty`, `SheetDeclaration`, `SheetRule`, `Sheet`: what a sheet is made of
* `Sheet.text`, `Sheet.names`: the text of a sheet, and the names that it declares

## Main results

* `Sheet.scan_text`: the declarations of a sheet are read from its text
* `Sheet.extract_text`: the inventory of a sheet
-/

namespace StyleTokens

/-- The characters of a custom property behind its hyphens: Latin letters, digits, hyphens and
underscores. -/
def isTokenChar (c : Char) : Bool :=
  c.isAlphanum || c = '-' || c = '_'

/-- The characters that never open, close or end anything in a stylesheet. -/
def isInert (c : Char) : Bool :=
  Scanner.isPlain c && c ≠ '/' && c ≠ '#'

/-- The name of a custom property. -/
structure CustomProperty where
  /-- What stands behind the two hyphens. -/
  body : Text
  nonempty : body ≠ []
  chars : ∀ c ∈ body, isTokenChar c

/-- The name with its two hyphens. -/
def CustomProperty.text (name : CustomProperty) : Text :=
  '-' :: '-' :: name.body

/-- The declaration of a custom property on a line of its own. -/
structure SheetDeclaration where
  name : CustomProperty
  value : Text
  nonempty : value ≠ []
  /-- The value stays on its line and does not end before the semicolon. -/
  inert : ∀ c ∈ value, isInert c

/-- A rule with declarations of custom properties. -/
structure SheetRule where
  selector : Text
  nonempty : selector ≠ []
  inert : ∀ c ∈ selector, isInert c
  /-- The header is not taken for an at-rule, and is not indented. -/
  start : ∀ c ∈ selector.head?, c ≠ '@' ∧ ¬isBlank c
  declarations : List SheetDeclaration

/-- A stylesheet with one declaration a line. -/
abbrev Sheet := List SheetRule

/-- The line of a declaration. -/
def SheetDeclaration.line (d : SheetDeclaration) : Text :=
  "  ".toList ++ (d.name.text ++ ": ".toList ++ d.value ++ [';'])

/-- The lines of a rule. -/
def SheetRule.lines (rule : SheetRule) : List Text :=
  (rule.selector ++ [' ', '{']) :: rule.declarations.map SheetDeclaration.line ++ [['}']]

/-- The rule without the declarations of some properties. -/
def SheetRule.without (tokens : List Text) (rule : SheetRule) : SheetRule :=
  { rule with declarations := rule.declarations.filter fun d => !tokens.contains d.name.text }

namespace Sheet

/-- The text of a sheet. -/
def text (sheet : Sheet) : Text :=
  Text.unlines (sheet.flatMap SheetRule.lines)

/-- The names that a sheet declares, in the order of their lines. -/
def names (sheet : Sheet) : List Text :=
  sheet.flatMap fun rule => rule.declarations.map fun d => d.name.text

/-- The sheet without the declarations of some properties. -/
def without (tokens : List Text) (sheet : Sheet) : Sheet :=
  sheet.map (SheetRule.without tokens)

@[simp]
theorem without_nil (sheet : Sheet) : sheet.without [] = sheet := by
  have same : SheetRule.without [] = id := by
    funext rule
    simp [SheetRule.without]
  rw [without, same, List.map_id]

theorem without_without (tokens more : List Text) (sheet : Sheet) :
    (sheet.without tokens).without more = sheet.without (tokens ++ more) := by
  have both : SheetRule.without more ∘ SheetRule.without tokens =
      SheetRule.without (tokens ++ more) := by
    funext rule
    simp [SheetRule.without, List.filter_filter, Bool.and_comm]
  rw [without, without, without, List.map_map, both]

theorem names_without (tokens : List Text) (sheet : Sheet) :
    (sheet.without tokens).names = sheet.names.filter (!tokens.contains ·) := by
  induction sheet with
  | nil => rfl
  | cons rule sheet ih =>
    have rest : names (List.map (SheetRule.without tokens) sheet) = _ := ih
    simp only [names, without, List.map_cons, List.flatMap_cons, List.filter_append] at rest ⊢
    rw [rest, SheetRule.without, List.filter_map]
    rfl

end Sheet

/-! ## The characters of a sheet -/

theorem isTokenChar_lt {c : Char} (h : isTokenChar c) : c.toNat < 128 := by
  unfold isTokenChar Char.isAlphanum Char.isAlpha Char.isUpper Char.isLower Char.isDigit at h
  simp only [Bool.or_eq_true, Bool.and_eq_true, decide_eq_true_eq] at h
  rcases h with ((((⟨_, h⟩ | ⟨_, h⟩) | ⟨_, h⟩)) | rfl) | rfl
  · exact Nat.lt_of_le_of_lt (UInt32.le_iff_toNat_le.mp h) (by decide)
  · exact Nat.lt_of_le_of_lt (UInt32.le_iff_toNat_le.mp h) (by decide)
  · exact Nat.lt_of_le_of_lt (UInt32.le_iff_toNat_le.mp h) (by decide)
  · decide
  · decide

/-- A name holds nothing that means anything to the scanner, to a report or to a line. -/
theorem of_isTokenChar {c : Char} (h : isTokenChar c) :
    isInert c ∧ ¬isBlank c ∧ ¬isIndent c ∧ c ≠ ':' ∧ c ≠ ',' ∧ c ≠ '@' :=
  forall_ascii (p := fun c => isTokenChar c →
    isInert c ∧ ¬isBlank c ∧ ¬isIndent c ∧ c ≠ ':' ∧ c ≠ ',' ∧ c ≠ '@') (by decide)
    (isTokenChar_lt h) h

theorem of_isInert {c : Char} (h : isInert c) :
    Scanner.isPlain c ∧ c ≠ '/' ∧ c ≠ '#' := by
  simpa [isInert, and_assoc] using h

namespace CustomProperty

theorem text_ne_nil (name : CustomProperty) : name.text ≠ [] :=
  nofun

theorem isTokenChar_of_mem (name : CustomProperty) {c : Char} (hc : c ∈ name.text) :
    isTokenChar c := by
  rw [text, List.mem_cons, List.mem_cons] at hc
  rcases hc with rfl | rfl | hc
  · decide
  · decide
  · exact name.chars c hc

end CustomProperty

/-! ## The scanner along a sheet -/

/-- The statements of declarations on successive lines. -/
def SheetDeclaration.statements (line : Nat) : List SheetDeclaration → List Statement
  | [] => []
  | d :: rest =>
    .declaration d.name.text (Text.trim (' ' :: d.value)) line :: statements (line + 1) rest

/-- The statements of a sheet that starts on the given line. -/
def Sheet.statements (line : Nat) : Sheet → List Statement
  | [] => []
  | rule :: rest =>
    SheetDeclaration.statements (line + 1) rule.declarations ++
      statements (line + (rule.declarations.length + 2)) rest

open Scanner

variable {s : Scanner}

/-- The line of a declaration is read as the declaration. -/
theorem SheetDeclaration.reads_line (d : SheetDeclaration) (hs : s.Fresh) :
    s.Reads (d.line ++ ['\n']) 1
      [.declaration d.name.text (Text.trim (' ' :: d.value)) s.line] := by
  have name : ∀ c ∈ d.name.text, ¬isBlank c ∧ c ≠ ':' := fun c hc =>
    have := of_isTokenChar (d.name.isTokenChar_of_mem hc)
    ⟨this.2.1, this.2.2.2.1⟩
  have balanced : Balanced false ("  ".toList ++ (d.name.text ++ ':' :: ' ' :: d.value)) := by
    have value : Balanced false (d.value ++ []) :=
      Balanced.nil.append_left fun c hc => of_isInert (d.inert c hc)
    rw [List.append_nil] at value
    have colon : Balanced false (':' :: ' ' :: d.value) :=
      value.append_left (p := ": ".toList) (by decide)
    have named := colon.append_left fun c hc =>
      of_isInert (of_isTokenChar (d.name.isTokenChar_of_mem hc)).1
    exact named.append_left (by decide)
  have ended := hs.reads_statement balanced
  rw [hs.spelled_declaration (by decide) d.name.text_ne_nil name (by simp [CustomProperty.text])]
    at ended
  simpa [line] using ended.append fun s' fresh _ _ => fresh.reads_newline

/-- The lines of declarations are read as the declarations. -/
theorem SheetDeclaration.reads_lines (ds : List SheetDeclaration) (hs : s.Fresh) :
    s.Reads (Text.unlines (ds.map line)) ds.length (statements s.line ds) := by
  induction ds generalizing s with
  | nil => exact hs.reads_nil
  | cons d ds ih =>
    have all := (d.reads_line hs).append fun s' fresh line_eq _ => line_eq ▸ ih fresh
    rw [List.map_cons, Text.unlines_cons, List.length_cons, Nat.add_comm]
    simpa [statements] using all

/-- The lines of a rule are read as its declarations. -/
theorem SheetRule.reads_lines (rule : SheetRule) (hs : s.Fresh) :
    s.Reads (Text.unlines rule.lines) (rule.declarations.length + 2)
      (SheetDeclaration.statements (s.line + 1) rule.declarations) := by
  have balanced : Balanced false (rule.selector ++ []) :=
    Balanced.nil.append_left fun c hc => of_isInert (rule.inert c hc)
  rw [List.append_nil] at balanced
  have block := hs.reads_blockLines balanced fun s' fresh line_eq =>
    line_eq ▸ SheetDeclaration.reads_lines rule.declarations fresh
  have at_ : rule.selector.head? ≠ some '@' := fun h => (rule.start '@' h).1 rfl
  rw [hs.spelled_selector at_ fun c hc => (rule.start c hc).2] at block
  simpa [lines] using block

theorem Sheet.reads_text (sheet : Sheet) (hs : s.Fresh) :
    ∃ n, s.Reads sheet.text n (sheet.statements s.line) := by
  induction sheet generalizing s with
  | nil => exact ⟨0, hs.reads_nil⟩
  | cons rule sheet ih =>
    -- the number of lines behind the rule is the same for every scanner that starts there
    obtain ⟨s', run_eq, fresh, line_eq, blocks, found⟩ := rule.reads_lines hs
    obtain ⟨n, s'', run_eq', fresh', line_eq', blocks', found'⟩ := ih fresh
    refine ⟨rule.declarations.length + 2 + n, s'', ?_, fresh', by omega, blocks'.trans blocks, ?_⟩
    · rw [text, List.flatMap_cons, Text.unlines_append]
      exact (run_append run_eq).trans run_eq'
    · rw [found', found, line_eq, List.append_assoc]
      rfl

/-- **The declarations of a sheet** are read from its text. -/
theorem Sheet.scan_text (sheet : Sheet) : scan sheet.text = .ok (sheet.statements 1) := by
  obtain ⟨n, reads⟩ := sheet.reads_text fresh_initial
  exact reads.scan_eq

theorem SheetDeclaration.tokens_statements (line : Nat) (ds : List SheetDeclaration) :
    (statements line ds).filterMap Statement.token? =
      ds.map fun d => (TokenKind.property, d.name.text) := by
  induction ds generalizing line with
  | nil => rfl
  | cons d ds ih =>
    rw [statements, List.map_cons, ← ih]
    rfl

theorem Sheet.tokens_statements (line : Nat) (sheet : Sheet) :
    (sheet.statements line).filterMap Statement.token? =
      sheet.names.map fun name => (TokenKind.property, name) := by
  induction sheet generalizing line with
  | nil => rfl
  | cons rule sheet ih =>
    rw [statements, List.filterMap_append, SheetDeclaration.tokens_statements, ih, names, names,
      List.flatMap_cons, List.map_append, List.map_map]
    rfl

/-- **The inventory of a sheet** lists the properties that its lines declare. -/
theorem Sheet.extract_text (sheet : Sheet) (path : Text) :
    Inventory.extract sheet.text path = .ok (.ofLists path sheet.names [] [] []) := by
  have ofKind : ∀ kind, Inventory.ofKind kind (sheet.names.map fun name =>
      (TokenKind.property, name)) = if kind = .property then sheet.names else [] := by
    intro kind
    rw [Inventory.ofKind, List.filterMap_map]
    cases kind <;> simp
  rw [Inventory.extract, sheet.scan_text]
  simp only [sheet.tokens_statements, Inventory.ofTokens, ofKind]
  rfl

end StyleTokens
