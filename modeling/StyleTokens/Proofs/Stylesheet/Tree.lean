import StyleTokens.Proofs.Stylesheet.Run

/-!
# Statement trees

A stylesheet is written from a tree of declarations, at-rules and blocks. The scanner reads the
written text back as the declarations and at-rules of the tree, in the order in which they start
and each with its line, at every depth.

## Main definitions

* `PropertyName`, `Keyword`, `LineText`, `Selector`: what the nodes of a tree are written with
* `StatementTree`: a node of a statement tree
* `StatementTree.print`, `StatementTree.statements`: its text, and its statements

## Main results

* `StatementTree.scan_printAll`: the statements of a written tree are those of the tree
-/

namespace StyleTokens

/-- The name of a property. -/
structure PropertyName where
  text : Text
  nonempty : text ≠ []
  plain : ∀ c ∈ text, ¬isBlank c ∧ Scanner.isPlain c ∧ c ≠ ':' ∧ c ≠ '/' ∧ c ≠ '#'
  /-- It is not taken for an at-rule. -/
  noAt : text.head? ≠ some '@'

/-- The name of an at-rule, in lower case. -/
structure Keyword where
  text : Text
  nonempty : text ≠ []
  chars : ∀ c ∈ text, Statement.isKeywordChar c

/-- A balanced text without blanks at its ends. -/
structure LineText where
  text : Text
  balanced : Balanced false text
  trimmed : text.Trimmed

/-- The header of a block that is no at-rule. -/
structure Selector extends LineText where
  /-- It is not taken for an at-rule. -/
  noAt : text.head? ≠ some '@'

/-- A node of a statement tree. -/
inductive StatementTree where
  /-- `property: value;` -/
  | declaration (property : PropertyName) (value : LineText)
  /-- `@name params;` -/
  | atStatement (name : Keyword) (params : LineText)
  /-- `@name params { ... }` -/
  | atBlock (name : Keyword) (params : LineText) (children : List StatementTree)
  /-- `selector { ... }` -/
  | rule (selector : Selector) (children : List StatementTree)

/-! ## What is written is balanced -/

theorem PropertyName.balanced (property : PropertyName) {t : Text} (ht : Balanced false t) :
    Balanced false (property.text ++ ':' :: t) := by
  have colon : Balanced false (':' :: t) := ht.append_left (p := [':']) (by decide)
  refine colon.append_left fun c hc => ?_
  obtain ⟨-, plain, -, slash, hash⟩ := property.plain c hc
  exact ⟨plain, slash, hash⟩

theorem Keyword.balanced (name : Keyword) {t : Text} (ht : Balanced false t) :
    Balanced false ('@' :: name.text ++ ' ' :: t) := by
  have blank : Balanced false (' ' :: t) := ht.append_left (p := [' ']) (by decide)
  have letters : ∀ c : Char, Statement.isKeywordChar c → Scanner.isPlain c ∧ c ≠ '/' ∧ c ≠ '#' :=
    fun c hc => forall_ascii (p := fun c => Statement.isKeywordChar c →
      Scanner.isPlain c ∧ c ≠ '/' ∧ c ≠ '#') (by decide) (Statement.isKeywordChar_lt hc) hc
  have named := blank.append_left fun c hc => letters c (name.chars c hc)
  exact named.append_left (p := ['@']) (by decide)

theorem Selector.start (selector : Selector) : ∀ c ∈ selector.text.head?, ¬isBlank c := by
  intro c hc blank
  obtain ⟨t, eq⟩ := List.head?_eq_some_iff.mp hc
  have := selector.trimmed.dropWhile_eq
  rw [eq, List.dropWhile_cons_of_pos blank] at this
  have shorter := (List.dropWhile_suffix (l := t) isBlank).length_le
  rw [this, List.length_cons] at shorter
  omega

namespace StatementTree

mutual

/-- The text of a node; all its lines are ended. -/
def print : StatementTree → Text
  | .declaration property value => property.text ++ ": ".toList ++ value.text ++ ";\n".toList
  | .atStatement name params => '@' :: name.text ++ ' ' :: params.text ++ ";\n".toList
  | .atBlock name params children =>
    '@' :: name.text ++ ' ' :: params.text ++ [' ', '{', '\n'] ++ printAll children ++ ['}', '\n']
  | .rule selector children =>
    selector.text ++ [' ', '{', '\n'] ++ printAll children ++ ['}', '\n']

/-- The text of the nodes, one after another. -/
def printAll : List StatementTree → Text
  | [] => []
  | node :: nodes => print node ++ printAll nodes

end

mutual

/-- The number of lines of a node. -/
def height : StatementTree → Nat
  | .declaration _ _ | .atStatement _ _ => 1
  | .atBlock _ _ children | .rule _ children => heightAll children + 2

/-- The number of lines of the nodes. -/
def heightAll : List StatementTree → Nat
  | [] => 0
  | node :: nodes => height node + heightAll nodes

end

mutual

/-- The declarations and at-rules of a node that starts on the given line, the outer ones first. -/
def statements (line : Nat) : StatementTree → List Statement
  | .declaration property value => [.declaration property.text value.text line]
  | .atStatement name params => [.atRule name.text params.text line false]
  | .atBlock name params children =>
    .atRule name.text params.text line true :: statementsAll (line + 1) children
  | .rule _ children => statementsAll (line + 1) children

/-- The declarations and at-rules of the nodes, of which the first starts on the given line. -/
def statementsAll (line : Nat) : List StatementTree → List Statement
  | [] => []
  | node :: nodes => statements line node ++ statementsAll (line + height node) nodes

end

/-! ## Reading a tree back -/

open Scanner

mutual

theorem reads_print {s : Scanner} (node : StatementTree) (hs : s.Fresh) :
    s.Reads (print node) (height node) (statements s.line node) := by
  -- A leaf is a line of its own. A block is its header line, its children and the closing line.
  match node with
  | .declaration property value =>
    have blank := value.balanced.append_left (p := [' ']) (by decide)
    have ended := hs.reads_statement (property.balanced blank)
    have spelled := hs.spelled_declaration (t := []) (v := ' ' :: value.text) (by simp)
      property.nonempty (fun c hc => ⟨(property.plain c hc).1, (property.plain c hc).2.2.1⟩)
      property.noAt
    have trimmed : Text.trim (' ' :: value.text) = value.text :=
      (Text.trim_blanks_append (b := [' ']) value.text (by decide)).trans value.trimmed
    rw [List.nil_append, trimmed] at spelled
    rw [List.singleton_append, spelled] at ended
    have line := ended.append fun s' fresh _ _ => fresh.reads_newline
    simpa [print, height, statements] using line
  | .atStatement name params =>
    have ended := hs.reads_statement (name.balanced params.balanced)
    rw [hs.spelled_atRule name.nonempty name.chars, params.trimmed] at ended
    have line := ended.append fun s' fresh _ _ => fresh.reads_newline
    simpa [print, height, statements] using line
  | .atBlock name params children =>
    have block := hs.reads_blockLines (name.balanced params.balanced)
      fun s' fresh line_eq => line_eq ▸ reads_printAll children fresh
    -- the blank before the brace belongs to the parameters, which are trimmed
    have header : '@' :: name.text ++ ' ' :: params.text ++ [' '] =
        '@' :: name.text ++ ' ' :: (params.text ++ [' ']) := by simp
    rw [header, hs.spelled_atRule name.nonempty name.chars,
      Text.trim_append_blanks params.text (by decide), params.trimmed] at block
    simpa [print, height, statements] using block
  | .rule selector children =>
    have block := hs.reads_blockLines selector.balanced
      fun s' fresh line_eq => line_eq ▸ reads_printAll children fresh
    rw [hs.spelled_selector selector.noAt selector.start] at block
    simpa [print, height, statements] using block

theorem reads_printAll {s : Scanner} (nodes : List StatementTree) (hs : s.Fresh) :
    s.Reads (printAll nodes) (heightAll nodes) (statementsAll s.line nodes) := by
  match nodes with
  | [] => exact hs.reads_nil
  | node :: nodes =>
    refine (reads_print node hs).append fun s' fresh line _ => ?_
    rw [← line]
    exact reads_printAll nodes fresh

end

/-- **The scanner reads a written tree back**: the declarations and at-rules of the tree, from
every depth, in the order in which they start, and each with its line. -/
theorem scan_printAll (nodes : List StatementTree) :
    scan (printAll nodes) = .ok (statementsAll 1 nodes) :=
  (reads_printAll nodes fresh_initial).scan_eq

end StatementTree

end StyleTokens
