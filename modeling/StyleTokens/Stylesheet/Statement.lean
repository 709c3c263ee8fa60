import StyleTokens.Text.Alphanumeric
import StyleTokens.Text.Blank
import StyleTokens.Text.Lower

/-!
# Statements of a stylesheet

A stylesheet is a sequence of statements at any depth: declarations `property: value`, and
at-rules `@name params`, of which some open a block. The headers of other blocks, the selectors,
are no statements.

## Main definitions

* `Statement`: a declaration or an at-rule, with the line it starts on
* `Statement.ofText`: the statement that a trimmed text spells, if any
-/

namespace StyleTokens

/-- A statement of a stylesheet. -/
inductive Statement where
  /-- `property: value` -/
  | declaration (property value : Text) (line : Nat)
  /-- `@name params`, on its own or in front of a block -/
  | atRule (name params : Text) (line : Nat) (opensBlock : Bool)
  deriving DecidableEq, Repr

namespace Statement

/-- The characters of an at-rule's name. -/
def isAtNameChar (c : Char) : Bool :=
  isAlphanumeric c || c = '-' || c = '_'

/-- The at-rule that the text behind an `@` spells. -/
def atRule? (body : Text) (line : Nat) (opensBlock : Bool) : Option Statement :=
  let name := body.takeWhile isAtNameChar
  if name.isEmpty then none
  else some (.atRule (Text.lower name) (Text.trim (body.dropWhile isAtNameChar)) line opensBlock)

/-- The declaration that a text spells: a property without blanks, a colon, and a value. -/
def declaration? (text : Text) (line : Nat) : Option Statement :=
  let property := Text.trim (text.takeWhile (· ≠ ':'))
  if !text.contains ':' || property.isEmpty || property.any isBlank then none
  else some (.declaration property (Text.trim ((text.dropWhile (· ≠ ':')).drop 1)) line)

/-- The statement that a trimmed text spells, where `opensBlock` tells that a block follows it. -/
def ofText (text : Text) (line : Nat) (opensBlock : Bool) : Option Statement :=
  match text with
  | [] => none
  | '@' :: body => atRule? body line opensBlock
  | _ => if opensBlock then none else declaration? text line

/-- The line on which the statement starts. -/
def line : Statement → Nat
  | .declaration _ _ line => line
  | .atRule _ _ line _ => line

end Statement

end StyleTokens
