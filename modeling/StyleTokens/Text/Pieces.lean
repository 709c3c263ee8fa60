import StyleTokens.Text.Basic

/-!
# Cutting a text by a rule

A rule looks at a place in a text, with the character before it and the text from it on, and may
take some characters there. Read from left to right, a text falls into pieces: the characters
that the rule leaves alone, and the hits, of which none overlaps another. Searching, counting and
replacing are read off the pieces.

## Main definitions

* `Rule`, `Hit`: what a rule sees, and what it takes
* `Piece`, `pieces`: a text cut by a rule
* `replaced`, `hitCount`: the text with every hit replaced, and the number of hits
* `found`: the hits with their positions
-/

namespace StyleTokens

/-- The characters that a rule takes, and what it makes of them. -/
structure Hit (α : Type) where
  taken : Text
  value : α

/-- A rule is given the character before a place, if any, and the text from there on. -/
abbrev Rule (α : Type) := Option Char → Text → Option (Hit α)

/-- A part of a text cut by a rule. -/
inductive Piece (α : Type) where
  /-- A character left alone. -/
  | plain (c : Char)
  /-- Characters taken by the rule. -/
  | hit (h : Hit α)

namespace Piece

variable {α : Type}

/-- The piece as it stands in the text. -/
def source : Piece α → Text
  | .plain c => [c]
  | .hit h => h.taken

/-- The piece with `f` applied to a hit. -/
def output (f : α → Text) : Piece α → Text
  | .plain c => [c]
  | .hit h => f h.value

/-- What the rule found, if the piece is a hit. -/
def value? : Piece α → Option α
  | .plain _ => none
  | .hit h => some h.value

end Piece

namespace Rule

variable {α : Type}

/-- The pieces of a text of which the first `skip` characters are taken already. -/
def piecesFrom (rule : Rule α) : Nat → Option Char → Text → List (Piece α)
  | _, _, [] => []
  | skip + 1, _, c :: cs => piecesFrom rule skip (some c) cs
  | 0, before, c :: cs =>
    match rule before (c :: cs) with
    | some h => .hit h :: piecesFrom rule (h.taken.length - 1) (some c) cs
    | none => .plain c :: piecesFrom rule 0 (some c) cs

/-- The pieces into which the rule cuts the text. -/
def pieces (rule : Rule α) (t : Text) : List (Piece α) :=
  piecesFrom rule 0 none t

/-- What the rule finds, from left to right. -/
def values (rule : Rule α) (t : Text) : List α :=
  (rule.pieces t).filterMap Piece.value?

/-- The number of hits. -/
def hitCount (rule : Rule α) (t : Text) : Nat :=
  (rule.values t).length

/-- The text with `f` of what was found in place of every hit. -/
def replaced (rule : Rule α) (f : α → Text) (t : Text) : Text :=
  (rule.pieces t).flatMap (Piece.output f)

/-- What was found in the pieces, each with its position, the first piece standing at `start`. -/
def foundFrom : Nat → List (Piece α) → List (Nat × α)
  | _, [] => []
  | start, .plain _ :: rest => foundFrom (start + 1) rest
  | start, .hit h :: rest => (start, h.value) :: foundFrom (start + h.taken.length) rest

/-- What the rule finds, each with its position in the text. -/
def found (rule : Rule α) (t : Text) : List (Nat × α) :=
  foundFrom 0 (rule.pieces t)

/-- A rule is honest if it takes characters that are there, and at least one. -/
def Honest (rule : Rule α) : Prop :=
  ∀ before t h, rule before t = some h → h.taken <+: t ∧ h.taken ≠ []

end Rule

end StyleTokens
