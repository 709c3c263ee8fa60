import StyleTokens.Data.Entries
import StyleTokens.Group
import StyleTokens.Text.Blank
import StyleTokens.Text.Pieces

/-!
# Deleting declarations

The declaration of a token is deleted with the line it stands on: the indentation, the name, the
colon, the value with its semicolon, and the blanks and the line break behind it. The value runs
to its semicolon, over several lines if need be, where a semicolon between quotes or in an
interpolation does not count; a value without semicolon runs to the end of its line.

## Main definitions

* `Prune.toSemicolon`, `Prune.toLineEnd`: the two ways in which a value ends
* `Prune.declarationRule`: the declaration of a token
* `prune`: the text without the declarations of some tokens, and the tokens that were found
* `planRemovals`: which tokens are to be deleted from which files
-/

namespace StyleTokens

namespace Prune

/-- What a value is inside of. -/
inductive Within where
  /-- Nothing. -/
  | value
  /-- Behind the hash of an interpolation. -/
  | hash
  /-- The braces of an interpolation. -/
  | braces
  /-- A string. -/
  | quotes (quote : Char)
  deriving DecidableEq, Repr

/-- The number of characters up to and with the semicolon that ends the value. -/
def toSemicolon : Within → Text → Option Nat
  | _, [] => none
  | .value, c :: cs =>
    if c = ';' then some 1
    else if c = '{' || c = '}' then none
    else if c = '"' || c = '\x27' then (toSemicolon (.quotes c) cs).map (· + 1)
    else if c = '#' && cs.head? = some '{' then (toSemicolon .hash cs).map (· + 1)
    else (toSemicolon .value cs).map (· + 1)
  | .hash, _ :: cs => (toSemicolon .braces cs).map (· + 1)
  | .braces, c :: cs =>
    if c = '{' then none
    else (toSemicolon (if c = '}' then .value else .braces) cs).map (· + 1)
  | .quotes quote, c :: cs =>
    if c = '\n' then none
    else (toSemicolon (if c = quote then .value else .quotes quote) cs).map (· + 1)

/-- The number of characters up to the end of the line, where the value has no semicolon. -/
def toLineEnd : Within → Text → Option Nat
  | .value, [] => some 0
  | _, [] => none
  | .value, c :: cs =>
    if c = '\n' then some 0
    else if c = ';' || c = '{' || c = '}' then none
    else if c = '#' && cs.head? = some '{' then (toLineEnd .hash cs).map (· + 1)
    else (toLineEnd .value cs).map (· + 1)
  | .hash, _ :: cs => (toLineEnd .braces cs).map (· + 1)
  | .braces, c :: cs =>
    if c = '{' then none
    else (toLineEnd (if c = '}' then .value else .braces) cs).map (· + 1)
  | .quotes _, _ :: _ => none

/-- The number of characters of a value. -/
def valueLength? (t : Text) : Option Nat :=
  toSemicolon .value t <|> toLineEnd .value t

/-- The number of characters of a line break, zero without one. -/
def breakLength : Text → Nat
  | '\n' :: _ => 1
  | '\r' :: '\n' :: _ => 2
  | _ => 0

/-- The number of blanks and characters of a line break behind a declaration. -/
def trailLength (t : Text) : Nat :=
  (t.takeWhile isIndent).length + breakLength (t.dropWhile isIndent)

/-- The number of characters of a declaration of the token behind its indentation. -/
def declarationLength? (token t : Text) : Option Nat := do
  let rest ← token.isPrefixOf? t
  let value ← [':'].isPrefixOf? (rest.dropWhile isIndent)
  let n ← valueLength? value
  return t.length - value.length + n + trailLength (value.drop n)

/-- Whether a line starts behind the given character. -/
def startsLine : Option Char → Bool
  | none => true
  | some c => c = '\n'

/-- A declaration of the token on a line of its own, behind all of the indentation if it can be,
else behind less of it. -/
def declarationRule (token : Text) : Rule Unit := fun before t =>
  if startsLine before then
    let indent := (t.takeWhile isIndent).length
    (List.range (indent + 1)).findSome? fun i =>
      (declarationLength? token (t.drop (indent - i))).map fun n =>
        ⟨t.take (indent - i + n), ()⟩
  else none

/-- The text without the declarations of one token. -/
def without (token t : Text) : Text :=
  (declarationRule token).replaced (fun _ => []) t

/-- Whether the text has a declaration of the token that can be deleted. -/
def declares (token t : Text) : Bool :=
  0 < (declarationRule token).hitCount t

end Prune

/-- The text without the declarations of the tokens, one token after another, and the tokens of
which a declaration was found. -/
def prune : List Text → Text → Text × List Text
  | [], t => (t, [])
  | token :: tokens, t =>
    let (rest, removed) := prune tokens (Prune.without token t)
    (rest, if Prune.declares token t then token :: removed else removed)

/-- The list with a name at its end, unless it is there already. -/
def addOnce (name : Text) (names : List Text) : List Text :=
  if names.contains name then names else names ++ [name]

/-- The tokens to be deleted from every file, from the groups that are to be pruned, in the order
in which they are met. -/
def planRemovals (groups : List Group) : Entries Text (List Text) :=
  (groups.filter Group.isActionable).foldl
    (fun plan group => group.redundantFiles.foldl
      (fun plan file => plan.modify file fun names => addOnce group.representative (names.getD []))
      plan) []

end StyleTokens
