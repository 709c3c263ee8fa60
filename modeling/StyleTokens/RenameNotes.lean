import StyleTokens.RenameMap
import StyleTokens.Text.Alphanumeric
import StyleTokens.Text.Blank
import StyleTokens.Text.Pieces

/-!
# Rename notes in a report

The renaming of a custom property is noted in one of two ways: as a call of a mixin whose name
ends in `alias`, with the old and the new name, quoted or bare, as its arguments; or as the two
names with an arrow between them.

## Main definitions

* `RenameNotes.aliasRule`, `RenameNotes.arrowRule`: the two notations
* `RenameNotes.pairs`: the pairs noted in a text, in the order of the text
* `RenameNotes.map`: their rename map
-/

namespace StyleTokens.RenameNotes

/-- The name of a custom property at the start of the text, and the text behind it. -/
def propertyName? (t : Text) : Option (Text × Text) :=
  let run := Text.nameRun t
  if "--".toList.isPrefixOf run && 3 ≤ run.length then some (run, t.drop run.length) else none

/-- The text behind a quote, if it starts with one. -/
def skipQuote : Text → Text
  | '"' :: rest => rest
  | '\x27' :: rest => rest
  | t => t

/-- An argument of a call, with the blanks and quotes around it left out. -/
def argument? (t : Text) : Option (Text × Text) := do
  let (name, rest) ← propertyName? (skipQuote (t.dropWhile isBlank))
  return (name, (skipQuote rest).dropWhile isBlank)

/-- The characters of a text in front of its end `rest`. -/
def before (t rest : Text) : Text :=
  t.take (t.length - rest.length)

/-- A call `alias(old, new)` of a mixin whose name may have more in front. -/
def aliasRule : Rule (Text × Text) := fun _ t => do
  let run := Text.nameRun t
  if !"alias".toList.isSuffixOf run then none
  let rest ← ['('].isPrefixOf? (t.drop run.length)
  let (old, rest) ← argument? rest
  let rest ← [','].isPrefixOf? rest
  let (new, rest) ← argument? rest
  let rest ← [')'].isPrefixOf? rest
  return ⟨before t rest, (old, new)⟩

/-- The name in front of an arrow, and the text behind the arrow. An arrow that stands right
behind the name takes the last hyphen from it. -/
def arrowName? (t : Text) : Option (Text × Text) := do
  let (run, rest) ← propertyName? t
  match "->".toList.isPrefixOf? (rest.dropWhile isBlank) with
  | some rest => return (run, rest)
  | none =>
    if run.getLast? = some '-' && 4 ≤ run.length then
      let rest ← ['>'].isPrefixOf? rest
      return (run.dropLast, rest)
    else none

/-- `old -> new` -/
def arrowRule : Rule (Text × Text) := fun _ t => do
  let (old, rest) ← arrowName? t
  let (new, rest) ← propertyName? (rest.dropWhile isBlank)
  return ⟨before t rest, (old, new)⟩

/-- The old and new names noted in a text, in the order of the text. -/
def pairs (t : Text) : List (Text × Text) :=
  (List.merge (aliasRule.found t) (arrowRule.found t) fun a b => a.1 ≤ b.1).map Prod.snd

/-- The rename map of the notes in a text. -/
def map (t : Text) : RenameMap :=
  .ofPairs (pairs t)

end StyleTokens.RenameNotes
