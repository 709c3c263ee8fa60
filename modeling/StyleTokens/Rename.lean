import StyleTokens.RenameMap
import StyleTokens.Text.Alphanumeric
import StyleTokens.Text.Blank
import StyleTokens.Text.Pieces

/-!
# Renaming tokens in a stylesheet

Names that start with two hyphens are custom properties. They are renamed where they are used,
`var(--old`, and where they are declared, `--old:`. All other names are mixins and functions.
They are renamed in `@mixin`, `@function` and `@include` rules, also behind a module's name, and
where they are called, `old(`. A name is renamed as a whole only. Properties are renamed first,
then mixins and functions, each in one pass, so that a new name is not renamed again in its pass.

## Main definitions

* `Rename.propertyRule`, `Rename.callableRule`: where names are renamed
* `rename`: the text with its names changed, and the number of changes
-/

namespace StyleTokens

namespace Rename

/-- A name to be changed, and the characters in front of it that show it is one. -/
structure Occurrence where
  /-- The characters in front of the name. -/
  lead : Text
  old : Text
  deriving DecidableEq, Repr

/-- A hit that takes the occurrence. -/
def Occurrence.hit (occurrence : Occurrence) : Hit Occurrence :=
  ⟨occurrence.lead ++ occurrence.old, occurrence⟩

/-- Whether one name is tried before another: the longer one first, then in ascending order. -/
def triedBefore (a b : Text) : Bool :=
  b.length < a.length || (a.length == b.length && !decide (b < a))

/-- The names in the order in which they are tried. -/
def inOrder (names : List Text) : List Text :=
  names.mergeSort triedBefore

/-- The first of the names that stands at the start of the text with a fitting text behind it. -/
def nameAt? (names : List Text) (fits : Text → Bool) (t : Text) : Option Text :=
  names.find? fun name => name.isPrefixOf t && fits (t.drop name.length)

/-- Whether a name may end here. -/
def endsName (t : Text) : Bool :=
  !Text.startsInName t

/-- Whether a colon follows, behind blanks. -/
def colonFollows (t : Text) : Bool :=
  (t.dropWhile isBlank).head? = some ':'

/-- Whether an opening parenthesis follows. -/
def parenFollows (t : Text) : Bool :=
  t.head? = some '('

/-- A name that starts here, where no name character stands in front. -/
def freshName? (names : List Text) (fits : Text → Bool) : Option Char → Text → Option Occurrence :=
  fun before t =>
    if before.any isNameChar then none
    else (nameAt? names fits t).map fun old => ⟨[], old⟩

/-- A property that is used: `var(--old`. -/
def usedProperty? (names : List Text) (t : Text) : Option Occurrence := do
  let rest ← "var(".toList.isPrefixOf? t
  let old ← nameAt? names endsName (rest.dropWhile isBlank)
  return ⟨"var(".toList ++ rest.takeWhile isBlank, old⟩

/-- A property that is used or declared. -/
def propertyRule (names : List Text) : Rule Occurrence := fun before t =>
  (usedProperty? names t <|> freshName? names colonFollows before t).map Occurrence.hit

/-- The rules that name a mixin or a function. -/
def callableRules : List Text :=
  ["@mixin", "@function", "@include"].map String.toList

/-- A name behind a module's name and a dot. -/
def qualifiedName? (names : List Text) (lead t : Text) : Option Occurrence := do
  let qualifier := Text.nameRun t
  if qualifier.isEmpty then none
  let rest ← ['.'].isPrefixOf? (t.drop qualifier.length)
  let old ← nameAt? names endsName rest
  return ⟨lead ++ qualifier ++ ['.'], old⟩

/-- A name behind the first `n` blanks of a rule. -/
def ruleName? (names : List Text) (keyword rest : Text) (n : Nat) : Option Occurrence :=
  let lead := keyword ++ rest.take n
  qualifiedName? names lead (rest.drop n) <|>
    (nameAt? names endsName (rest.drop n)).map fun old => ⟨lead, old⟩

/-- A name in a rule: behind all blanks if it can, else behind fewer. -/
def namedInRule? (names : List Text) (t : Text) : Option Occurrence := do
  let (keyword, rest) ← callableRules.findSome? fun keyword =>
    (keyword.isPrefixOf? t).map fun rest => (keyword, rest)
  let blanks := (rest.takeWhile isBlank).length
  (List.range blanks).findSome? fun i => ruleName? names keyword rest (blanks - i)

/-- A mixin or a function that is named in a rule or called. -/
def callableRule (names : List Text) : Rule Occurrence := fun before t =>
  (namedInRule? names t <|> freshName? names parenFollows before t).map Occurrence.hit

/-- Whether a name is that of a custom property. -/
def isProperty (name : Text) : Bool :=
  "--".toList.isPrefixOf name

/-- The pairs that change a name. -/
def effective (pairs : List (Text × Text)) : List (Text × Text) :=
  pairs.filter fun (old, new) => RenameMap.changes old new

/-- The rule for the custom properties among the pairs. -/
def properties (pairs : List (Text × Text)) : Rule Occurrence :=
  propertyRule (inOrder (((effective pairs).map Prod.fst).filter isProperty))

/-- The rule for the mixins and functions among the pairs. -/
def callables (pairs : List (Text × Text)) : Rule Occurrence :=
  callableRule (inOrder (((effective pairs).map Prod.fst).filter fun name => !isProperty name))

/-- An occurrence with its new name. -/
def renamed (pairs : List (Text × Text)) (occurrence : Occurrence) : Text :=
  occurrence.lead ++ (Entries.get? occurrence.old pairs).getD occurrence.old

end Rename

/-- The text with its names changed as the pairs say, and the number of changes. -/
def rename (pairs : List (Text × Text)) (t : Text) : Text × Nat :=
  let first := (Rename.properties pairs).replaced (Rename.renamed pairs) t
  let second := (Rename.callables pairs).replaced (Rename.renamed pairs) first
  (second, (Rename.properties pairs).hitCount t + (Rename.callables pairs).hitCount first)

end StyleTokens
