import StyleTokens.Report.Layout

/-!
# The lines of a report

What a line of a report stands for. The tests are tried in a fixed order, and the first that
holds decides; a line for which none holds is prose.

## Main definitions

* `Mark`: what a line stands for
* `Mark.ofLine`: the mark of a line
* `Disposition.ofWords`: the decision that words express
-/

namespace StyleTokens

/-- What a line of a report stands for. -/
inductive Mark where
  /-- The section of a kind starts. -/
  | kind (key : Text)
  /-- A group of one name starts. -/
  | token (name : Text)
  /-- A group of similar names starts. -/
  | variants (names : List Text)
  /-- The list of files follows. -/
  | definedIn
  /-- The canonical file. -/
  | preferred (path : Text)
  /-- The decision, which ends the group. -/
  | disposition (words : Text)
  /-- An item of a list. -/
  | bullet (path : Text)
  /-- An empty line. -/
  | blank
  /-- Any other line. -/
  | prose
  deriving DecidableEq, Repr

/-- The text behind at least one blank. -/
def Text.afterBlanks? (t : Text) : Option Text :=
  if t.head?.any isBlank then some (t.dropWhile isBlank) else none

/-- The value at the end of a line: the trimmed text, or the last blank if there are only
blanks. -/
def Text.lineValue (t : Text) : Text :=
  if t.allBlank then t.getLast?.toList else t.trim

namespace Mark

/-- `## key Duplicates` -/
def kind? (line : Text) : Option Mark := do
  let rest ← ("##".toList.isPrefixOf? line).bind Text.afterBlanks?
  let key := rest.takeWhile isWord
  if key.isEmpty then none
  let rest ← Text.afterBlanks? (rest.dropWhile isWord)
  let rest ← "Duplicates".toList.isPrefixOf? rest
  if Text.allBlank rest then some (.kind key) else none

/-- `### Token: name` -/
def token? (line : Text) : Option Mark := do
  let rest ← ("###".toList.isPrefixOf? line).bind Text.afterBlanks?
  let rest ← "Token:".toList.isPrefixOf? rest
  let rest := rest.dropWhile isBlank
  let name := rest.takeWhile fun c => !isBlank c
  if !name.isEmpty && Text.allBlank (rest.drop name.length) then some (.token name) else none

/-- `#### Variants: name, name` -/
def variants? (line : Text) : Option Mark := do
  let rest ← ("####".toList.isPrefixOf? line).bind Text.afterBlanks?
  let rest ← "Variants:".toList.isPrefixOf? rest
  if rest.isEmpty then none else some (.variants (Text.commaParts rest))

/-- `Defined in:` -/
def definedIn? (line : Text) : Option Mark := do
  let rest ← "Defined in:".toList.isPrefixOf? line
  if Text.allBlank rest then some .definedIn else none

/-- `Preferred source (auto-ranked): path` -/
def preferred? (line : Text) : Option Mark := do
  let rest ← "Preferred source".toList.isPrefixOf? (line.dropWhile isBlank)
  match rest.dropWhile (· ≠ ':') with
  | [] => none
  | _ :: value =>
    if value.isEmpty then none else some (.preferred (Text.slashed (Text.lineValue value)))

/-- `Disposition: words` -/
def disposition? (line : Text) : Option Mark := do
  let rest ← "Disposition:".toList.isPrefixOf? (line.dropWhile isBlank)
  return .disposition (Text.trim rest)

/-- `- path`; if only blanks stand behind the hyphen, there are at least two of them. -/
def bullet? (line : Text) : Option Mark := do
  match line.dropWhile isBlank with
  | '-' :: rest =>
    if !rest.head?.any isBlank || (Text.allBlank rest && rest.length < 2) then none
    else some (.bullet (Text.slashed (Text.lineValue rest)))
  | _ => none

/-- The mark of a line. -/
def ofLine (line : Text) : Mark :=
  (kind? line <|> token? line <|> variants? line <|> definedIn? line <|> preferred? line <|>
    disposition? line <|> bullet? line).getD (if Text.allBlank line then .blank else .prose)

end Mark

/-- The decision that words express: their first word, without the marks of emphasis around it;
the placeholder and unknown words express none. -/
def Disposition.ofWords (words : Text) : Disposition :=
  if Text.mentions Report.placeholder words then .unset
  else
    let plain := Text.trim (Text.trimWhile (fun c => c = '*' || c = '_' || c = '\x60')
      (Text.trim words))
    (ofWord? (Text.lower (plain.takeWhile (· ≠ ' ')))).getD .unset

end StyleTokens
