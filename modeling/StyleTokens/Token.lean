import StyleTokens.Field

/-!
# Tokens

A token is a named symbol that a stylesheet declares: a custom property, a reusable block, a
function, or a reference to a module.

## Main definitions

* `TokenKind`: the four kinds, with their words and the keys of a baseline file
* `Token`: a name, its kind and the file that declares it
* `Token.check`, `Token.ofMembers`: tokens have names
-/

namespace StyleTokens

/-- The kinds of tokens. -/
inductive TokenKind where
  /-- A custom property `--name`. -/
  | property
  /-- A reusable block `@mixin name`. -/
  | block
  /-- A function `@function name`. -/
  | function
  /-- A reference to a module. -/
  | moduleRef
  deriving DecidableEq, Repr

namespace TokenKind

/-- All kinds, in the order of a baseline file. -/
def all : List TokenKind :=
  [.property, .block, .function, .moduleRef]

/-- The kinds that are searched for duplicates, in the order of a report. -/
def grouped : List TokenKind :=
  [.property, .block, .function]

/-- The word for a kind. -/
def word : TokenKind → Text
  | .property => "property".toList
  | .block => "block".toList
  | .function => "function".toList
  | .moduleRef => "moduleRef".toList

/-- The kind for a word. -/
def ofWord? (t : Text) : Option TokenKind :=
  all.find? fun kind => kind.word = t

/-- The key of a kind in a baseline file. -/
def key : TokenKind → Text
  | .property => "properties".toList
  | .block => "blocks".toList
  | .function => "functions".toList
  | .moduleRef => "moduleRefs".toList

/-- The kind for a key. -/
def ofKey? (t : Text) : Option TokenKind :=
  all.find? fun kind => kind.key = t

end TokenKind

/-- A named symbol declared by a file. -/
structure Token where
  /-- The name, for a custom property with its two hyphens. -/
  name : Text
  kind : TokenKind
  /-- The path of the declaring file. -/
  file : Text
  deriving DecidableEq, Repr

namespace Token

/-- The token of a kind, name and file; the name must not be empty. -/
def check (kind : TokenKind) (file name : Text) : Checked Token :=
  if name.isEmpty then .error [⟨["name".toList], .textTooShort⟩] else .ok ⟨name, kind, file⟩

/-- The token with the given members. -/
def ofMembers (members : List (Text × Json.Value)) : Checked Token := do
  let (name, kind, file) ← Checked.both
    (Field.required members "name".toList Field.nonemptyText)
    (Checked.both (Field.required members "kind".toList (Field.choice TokenKind.ofWord?))
      (Field.required members "declaring_file".toList Field.text))
  return ⟨name, kind, file⟩

end Token

end StyleTokens
