import StyleTokens.Json.Value

/-!
# Writing JSON

Values are written over several lines, each level two spaces further in, and with ASCII
characters only: all other characters and the controls are escaped, by a letter where there is
one and else by their UTF-16 units.

## Main definitions

* `Json.escape`, `Json.writeText`: texts
* `Json.write`: values
* `Json.document`: a value as the content of a file
-/

namespace StyleTokens.Json

/-- The escape of a UTF-16 unit. -/
def unitEscape (n : Nat) : Text :=
  '\\' :: 'u' :: Text.hex 4 n

/-- A character inside a written text. -/
def escape (c : Char) : Text :=
  if c = '"' || c = '\\' then ['\\', c]
  else if c = '\n' then ['\\', 'n']
  else if c = '\r' then ['\\', 'r']
  else if c = '\t' then ['\\', 't']
  else if c = '\x08' then ['\\', 'b']
  else if c = '\x0c' then ['\\', 'f']
  else if 0x20 ≤ c.toNat && c.toNat < 0x7f then [c]
  else if c.toNat < 0x10000 then unitEscape c.toNat
  else unitEscape (0xd800 + (c.toNat - 0x10000) / 0x400) ++
    unitEscape (0xdc00 + (c.toNat - 0x10000) % 0x400)

/-- A written text. -/
def writeText (t : Text) : Text :=
  '"' :: t.flatMap escape ++ ['"']

/-- A written number. -/
def writeNumber : Number → Text
  | .integer n => Text.ofInt n
  | .decimal negative digits power =>
    (if negative then ['-'] else []) ++ Text.ofNat digits ++ 'e' :: Text.ofInt power
  | .infinity negative => if negative then "-Infinity".toList else "Infinity".toList
  | .undefined => "NaN".toList

/-- A line break and the indentation of a level. -/
def newline (level : Nat) : Text :=
  '\n' :: List.replicate (2 * level) ' '

/-- Written parts between brackets, each on a line of its own one level further in. -/
def bracketed (level : Nat) (left right : Char) (parts : List Text) : Text :=
  if parts.isEmpty then [left, right]
  else left :: newline (level + 1) ++
    Text.joined (',' :: newline (level + 1)) parts ++ newline level ++ [right]

mutual

/-- A written value whose brackets stand on the given level. -/
def write (level : Nat) : Value → Text
  | .null => "null".toList
  | .bool b => if b then "true".toList else "false".toList
  | .number n => writeNumber n
  | .text t => writeText t
  | .array items => bracketed level '[' ']' (writeItems (level + 1) items)
  | .object members => bracketed level '{' '}' (writeMembers (level + 1) members)

/-- The written items of a list. -/
def writeItems (level : Nat) : List Value → List Text
  | [] => []
  | v :: vs => write level v :: writeItems level vs

/-- The written members of an object. -/
def writeMembers (level : Nat) : List (Text × Value) → List Text
  | [] => []
  | (key, v) :: rest =>
    (writeText key ++ ':' :: ' ' :: write level v) :: writeMembers level rest

end

/-- A value as the content of a file: written, and ended by a line break. -/
def document (v : Value) : Text :=
  write 0 v ++ ['\n']

end StyleTokens.Json
