import StyleTokens.Stylesheet.Statement

/-!
# The stylesheet scanner

The scanner reads a stylesheet character by character and cuts it into statements, without
evaluating anything. Comments are passed over; a line comment opens only outside `url(...)`,
where two slashes are part of an address. Quoted strings and the braces of an interpolation
`#{...}` belong to the statement they stand in, and so does a semicolon between parentheses. A
semicolon, a brace that opens a block and a brace that closes one end a statement.

## Main definitions

* `ScanError`: what is wrong with a stylesheet, and on which line
* `Scanner`, `Scanner.step`: the state between two characters, and its change by a character
* `scan`: the statements of a stylesheet, in the order in which they start
-/

namespace StyleTokens

/-- What can be wrong with a stylesheet. -/
inductive ScanCause where
  /-- A comment is open at the end. -/
  | unterminatedComment
  /-- A string is open at the end. -/
  | unterminatedString
  /-- A brace closes no block. -/
  | unexpectedBrace
  /-- An interpolation is open at the end. -/
  | unterminatedInterpolation
  /-- A block is open at the end; it was opened on the given line. -/
  | unclosedBlock (openedAt : Nat)
  deriving DecidableEq, Repr

/-- The words for what is wrong with a stylesheet. -/
def ScanCause.reason : ScanCause → Text
  | .unterminatedComment => "unterminated comment".toList
  | .unterminatedString => "unterminated string".toList
  | .unexpectedBrace => "unexpected '\x7d'".toList
  | .unterminatedInterpolation => "unterminated interpolation".toList
  | .unclosedBlock openedAt => "unclosed block opened at line ".toList ++ Text.ofNat openedAt

/-- What is wrong with a stylesheet, and the line on which it shows. -/
structure ScanError where
  cause : ScanCause
  /-- The line on which it shows. -/
  line : Nat
  deriving DecidableEq, Repr

/-- What the scanner is inside of. -/
inductive ScanMode where
  /-- The text of a statement. -/
  | code
  /-- Behind a slash that may open a comment. -/
  | slash
  /-- Behind a hash that may open an interpolation. -/
  | hash
  /-- A comment opened on line `start`; `star` tells that the last character was a star. -/
  | blockComment (start : Nat) (star : Bool)
  /-- A comment up to the end of the line. -/
  | lineComment
  /-- A string opened on line `start`; `escaped` tells that the last character was a backslash. -/
  | quoted (quote : Char) (start : Nat) (escaped : Bool)
  deriving DecidableEq, Repr

/-- The characters of the statement being read, and the line of the first that is no blank. -/
structure StatementBuffer where
  /-- The characters read so far, the last one first. -/
  latest : List Char := []
  /-- The line of the first character that is no blank. -/
  line : Option Nat := none
  deriving DecidableEq, Repr

namespace StatementBuffer

/-- The buffer with one more character, read on the given line. -/
def add (buffer : StatementBuffer) (c : Char) (line : Nat) : StatementBuffer where
  latest := c :: buffer.latest
  line := buffer.line <|> if isBlank c then none else some line

/-- The characters read so far, in the order in which they were read. -/
def text (buffer : StatementBuffer) : Text :=
  buffer.latest.reverse

/-- A character that is added stands at the end. -/
@[simp]
theorem text_add (buffer : StatementBuffer) (c : Char) (line : Nat) :
    (buffer.add c line).text = buffer.text ++ [c] := by
  simp [add, text]

/-- Whether the last three characters are `url`, in capitals or not. -/
def endsInUrl (buffer : StatementBuffer) : Bool :=
  match buffer.latest with
  | l :: r :: u :: _ => [u, r, l].map Char.toLower == "url".toList
  | _ => false

end StatementBuffer

/-- The state of the scanner between two characters. -/
structure Scanner where
  /-- What the scanner is inside of. -/
  mode : ScanMode := .code
  line : Nat := 1
  buffer : StatementBuffer := {}
  /-- The lines of the open blocks, the innermost first. -/
  openBlocks : List Nat := []
  /-- The number of open braces of interpolations. -/
  interpolation : Nat := 0
  parens : Nat := 0
  /-- The parenthesis of the open `url(...)`, counted from one; zero outside of one. -/
  urlParen : Nat := 0
  found : List Statement := []
  deriving DecidableEq, Repr

namespace Scanner

/-- A character becomes part of the statement. -/
def add (s : Scanner) (c : Char) : Scanner :=
  { s with buffer := s.buffer.add c s.line }

/-- The statement ends. -/
def emit (s : Scanner) (opensBlock : Bool) : Scanner :=
  { s with
    buffer := {}
    found := s.found ++
      (Statement.ofText (Text.trim s.buffer.text) (s.buffer.line.getD 0) opensBlock).toList }

/-- A parenthesis is counted. -/
def count (s : Scanner) (c : Char) : Scanner :=
  if c = '(' then
    { s with
      parens := s.parens + 1
      urlParen := if s.urlParen = 0 && s.buffer.endsInUrl then s.parens + 1 else s.urlParen }
  else if c = ')' && 0 < s.parens then
    { s with
      parens := s.parens - 1
      urlParen := if s.parens = s.urlParen then 0 else s.urlParen }
  else s

/-- A character inside an interpolation is read. -/
def readInterpolation (s : Scanner) (c : Char) : Scanner :=
  { s.add c with
    interpolation :=
      if c = '{' then s.interpolation + 1
      else if c = '}' then s.interpolation - 1
      else s.interpolation }

/-- A block opens. -/
def openBlock (s : Scanner) : Scanner :=
  { s.emit true with openBlocks := s.line :: s.openBlocks, parens := 0, urlParen := 0 }

/-- A block closes. -/
def closeBlock (s : Scanner) : Except ScanError Scanner :=
  match s.openBlocks with
  | [] => .error ⟨.unexpectedBrace, s.line⟩
  | _ :: outer => .ok { s.emit false with openBlocks := outer, parens := 0, urlParen := 0 }

/-- A character that opens neither a comment nor a string nor an interpolation is read. -/
def put (s : Scanner) (c : Char) : Except ScanError Scanner :=
  let s := s.count c
  if 0 < s.interpolation then .ok (s.readInterpolation c)
  else if c = ';' && s.parens = 0 then .ok (s.emit false)
  else if c = '{' then .ok s.openBlock
  else if c = '}' then s.closeBlock
  else .ok (s.add c)

/-- A character in the text of a statement is read. -/
def code (s : Scanner) (c : Char) : Except ScanError Scanner :=
  if c = '/' then .ok { s with mode := .slash }
  else if c = '#' then .ok { s with mode := .hash }
  else if c = '"' || c = '\x27' then .ok { s.add c with mode := .quoted c s.line false }
  else if c = '\n' then .ok { s.add c with line := s.line + 1 }
  else s.put c

/-- A character is read. -/
def step (s : Scanner) (c : Char) : Except ScanError Scanner :=
  match s.mode with
  | .code => s.code c
  | .slash =>
    if c = '*' then .ok { s with mode := .blockComment s.line false }
    else if c = '/' && s.urlParen = 0 then .ok { s with mode := .lineComment }
    else { s.add '/' with mode := .code }.code c
  | .hash =>
    if c = '{' then
      .ok { (s.add '#').add '{' with mode := .code, interpolation := s.interpolation + 1 }
    else { s.add '#' with mode := .code }.code c
  | .blockComment start star =>
    if star && c = '/' then .ok { s with mode := .code }
    else .ok { s with
      mode := .blockComment start (c = '*')
      line := if c = '\n' then s.line + 1 else s.line }
  | .lineComment => if c = '\n' then { s with mode := .code }.code c else .ok s
  | .quoted quote start escaped =>
    if escaped then .ok { s.add c with mode := .quoted quote start false }
    else if c = quote then .ok { s.add c with mode := .code }
    else .ok { s.add c with
      mode := .quoted quote start (c = '\\')
      line := if c = '\n' then s.line + 1 else s.line }

/-- The scanner reads a text. -/
def run (s : Scanner) (t : Text) : Except ScanError Scanner :=
  t.foldlM step s

/-- What the scanner is inside of is closed by the end of the text. -/
def settle (s : Scanner) : Except ScanError Scanner :=
  match s.mode with
  | .code | .lineComment => .ok s
  | .slash => .ok (s.add '/')
  | .hash => .ok (s.add '#')
  | .blockComment start _ => .error ⟨.unterminatedComment, start⟩
  | .quoted _ start _ => .error ⟨.unterminatedString, start⟩

/-- The statements read, if the text may end here. -/
def finish (s : Scanner) : Except ScanError (List Statement) := do
  let s ← s.settle
  if 0 < s.interpolation then .error ⟨.unterminatedInterpolation, s.line⟩
  else match s.openBlocks with
    | openedAt :: _ => .error ⟨.unclosedBlock openedAt, s.line⟩
    | [] => .ok (s.emit false).found

end Scanner

/-- The statements of a stylesheet, from every depth, in the order in which they start. -/
def scan (source : Text) : Except ScanError (List Statement) := do
  (← Scanner.run {} source).finish

end StyleTokens
