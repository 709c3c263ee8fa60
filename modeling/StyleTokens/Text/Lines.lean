import StyleTokens.Text.Basic

/-!
# Lines

A text falls into lines, each with the characters that end it. Ten characters end a line, and a
carriage return followed by a line feed ends it once; the last line of a text may have no ending.

## Main definitions

* `isLineBreak`: the characters that end a line
* `Line`: the body of a line and its ending
* `Text.lines`: the lines of a text
* `Text.unifyBreaks`: a text whose carriage returns are line feeds

## Main results

* `Text.flatMap_lines`: the lines of a text, one after another, are the text
-/

namespace StyleTokens

/-- The characters that end a line. -/
def isLineBreak (c : Char) : Bool :=
  let n := c.toNat
  (10 ≤ n && n ≤ 13) || (0x1c ≤ n && n ≤ 0x1e) || n == 0x85 || n == 0x2028 || n == 0x2029

/-- A line: its characters, and the line break behind them. -/
structure Line where
  /-- The characters before the line break. -/
  body : Text
  /-- The line break, empty at the end of a text. -/
  ending : Text
  deriving DecidableEq, Repr

namespace Line

/-- The line as it stands in its text. -/
def source (line : Line) : Text :=
  line.body ++ line.ending

end Line

namespace Text

/-- The lines with one more character in front of the first. -/
def consLine (c : Char) : List Line → List Line
  | [] => [⟨[c], []⟩]
  | line :: rest => ⟨c :: line.body, line.ending⟩ :: rest

/-- The lines of a text. -/
def lines : Text → List Line
  | [] => []
  | '\r' :: '\n' :: rest => ⟨[], ['\r', '\n']⟩ :: lines rest
  | c :: rest => if isLineBreak c then ⟨[], [c]⟩ :: lines rest else consLine c (lines rest)

/-- The text with a line feed for every carriage return and for every carriage return followed
by a line feed. -/
def unifyBreaks : Text → Text
  | [] => []
  | '\r' :: '\n' :: rest => '\n' :: unifyBreaks rest
  | c :: rest => (if c = '\r' then '\n' else c) :: unifyBreaks rest

theorem flatMap_consLine (c : Char) (ls : List Line) :
    (consLine c ls).flatMap Line.source = c :: ls.flatMap Line.source := by
  cases ls <;> simp [consLine, Line.source]

/-- No character is lost when a text falls into lines. -/
theorem flatMap_lines (t : Text) : t.lines.flatMap Line.source = t := by
  fun_induction lines t with
  | case1 => rfl
  | case2 rest ih => simp [Line.source, ih]
  | case3 c rest _ _ ih => simp [Line.source, ih]
  | case4 c rest _ _ ih => simp [flatMap_consLine, ih]

end Text

end StyleTokens
