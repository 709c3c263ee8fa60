import StyleTokens.Text.Basic

/-!
# Blanks

White space in the sense of Unicode: the characters that separate words and lines, among them
the four information separators `U+001C` to `U+001F` and the next-line character, but neither
the zero-width space nor the byte order mark.

## Main definitions

* `isBlank`: white space
* `isIndent`: the two characters that indent a line, space and tab
* `Text.trim`: a text without the blanks at its ends
-/

namespace StyleTokens

/-- White space. -/
def isBlank (c : Char) : Bool :=
  let n := c.toNat
  (9 ≤ n && n ≤ 13) || (28 ≤ n && n ≤ 32) || n == 0x85 || n == 0xa0 || n == 0x1680 ||
    (0x2000 ≤ n && n ≤ 0x200a) || n == 0x2028 || n == 0x2029 || n == 0x202f || n == 0x205f ||
    n == 0x3000

/-- A space or a tab. -/
def isIndent (c : Char) : Bool :=
  c = ' ' || c = '\t'

namespace Text

/-- The text without the blanks at its two ends. -/
def trim (t : Text) : Text :=
  trimWhile isBlank t

/-- Whether the text holds nothing but blanks. -/
def allBlank (t : Text) : Bool :=
  t.all isBlank

/-- The parts of a comma-separated text, trimmed, without the empty ones. -/
def commaParts (t : Text) : List Text :=
  ((t.splitOn ',').map trim).filter fun part => !part.isEmpty

end Text

end StyleTokens
