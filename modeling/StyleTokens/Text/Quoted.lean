import StyleTokens.Text.Basic
import StyleTokens.Text.Printable
import StyleTokens.Text.Unpaired

/-!
# Quoted texts in messages

A message shows a text between single quotes, or between double quotes if it holds single ones
and no double one. The quote, the backslash and what cannot be shown are escaped.

## Main definitions

* `Text.quoted`: the text between quotes
* `Text.quotedList`: a list of quoted texts between brackets
-/

namespace StyleTokens.Text

/-- The quote that a text is shown in. -/
def quoteFor (t : Text) : Char :=
  if t.contains '\x27' && !t.contains '"' then '"' else '\x27'

/-- A character between the given quotes. One that stands for an unpaired surrogate is shown as the
surrogate, also if it is a genuine private-use character. -/
def escapeIn (quote c : Char) : Text :=
  if c = quote || c = '\\' then ['\\', c]
  else if c = '\t' then ['\\', 't']
  else if c = '\n' then ['\\', 'n']
  else if c = '\r' then ['\\', 'r']
  else if isPrintable c then [c]
  else if isUnpaired c then '\\' :: 'u' :: hex 4 (c.toNat - 0x100000)
  else if c.toNat < 0x100 then '\\' :: 'x' :: hex 2 c.toNat
  else if c.toNat < 0x10000 then '\\' :: 'u' :: hex 4 c.toNat
  else '\\' :: 'U' :: hex 8 c.toNat

/-- The text between quotes. -/
def quoted (t : Text) : Text :=
  let quote := quoteFor t
  quote :: t.flatMap (escapeIn quote) ++ [quote]

/-- The quoted texts between brackets. -/
def quotedList (ts : List Text) : Text :=
  '[' :: joined ", ".toList (ts.map quoted) ++ [']']

end StyleTokens.Text
