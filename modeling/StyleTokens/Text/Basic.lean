/-!
# Texts

A text is the list of its code points. Lengths, positions and the order of texts count code
points, so a text is compared with another one character by character.

## Main definitions

* `Text`: a text
* `Text.dropEndWhile`, `Text.trimWhile`: a text without the characters of a class at its ends
* `Text.swap`: a text with one character in place of another
* `Text.joined`: texts written one after another around a separator
* `Text.mentions`: whether a text occurs inside another
* `Text.ofNat`, `Text.ofInt`: decimal digits
* `Text.hex`: hexadecimal digits of a fixed number of places
-/

namespace StyleTokens

/-- A text, as the list of its code points. -/
abbrev Text := List Char

namespace Text

/-- The text without the characters of class `p` at its end. -/
def dropEndWhile (p : Char → Bool) (t : Text) : Text :=
  (t.reverse.dropWhile p).reverse

/-- The text without the characters of class `p` at its two ends. -/
def trimWhile (p : Char → Bool) (t : Text) : Text :=
  dropEndWhile p (t.dropWhile p)

/-- The text with `new` wherever it had `old`. -/
def swap (old new : Char) (t : Text) : Text :=
  t.map fun c => if c = old then new else c

/-- A path text with a slash wherever it had a backslash. -/
def slashed (t : Text) : Text :=
  swap '\\' '/' t

/-- The texts one after another, with `sep` between neighbours. -/
def joined (sep : Text) : List Text → Text
  | [] => []
  | [t] => t
  | t :: ts => t ++ sep ++ joined sep ts

/-- Whether `part` occurs somewhere in the text. -/
def mentions (part : Text) : Text → Bool
  | [] => part.isEmpty
  | c :: cs => part.isPrefixOf (c :: cs) || mentions part cs

/-- The decimal digits of a natural number. -/
def ofNat (n : Nat) : Text :=
  Nat.toDigits 10 n

/-- The decimal digits of an integer, behind a minus sign if it is negative. -/
def ofInt : Int → Text
  | .ofNat n => ofNat n
  | .negSucc n => '-' :: ofNat (n + 1)

/-- The last `width` hexadecimal digits of a number, in lower case. -/
def hex : Nat → Nat → Text
  | 0, _ => []
  | width + 1, n => hex width (n / 16) ++ [Nat.digitChar (n % 16)]

/-- The letter `s` of a plural, left out for one. -/
def plural (n : Nat) : Text :=
  if n = 1 then [] else ['s']

end Text

end StyleTokens
