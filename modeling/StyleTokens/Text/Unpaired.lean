import StyleTokens.Text.Basic

/-!
# Unpaired surrogates

An escape in a JSON document may spell a surrogate without its partner. That is a code point, but
no character, and no file can hold it. In a text that was read from such a document, the
private-use character `0x100000` places further on stands for it.

There are fewer characters than code points, so these private-use characters, from `0x10d800` to
`0x10dfff`, are given up: a text with a genuine one of them is taken for a text with an unpaired
surrogate wherever the two are told apart.

## Main definitions

* `unpaired`: the character that stands for a surrogate
* `Text.isWhole`: whether a text holds no such character
-/

namespace StyleTokens

/-- The character that stands for an unpaired surrogate. -/
def unpaired (surrogate : Nat) : Char :=
  Char.ofNat (0x100000 + surrogate)

/-- Whether a character stands for an unpaired surrogate, or is a genuine one of those that do. -/
def isUnpaired (c : Char) : Bool :=
  0x10d800 ≤ c.toNat && c.toNat < 0x10e000

/-- Whether no character of the text stands for an unpaired surrogate, so that a file can hold the
text. A file can also hold the genuine private-use characters from `0x10d800` to `0x10dfff`, but a
text with one of them is not whole either. -/
def Text.isWhole (t : Text) : Bool :=
  t.all fun c => !isUnpaired c

end StyleTokens
