import StyleTokens.Text.Blank
import StyleTokens.Text.Digit

/-!
# Integers in texts

An integer may have blanks around it, a sign in front, and single underscores between its
digits. The digits may be those of any script. There is a limit to their number.

## Main definitions

* `isPadding`: the blanks that may stand around an integer
* `IntegerFault`: why a text is no integer
* `Text.digits?`: the value of a run of digits
* `Text.integer`: the value of an integer
-/

namespace StyleTokens

/-- What may stand around an integer: the blanks other than the information separators. -/
def isPadding (c : Char) : Bool :=
  isBlank c && !(28 ≤ c.toNat && c.toNat ≤ 31)

/-- The greatest number of digits of an integer. -/
def digitLimit : Nat :=
  4300

/-- Why a text is no integer. -/
inductive IntegerFault where
  /-- It does not spell one. -/
  | malformed
  /-- It has too many digits. -/
  | tooLong (digits : Nat)
  deriving DecidableEq, Repr

namespace Text

/-- The value of the digits behind a number already read; `closed` tells that the last character
was a digit, so that an underscore or the end may follow. -/
def digitsAfter : Nat → Bool → Text → Option Nat
  | n, closed, [] => if closed then some n else none
  | n, closed, c :: cs =>
    if c = '_' then if closed then digitsAfter n false cs else none
    else (digitValue? c).bind fun d => digitsAfter (10 * n + d) true cs

/-- The value of a run of digits with single underscores between them. -/
def digits? (t : Text) : Option Nat :=
  digitsAfter 0 false t

/-- Whether a character may stand in a run of digits. -/
def isDigitOrMark (c : Char) : Bool :=
  c = '_' || (digitValue? c).isSome

/-- The value of the digits up to the padding at the end of the text. -/
def unsigned (t : Text) : Except IntegerFault Nat :=
  let run := t.takeWhile isDigitOrMark
  let count := (run.filter (· ≠ '_')).length
  match digits? run with
  | none => .error .malformed
  | some n =>
    if digitLimit < count then .error (.tooLong count)
    else if (t.dropWhile isDigitOrMark).all isPadding then .ok n
    else .error .malformed

/-- The integer that the text spells. -/
def integer (t : Text) : Except IntegerFault Int :=
  match t.dropWhile isPadding with
  | '-' :: rest => (unsigned rest).map fun n => -(n : Int)
  | '+' :: rest => (unsigned rest).map fun n => (n : Int)
  | rest => (unsigned rest).map fun n => (n : Int)

end Text

end StyleTokens
