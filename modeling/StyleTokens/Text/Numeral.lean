import StyleTokens.Text.Integer

/-!
# Numerals

A numeral is an integer as it stands in a document: a minus sign or none, and ASCII digits, of
which the first is zero only if it is the last. A text is read as a numeral with leniency: if it
is none, then what may be too much is taken away, and the rest is read again. That is, in this
order, the padding around it, a plus sign, the zeros in front with underscores among them, also
behind a minus sign, a fraction of zeros, and single underscores.

## Main definitions

* `Text.numeral`: the value of a numeral
* `Text.tidied?`: the text without what may be too much
* `Text.lenientNumeral`: the value of a text read with leniency
-/

namespace StyleTokens.Text

/-- The digits from one to nine. -/
def isLeadingDigit (c : Char) : Bool :=
  '1' ≤ c && c ≤ '9'

/-- The number spelled by ASCII digits. -/
def digitsValue (digits : Text) : Nat :=
  digits.foldl (fun n c => 10 * n + (c.toNat - 48)) 0

/-- The value of the digits of a numeral, whose sign takes `places` places. -/
def magnitude (places : Nat) : Text → Except IntegerFault Nat
  | [] => .error .malformed
  | ['0'] => .ok 0
  | c :: cs =>
    if !isLeadingDigit c then .error .malformed
    else
      let run := c :: cs.takeWhile Char.isDigit
      if digitLimit < places + run.length then .error (.tooLong run.length)
      else if (cs.dropWhile Char.isDigit).isEmpty then .ok (digitsValue run)
      else .error .malformed

/-- The value of a numeral. -/
def numeral : Text → Except IntegerFault Int
  | '-' :: t => (magnitude 1 t).map fun n => -(n : Int)
  | t => (magnitude 0 t).map fun n => (n : Int)

/-- The text without a plus sign in front, behind which no minus sign may follow. -/
def dropPlus? : Text → Option Text
  | '+' :: '-' :: _ => none
  | '+' :: t => some t
  | t => some t

/-- Whether a character may stand among the zeros in front. -/
def isZeroOrMark (c : Char) : Bool :=
  c = '0' || c = '_'

/-- The text without the zeros in front and the underscores among them. The last of them stays if
nothing or a point follows. -/
def dropLeadingZeros? (t : Text) : Option Text :=
  let zeros := if t.head? = some '0' then t.takeWhile isZeroOrMark else []
  match t.drop zeros.length with
  | [] => if zeros.isEmpty then none else some [zeros.getLastD '0']
  | c :: rest =>
    if c = '-' || isLeadingDigit c then some (c :: rest)
    else if c = '.' && !zeros.isEmpty then some (zeros.getLastD '0' :: c :: rest)
    else none

/-- The text without the zeros in front, or behind a minus sign in front. -/
def dropZeros? : Text → Option Text
  | '-' :: t => (dropLeadingZeros? t).map ('-' :: ·)
  | t => dropLeadingZeros? t

/-- The text without a point followed by zeros only. -/
def dropZeroFraction (t : Text) : Text :=
  let fraction := (t.dropWhile (· ≠ '.')).drop 1
  if !fraction.isEmpty && fraction.all (· = '0') then t.takeWhile (· ≠ '.') else t

/-- The text without its underscores, if they stand alone and not at the ends. -/
def dropMarks (t : Text) : Text :=
  if t.head? = some '_' || t.getLast? = some '_' || mentions ['_', '_'] t then t
  else t.filter (· ≠ '_')

/-- The text without what may be too much in a numeral. -/
def tidied? (t : Text) : Option Text := do
  let t ← dropPlus? (t.trimWhile isPadding)
  let t ← dropZeros? t
  return dropMarks (dropZeroFraction t)

/-- The value of a text that is a numeral, or is one once tidied. -/
def lenientNumeral (t : Text) : Except IntegerFault Int :=
  match numeral t with
  | .error .malformed => ((tidied? t).map numeral).getD (.error .malformed)
  | result => result

end StyleTokens.Text
