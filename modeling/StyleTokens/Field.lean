import StyleTokens.Data.Entries
import StyleTokens.Decimal.Nearest
import StyleTokens.Json.Value
import StyleTokens.Text.Numeral

/-!
# Checked fields

A record is read from the members of a JSON object field by field. What is wrong with it is a
list of problems, in the order of the fields, each with the place where it shows: the name of the
field, then the positions or keys inside it. Reading is lenient: an integer may come as a flag,
as a number without fraction or as a numeral, and a flag as one of a few words. A decimal number
counts as the double-precision number nearest to it, and stands for an integer only within the
range of 64 bits.

## Main definitions

* `Field.Fault`, `Field.Problem`: what is wrong, and where
* `Checked`: a value or the problems that stand in its way
* `Field.text`, `Field.texts`, `Field.choice`, `Field.integer`, `Field.flag`: the readers
* `Field.required`, `Field.optional`: a member of an object
-/

namespace StyleTokens

namespace Field

/-- What can be wrong with a field. -/
inductive Fault where
  /-- The field is not there. -/
  | missing
  /-- It is no text. -/
  | notText
  /-- The text is too short. -/
  | textTooShort
  /-- The text has no encoding. -/
  | textNotEncoded
  /-- It is no list. -/
  | notList
  /-- It is no list, where the length of the list is part of the value. -/
  | notTuple
  /-- It is no object. -/
  | notObject
  /-- The list is too short. -/
  | listTooShort
  /-- It is none of the words to choose from. -/
  | notChoice
  /-- It is neither a number nor a text. -/
  | notInteger
  /-- The text spells no integer. -/
  | notIntegerText
  /-- The text has too many digits for an integer, or the number is too large for one. -/
  | integerTooLarge
  /-- The number is not finite. -/
  | notFinite
  /-- The number has a fraction. -/
  | fractional
  /-- The integer is too small. -/
  | belowMinimum
  /-- It is neither a flag nor a number nor a text. -/
  | notFlag
  /-- The number or text stands for no flag. -/
  | notFlagText
  /-- A rule of the record is broken. -/
  | rule (message : Text)
  deriving DecidableEq, Repr

/-- What is wrong with a field, and where. -/
structure Problem where
  /-- The name of the field, then the positions or keys inside it; empty for the whole record. -/
  place : List Text
  fault : Fault
  deriving DecidableEq, Repr

end Field

/-- A value, or the problems that stand in its way. -/
abbrev Checked (α : Type) := Except (List Field.Problem) α

namespace Checked

variable {α β : Type}

/-- A problem with the value itself. -/
def fail (fault : Field.Fault) : Checked α :=
  .error [⟨[], fault⟩]

/-- The problems are those of a part at the given place. -/
def inside (place : Text) : Checked α → Checked α
  | .ok a => .ok a
  | .error problems => .error (problems.map fun p => { p with place := place :: p.place })

/-- Both values, or the problems of both. -/
def both : Checked α → Checked β → Checked (α × β)
  | .ok a, .ok b => .ok (a, b)
  | .ok _, .error q => .error q
  | .error p, .ok _ => .error p
  | .error p, .error q => .error (p ++ q)

/-- All values, or the problems of all. -/
def all : List (Checked α) → Checked (List α)
  | [] => .ok []
  | a :: rest => (both a (all rest)).map fun (a, rest) => a :: rest

end Checked

namespace Field

open Json (Value)

variable {α : Type}

/-- A text. -/
def text (v : Value) : Checked Text :=
  match v.text? with
  | some t => .ok t
  | none => .fail .notText

/-- A text with at least one character. -/
def nonemptyText (v : Value) : Checked Text := do
  let t ← text v
  if t.isEmpty then .fail .textTooShort else return t

/-- A list of texts; `otherwise` is the fault of what is no list. -/
def texts (otherwise : Fault) : Value → Checked (List Text)
  | .array items =>
    .all (items.zipIdx.map fun (v, i) => (text v).inside (Text.ofNat i))
  | _ => .fail otherwise

/-- An object of texts. -/
def textMembers : Value → Checked (List (Text × Text))
  | .object members =>
    .all (members.map fun (key, v) => ((text v).inside key).map fun t => (key, t))
  | _ => .fail .notObject

/-- An object of lists of texts. -/
def textsMembers : Value → Checked (List (Text × List Text))
  | .object members =>
    .all (members.map fun (key, v) => ((texts .notList v).inside key).map fun ts => (key, ts))
  | _ => .fail .notObject

/-- One of a few words, as `word?` knows them. -/
def choice (word? : Text → Option α) (v : Value) : Checked α :=
  match v.text?.bind word? with
  | some a => .ok a
  | none => .fail .notChoice

/-- The integer that a numeral spells. -/
def integerText (t : Text) : Checked Int :=
  match t.lenientNumeral with
  | .ok n => .ok n
  | .error .malformed => .fail .notIntegerText
  | .error (.tooLong _) => .fail .integerTooLarge

/-- The least number that is too large for 64 bits with a sign. -/
def wordLimit : Int :=
  Int.pow 2 63

/-- The integer that a decimal number is. -/
def integerNumber (negative : Bool) (digits : Nat) (power : Int) : Checked Int :=
  match Binary.nearest? negative digits power with
  | none => .fail .notFinite
  | some b =>
    match b.integer? with
    | none => .fail .fractional
    | some n => if -wordLimit < n && n < wordLimit then .ok n else .fail .integerTooLarge

/-- An integer. -/
def integer : Value → Checked Int
  | .bool b => .ok (if b then 1 else 0)
  | .number (.integer n) => .ok n
  | .number (.decimal negative digits power) => integerNumber negative digits power
  | .number _ => .fail .notFinite
  | .text t => integerText t
  | _ => .fail .notInteger

/-- An integer of at least `least`. -/
def integerAtLeast (least : Int) (v : Value) : Checked Int := do
  let n ← integer v
  if n < least then .fail .belowMinimum else return n

/-- The words for a set flag. -/
def setWords : List Text :=
  ["1", "t", "true", "y", "yes", "on"].map String.toList

/-- The words for a flag that is not set. -/
def clearWords : List Text :=
  ["0", "f", "false", "n", "no", "off"].map String.toList

/-- The flag that an integer stands for. -/
def flagNumber (n : Int) : Checked Bool :=
  if n = 1 then .ok true
  else if n = 0 then .ok false
  else .fail .notFlagText

/-- The flag that a word stands for. -/
def flagWord (t : Text) : Checked Bool :=
  let word := t.map Char.toLower
  if setWords.contains word then .ok true
  else if clearWords.contains word then .ok false
  else .fail .notFlagText

/-- A flag. -/
def flag : Value → Checked Bool
  | .bool b => .ok b
  | .number (.integer n) =>
    if -wordLimit ≤ n && n < wordLimit then flagNumber n else .fail .notFlag
  | .number (.decimal negative digits power) =>
    match integerNumber negative digits power with
    | .ok n => flagNumber n
    | .error _ => .fail .notFlag
  | .text t => flagWord t
  | _ => .fail .notFlag

/-- A member that has to be there. -/
def required (members : List (Text × Value)) (name : Text) (reader : Value → Checked α) :
    Checked α :=
  (match Entries.get? name members with
    | some v => reader v
    | none => .fail .missing).inside name

/-- A member that may be left out for a default. -/
def optional (members : List (Text × Value)) (name : Text) (reader : Value → Checked α)
    (default : α) : Checked α :=
  (match Entries.get? name members with
    | some v => reader v
    | none => .ok default).inside name

end Field

end StyleTokens
