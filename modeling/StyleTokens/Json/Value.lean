import StyleTokens.Text.Basic

/-!
# JSON values

The values of a JSON document. The members of an object keep the order of the document.

## Main definitions

* `Json.Number`, `Json.Value`: numbers and values
-/

namespace StyleTokens.Json

/-- A number of a document. -/
inductive Number where
  /-- A number written without fraction and exponent. -/
  | integer (n : Int)
  /-- The number `digits * 10 ^ power`, negative or not. -/
  | decimal (negative : Bool) (digits : Nat) (power : Int)
  /-- An infinity. -/
  | infinity (negative : Bool)
  /-- Not a number. -/
  | undefined
  deriving DecidableEq, Repr

/-- A value of a document. -/
inductive Value where
  /-- `null` -/
  | null
  /-- `true` or `false` -/
  | bool (b : Bool)
  /-- A number. -/
  | number (n : Number)
  /-- A text. -/
  | text (t : Text)
  /-- A list of values. -/
  | array (items : List Value)
  /-- Members in the order of the document. -/
  | object (members : List (Text × Value))
  deriving Repr, Inhabited

namespace Value

/-- An integer as a value. -/
def ofInt (n : Int) : Value :=
  .number (.integer n)

/-- A list of texts as a value. -/
def ofTexts (ts : List Text) : Value :=
  .array (ts.map .text)

/-- The text of a value that is one. -/
def text? : Value → Option Text
  | .text t => some t
  | _ => none

end Value

end StyleTokens.Json
