import StyleTokens.Text.Basic

/-!
# Messages

A message to the user is a line of text. Some lines end in words that the surroundings decide:
the operating system's word for a failure, or a measured time. Such a line keeps them apart.

## Main definitions

* `Circumstance`: words decided by the surroundings
* `Message`: a line, with its circumstance if it has one
-/

namespace StyleTokens

/-- Words that the surroundings decide. -/
inductive Circumstance where
  /-- Why something failed. -/
  | cause (words : Text)
  /-- How long something took. -/
  | duration (words : Text)
  deriving DecidableEq, Repr

/-- The words of a circumstance. -/
def Circumstance.words : Circumstance → Text
  | .cause words => words
  | .duration words => words

/-- A line of text for the user. -/
structure Message where
  /-- The words that the program decides. -/
  head : Text
  /-- The words that the surroundings decide. -/
  circumstance : Option Circumstance := none
  /-- What stands behind them. -/
  close : Text := []
  deriving DecidableEq, Repr

namespace Message

/-- A message without circumstances. -/
def ofText (t : Text) : Message where
  head := t

/-- A message that ends in the cause of a failure. -/
def because (t cause : Text) : Message where
  head := t
  circumstance := some (.cause cause)

/-- The message with more words in front. -/
def after (t : Text) (m : Message) : Message :=
  { m with head := t ++ m.head }

/-- The message as it is shown. -/
def text (m : Message) : Text :=
  m.head ++ (m.circumstance.map Circumstance.words).getD [] ++ m.close

end Message

end StyleTokens
