import StyleTokens.Text.Integer
import StyleTokens.Text.Quoted

/-!
# The options of a command line

An option has one or more names, of one hyphen and a letter or of two hyphens and a word. It is a
flag, or takes a value, which it may refuse. A double hyphen is no value: an option that is given
one has been named without a value.

## Main definitions

* `Choice`: an option, with what it does to a record of choices
* `givenValue`: the value that a text gives
* `ValueProblem`, `UsageError`: what can be wrong with a command line
-/

namespace StyleTokens.CommandLine

/-- Why an option refuses its value. -/
inductive ValueProblem where
  /-- It is no integer. -/
  | notInteger (value : Text)
  /-- It is none of the words to choose from. -/
  | notChoice (value : Text) (choices : List Text)
  /-- It breaks a rule of the option. -/
  | rule (message : Text)
  deriving DecidableEq, Repr

namespace ValueProblem

/-- The words for a refused value. -/
def message : ValueProblem → Text
  | .notInteger value => "invalid int value: ".toList ++ Text.quoted value
  | .notChoice value choices => "invalid choice: ".toList ++ Text.quoted value ++
    " (choose from ".toList ++ Text.joined ", ".toList (choices.map Text.quoted) ++ [')']
  | .rule message => message

end ValueProblem

/-- What an option does to a record of choices. -/
inductive Effect (σ : Type) where
  /-- It stands alone. -/
  | flag (apply : σ → σ)
  /-- It takes a value, which is missing if it was a double hyphen. -/
  | value (apply : Option Text → Except ValueProblem (σ → σ))
  /-- It asks for help. -/
  | help

/-- The value that a text gives: none if it is a double hyphen. -/
def givenValue (t : Text) : Option Text :=
  if t = "--".toList then none else some t

/-- An option. -/
structure Choice (σ : Type) where
  names : List Text
  effect : Effect σ

namespace Choice

variable {σ : Type}

/-- Whether the option takes a value. -/
def takesValue (choice : Choice σ) : Bool :=
  match choice.effect with
  | .value _ => true
  | _ => false

/-- The option as messages name it. -/
def label (choice : Choice σ) : Text :=
  Text.joined ['/'] choice.names

/-- The option that asks for help. -/
def help : Choice σ where
  names := ["-h".toList, "--help".toList]
  effect := .help

/-- An option that stands alone. -/
def flag (names : List String) (apply : σ → σ) : Choice σ where
  names := names.map String.toList
  effect := .flag apply

/-- An option with a text. -/
def text (name : String) (apply : Option Text → σ → σ) : Choice σ where
  names := [name.toList]
  effect := .value fun t => .ok (apply t)

/-- An option whose values are parsed. -/
def parsed {α : Type} (name : String) (parse : Text → Except ValueProblem α)
    (apply : Option α → σ → σ) : Choice σ where
  names := [name.toList]
  effect := .value fun
    | none => .ok (apply none)
    | some t => (parse t).map fun a => apply (some a)

/-- An option with an integer. -/
def integer (name : String) (apply : Option Int → σ → σ) : Choice σ :=
  parsed name (fun t => t.integer.mapError fun _ => .notInteger t) apply

end Choice

/-- What can be wrong with a command line. -/
inductive UsageError where
  /-- A shortened name fits several options. -/
  | ambiguous (word : Text) (names : List Text)
  /-- An option lacks its value. -/
  | noValue (label : Text)
  /-- A value is attached to a flag. -/
  | unusedValue (label value : Text)
  /-- A value is refused. -/
  | refused (label : Text) (problem : ValueProblem)
  /-- Words belong to no option. -/
  | unrecognized (words : List Text)
  deriving DecidableEq, Repr

namespace UsageError

/-- The words for an error about an option. -/
def about (label message : Text) : Text :=
  "argument ".toList ++ label ++ ": ".toList ++ message

/-- The words for an error. -/
def message : UsageError → Text
  | .ambiguous word names => "ambiguous option: ".toList ++ word ++ " could match ".toList ++
    Text.joined ", ".toList names
  | .noValue label => about label "expected one argument".toList
  | .unusedValue label value =>
    about label ("ignored explicit argument ".toList ++ Text.quoted value)
  | .refused label problem => about label problem.message
  | .unrecognized words => "unrecognized arguments: ".toList ++ Text.joined [' '] words

end UsageError

end StyleTokens.CommandLine
