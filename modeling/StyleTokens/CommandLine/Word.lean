import StyleTokens.CommandLine.Choice
import StyleTokens.Text.Digit

/-!
# The words of a command line

Every word is read before any option acts. A word names an option if it is one of the names, or
such a name with a value behind an equals sign, or a long name cut short that fits one name only,
or a short name with more behind it. Negative numbers and words with a space inside are values,
and all words behind a double hyphen are.

## Main definitions

* `Word`: what a word of a command line is
* `Word.classify`: the words of a command line
-/

namespace StyleTokens.CommandLine

/-- What a word of a command line is. -/
inductive Word (σ : Type) where
  /-- A value. -/
  | plain (t : Text)
  /-- The double hyphen behind which all words are values. -/
  | separator
  /-- An option, whether by a short name, and the value attached to it. -/
  | option (choice : Choice σ) (short : Bool) (attached : Option Text)
  /-- What looks like an option and is none. -/
  | unknown (t : Text)

/-- An option under one of its names. -/
structure Named (σ : Type) where
  name : Text
  choice : Choice σ

namespace Named

variable {σ : Type}

/-- The options under each of their names. -/
def all (choices : List (Choice σ)) : List (Named σ) :=
  choices.flatMap fun choice => choice.names.map fun name => ⟨name, choice⟩

/-- Whether the name has one hyphen only. -/
def isShort (named : Named σ) : Bool :=
  named.name[1]? ≠ some '-'

/-- The option as a word. -/
def word (named : Named σ) (attached : Option Text) : Word σ :=
  .option named.choice named.isShort attached

/-- The option with exactly the given name. -/
def find? (options : List (Named σ)) (name : Text) : Option (Named σ) :=
  options.find? fun named => named.name = name

end Named

namespace Word

variable {σ : Type}

/-- The text before the first equals sign, and the text behind it. -/
def splitValue (t : Text) : Text × Option Text :=
  if t.contains '=' then (t.takeWhile (· ≠ '='), some ((t.dropWhile (· ≠ '=')).drop 1))
  else (t, none)

/-- The options that a word may stand for, when it is not exactly one of their names. -/
def candidates (options : List (Named σ)) (t : Text) : List (Named σ × Option Text) :=
  if "--".toList.isPrefixOf t then
    let (start, attached) := splitValue t
    (options.filter fun named => start.isPrefixOf named.name).map fun named => (named, attached)
  else
    (options.filter fun named => named.name = t.take 2).map fun named => (named, some (t.drop 2))

/-- Whether all characters of a text are digits, and there is one. -/
def areDigits (t : Text) : Bool :=
  !t.isEmpty && t.all fun c => (digitValue? c).isSome

/-- Whether a text is a negative number. -/
def isNegativeNumber (t : Text) : Bool :=
  match t with
  | '-' :: number =>
    let number := if number.getLast? = some '\n' then number.dropLast else number
    let whole := number.takeWhile (· ≠ '.')
    match number.dropWhile (· ≠ '.') with
    | [] => areDigits whole
    | _ :: fraction => (whole.isEmpty || areDigits whole) && areDigits fraction
  | _ => false

/-- A word that is exactly a name, or a name with a value behind an equals sign. -/
def spelled? (options : List (Named σ)) (t : Text) : Option (Word σ) :=
  match Named.find? options t with
  | some named => some (named.word none)
  | none =>
    let (name, attached) := splitValue t
    if attached.isNone then none else (Named.find? options name).map fun named => named.word attached

/-- A word that starts with a hyphen and has more behind it. -/
def hyphened (options : List (Named σ)) (t : Text) : Except UsageError (Word σ) :=
  match spelled? options t with
  | some word => .ok word
  | none =>
    match candidates options t with
    | [(named, attached)] => .ok (named.word attached)
    | [] => .ok (if isNegativeNumber t || t.contains ' ' then .plain t else .unknown t)
    | several => .error (.ambiguous t (several.map fun (named, _) => named.name))

/-- A word in front of the separator. -/
def ofText (options : List (Named σ)) (t : Text) : Except UsageError (Word σ) :=
  match t with
  | '-' :: _ :: _ => hyphened options t
  | _ => .ok (.plain t)

/-- The words of a command line. -/
def classify (options : List (Named σ)) : List Text → Except UsageError (List (Word σ))
  | [] => .ok []
  | t :: rest =>
    if t = "--".toList then .ok (.separator :: rest.map .plain)
    else do
      let word ← ofText options t
      return word :: (← classify options rest)

end Word

end StyleTokens.CommandLine
