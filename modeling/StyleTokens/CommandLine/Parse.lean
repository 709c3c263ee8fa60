import StyleTokens.CommandLine.Word

/-!
# Reading a command line

The words are gone through from left to right. A flag acts on the record of choices; an option
with a value takes the value attached to it, or else the next word, which has to be one. Flags
with short names may be bundled behind one hyphen. Words that nothing takes are an error in the
end, unless help was asked for before.

## Main definitions

* `Request`: what a command line asks for
* `unbundle`: the options that one word stands for
* `parse`: the request of a command line
-/

namespace StyleTokens.CommandLine

/-- What a command line asks for. -/
inductive Request (σ : Type) where
  /-- To run with the choices made. -/
  | run (choices : σ)
  /-- To show help. -/
  | help

variable {σ : Type}

/-- The options that one word stands for, the last one with the value attached to it. -/
def unbundle (options : List (Named σ)) (choice : Choice σ) :
    Text → Except UsageError (List (Choice σ × Option Text))
  | [] => .ok [(choice, none)]
  | c :: rest =>
    if choice.takesValue then .ok [(choice, some (c :: rest))]
    else
      match Named.find? options ['-', c] with
      | none => .error (.unusedValue choice.label (c :: rest))
      | some next => do return (choice, none) :: (← unbundle options next.choice rest)

/-- The options that a word stands for. -/
def members (options : List (Named σ)) (choice : Choice σ) (short : Bool) :
    Option Text → Except UsageError (List (Choice σ × Option Text))
  | none => .ok [(choice, none)]
  | some attached =>
    if choice.takesValue then .ok [(choice, some attached)]
    else if short && !attached.isEmpty then unbundle options choice attached
    else .error (.unusedValue choice.label attached)

/-- The choices behind some options, and whether the next word was taken; nothing if help was
asked for. -/
def applyAll (next : Option (Word σ)) :
    List (Choice σ × Option Text) → σ → Except UsageError (Option (σ × Bool))
  | [], s => .ok (some (s, false))
  | (choice, attached) :: rest, s =>
    match choice.effect, attached, next with
    | .help, _, _ => .ok none
    | .flag apply, _, _ => applyAll next rest (apply s)
    | .value apply, some t, _ => do
      let change ← (apply (givenValue t)).mapError (.refused choice.label)
      return some (change s, false)
    | .value apply, none, some (.plain t) => do
      let change ← (apply (givenValue t)).mapError (.refused choice.label)
      return some (change s, true)
    | .value _, none, _ => .error (.noValue choice.label)

/-- The request of the words left, given the choices made and the words that nothing took;
`taken` tells that the first word is taken already. -/
def consume (options : List (Named σ)) (taken : Bool) :
    List (Word σ) → σ → List Text → Except UsageError (Request σ)
  | [], s, extras => if extras.isEmpty then .ok (.run s) else .error (.unrecognized extras)
  | word :: rest, s, extras =>
    if taken then consume options false rest s extras
    else
      match word with
      | .plain t => consume options false rest s (extras ++ [t])
      | .unknown t => consume options false rest s (extras ++ [t])
      | .separator => consume options false rest s (extras ++ ["--".toList])
      | .option choice short attached => do
        let met ← members options choice short attached
        match ← applyAll rest.head? met s with
        | none => return .help
        | some (s, taken) => consume options taken rest s extras

/-- The request of a command line, given the choices made by default. -/
def parse (choices : List (Choice σ)) (default : σ) (arguments : List Text) :
    Except UsageError (Request σ) := do
  let options := Named.all (.help :: choices)
  consume options false (← Word.classify options arguments) default []

end StyleTokens.CommandLine
