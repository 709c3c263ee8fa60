import StyleTokens.Field
import StyleTokens.FileTree
import StyleTokens.Message
import StyleTokens.Settings

/-!
# Actions on a file tree

A command reads and changes a file tree, and writes lines to its two outputs. It may fail, and
what it did before stays done.

## Main definitions

* `Failure`: why an action fails
* `World`: what an action changes
* `Action`: a step of a command
* `Action.print`, `Action.warn`, `Action.store`: lines and files
* `Action.given`: the value of an option, which may be missing
* `Action.reported`, `Action.reportedInput`: failures shown to the user
-/

namespace StyleTokens

/-- Why an action fails. -/
inductive Failure where
  /-- A required input is missing or unreadable. -/
  | input (message : Message)
  /-- The file system refuses an operation. -/
  | refused (refusal : Refusal)
  /-- A record has problems. -/
  | invalid (record : Text) (problems : List Field.Problem)
  /-- An entry of a baseline is no object. -/
  | notEntry
  /-- An integer in a document has too many digits. -/
  | integerTooLong (digits : Nat)
  /-- A document has too many brackets inside one another. -/
  | tooDeep
  /-- An option that is needed was given no value. -/
  | noValue
  /-- The decision for all groups was given no value. -/
  | noMode
  /-- The decision for a single name, at some position among such, was given no value. -/
  | noOverride (position : Nat)
  deriving DecidableEq, Repr

namespace Failure

/-- The words for a failure. -/
def words : Failure → Text
  | .input message => message.text
  | .refused refusal => refusal.words
  | .invalid record problems => Field.summary record problems
  | .notEntry => "an entry of the baseline is no object".toList
  | .integerTooLong digits => digitsMessage digits
  | .tooDeep => "too many brackets inside one another".toList
  | .noValue => "an option has no value".toList
  | .noMode => "[] is not a valid Disposition".toList
  | .noOverride position => "dictionary update sequence element #".toList ++ Text.ofNat position ++
    " has length 0; 2 is required".toList

end Failure

/-- What an action changes. -/
structure World where
  tree : FileTree
  out : List Message := []
  /-- The lines of the error output. -/
  err : List Message := []
  deriving DecidableEq, Repr

/-- A step of a command. -/
abbrev Action (α : Type) := ExceptT Failure (StateM World) α

/-- What an action knows beside the files. -/
structure Surroundings where
  settings : Settings
  env : Environment := []
  /-- How many milliseconds the work on a file took. -/
  took : Text → Float := fun _ => 0

namespace Action

/-- A line of the output. -/
def print (message : Message) : Action Unit :=
  modify fun world => { world with out := world.out ++ [message] }

/-- A line of the output without circumstances. -/
def printText (t : Text) : Action Unit :=
  print (.ofText t)

/-- A line of the error output. -/
def warn (message : Message) : Action Unit :=
  modify fun world => { world with err := world.err ++ [message] }

/-- The files. -/
def tree : Action FileTree :=
  return (← get).tree

/-- Other files in place of the files. -/
def setTree (tree : FileTree) : Action Unit :=
  modify fun world => { world with tree := tree }

/-- A value, or the failure in its place. -/
def ofExcept {ε α : Type} (failure : ε → Failure) : Except ε α → Action α
  | .ok a => pure a
  | .error e => throw (failure e)

/-- Whether there is a directory at the path. -/
def isDirectory (path : Path) : Action Bool := do
  ofExcept .refused ((← tree).isDirectory path)

/-- Whether there is a file at the path. -/
def isFile (path : Path) : Action Bool := do
  ofExcept .refused ((← tree).isFile path)

/-- The tree that an operation leaves, and its failure. -/
def perform (operation : FileTree → FileTree × Except Refusal Unit) : Action Unit := do
  let (tree, result) := operation (← tree)
  setTree tree
  ofExcept .refused result

/-- A text at a path, if the text has an encoding. -/
def storeIf (storable : Bool) (path : Path) (t : Text) : Action Unit :=
  perform fun tree => tree.replaceFile path t storable

/-- A text at a path. -/
def store (path : Path) (t : Text) : Action Unit :=
  storeIf true path t

/-- A directory at a path. -/
def makeDirectories (path : Path) : Action Unit :=
  perform fun tree => tree.makeDirectories path

/-- The path that an option gives. -/
def given : Option Text → Action Path
  | some t => return Path.parse t
  | none => throw .noValue

/-- A path as it is shown from the working directory. -/
def shown (path : Path) : Action Text :=
  return path.relative (← tree).working ⟨[], []⟩

/-- The line for a missing or unreadable input. -/
def inputLine (message : Message) : Message :=
  message.after "Error: ".toList

/-- The exit code of an action; a failure for want of input is shown, and all others are left to
the caller. -/
def reportedInput (action : Action Unit) : Action Nat :=
  tryCatch (do action; return 0) fun
    | .input message => do
      warn (inputLine message)
      return 1
    | failure => throw failure

/-- The exit code of an action, of which every failure is shown. -/
def reported (stage : String) (action : Action Unit) : Action Nat :=
  tryCatch (reportedInput action) fun failure => do
    warn (.because ("Error in ".toList ++ stage.toList ++ " stage: ".toList) failure.words)
    return 1

end Action

end StyleTokens
