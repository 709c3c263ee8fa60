import StyleTokens.Baseline
import StyleTokens.Json.Reader
import StyleTokens.RenameMap
import StyleTokens.Report.Reader
import StyleTokens.Text.Lines
import StyleTokens.Text.Unpaired
import StyleTokens.World

/-!
# Reading audit files

The files that one command leaves for another: the baseline, the duplicate report and the rename
map. In all of them a carriage return ends a line as a line feed does. The names in a JSON file may
hold unpaired surrogates, which no file can hold, and which are not told apart from the private-use
characters that stand for them.

## Main definitions

* `FileTree.readLines`: a text with line feeds only
* `loadBaseline`, `loadRenameMap`, `readReport`, `loadReport`: the files
* `Baseline.checkNames`: names that can be stored again
-/

namespace StyleTokens

/-- The text of a file, with a line feed at the end of every line. -/
def FileTree.readLines (tree : FileTree) (path : Path) : Except Refusal Text :=
  (tree.readText path).map Text.unifyBreaks

/-- A failure for want of input, with its cause. -/
def Failure.because (t : Text) (path : Path) (cause : Text) : Failure :=
  .input (.because (t ++ path.text ++ ": ".toList) cause)

/-- The JSON value of a file; `what` names the file in messages. -/
def loadJson (what : Text) (path : Path) : Action Json.Value := do
  let failure := Failure.because (what ++ " is not valid JSON: ".toList) path
  let t ← Action.ofExcept (fun refusal => failure refusal.words) ((← Action.tree).readLines path)
  match Json.read t with
  | .ok v => return v
  | .error .malformed => throw (failure "no JSON document".toList)
  | .error (.tooLong digits) => throw (.integerTooLong digits)
  | .error .tooDeep => throw .tooDeep

/-- The baseline in a file. -/
def loadBaseline (path : Path) : Action Baseline := do
  if !(← Action.isFile path) then
    throw (.input (.ofText ("Baseline not found: ".toList ++ path.text ++
      " (run token-audit-scan first)".toList)))
  match ← loadJson "Baseline".toList path with
  | .object members =>
    match Baseline.ofMembers members with
    | .ok baseline => return baseline
    | .error (.invalid problems) => throw (.invalid "FileInventory".toList problems)
    | .error .notObject => throw .notEntry
  | _ => throw (.input (.ofText ("Baseline must be a JSON object: ".toList ++ path.text)))

/-- What is wrong with a name from a file. A name with a private-use character that stands for an
unpaired surrogate is refused, although it has an encoding if the character is a genuine one. -/
def nameFault? (name : Text) : Option Field.Fault :=
  if name.isEmpty then some .textTooShort
  else if name.isWhole then none
  else some .textNotEncoded

/-- The names of one kind in a baseline from a file are not empty and have an encoding. -/
def Baseline.checkNames (baseline : Baseline) (kind : TokenKind) : Checked Unit :=
  match baseline.files.findSome? fun (_, inventory) => (inventory.names kind).findSome? nameFault? with
  | some fault => .error [⟨["name".toList], fault⟩]
  | none => .ok ()

/-- The old and new names in a JSON object of texts. -/
def namePairs? : Json.Value → Option (List (Text × Text))
  | .object members => members.mapM fun (old, v) => v.text?.map fun new => (old, new)
  | _ => none

/-- The rename map in a file. -/
def loadRenameMap (path : Path) : Action RenameMap := do
  if !(← Action.isFile path) then
    throw (.input (.ofText ("Mapping file not found: ".toList ++ path.text)))
  match namePairs? (← loadJson "Mapping file".toList path) with
  | some pairs => return .ofPairs pairs
  | none => throw (.input (.ofText
    ("Mapping file must be an object of name -> name: ".toList ++ path.text)))

/-- The text of a report. -/
def readReport (path : Path) : Action Text := do
  if !(← Action.isFile path) then
    throw (.input (.ofText ("Cannot read report at ".toList ++ path.text)))
  Action.ofExcept (fun refusal => .because "Report is not valid UTF-8: ".toList path refusal.words)
    ((← Action.tree).readLines path)

/-- The groups of a report, with a warning for each that is left out. -/
def loadReport (path : Path) : Action (List Group) := do
  let t ← readReport path
  (Report.warnings t).forM fun warning => Action.warn (.ofText warning)
  return Report.read t

end StyleTokens
