import StyleTokens.Report.Mark
import StyleTokens.Text.Lines
import StyleTokens.Text.Pieces

/-!
# Filling in decisions

The placeholders of a report are replaced by a decision: the one given for the first of the
group's names that has one, or else the decision for all. Nothing else changes, so a second run
finds nothing to do.

## Main definitions

* `Report.headerNames`: the names of a group's header
* `Report.placeholderRule`: the placeholder with the word in front of it
* `Report.fill`: the report with its placeholders filled, and their number
* `Override.parse`: a decision for one name, as `NAME=MODE`
-/

namespace StyleTokens

namespace Report

/-- The names in the header of a group; none if the line is no header. -/
def headerNames (line : Text) : List Text :=
  let line := Text.dropEndWhile (fun c => c = '\r' || c = '\n') line
  let hashes := line.takeWhile (· = '#')
  if hashes.length = 3 || hashes.length = 4 then
    match Text.afterBlanks? (line.dropWhile (· = '#')) with
    | none => []
    | some rest =>
      match "Token:".toList.isPrefixOf? rest <|> "Variants:".toList.isPrefixOf? rest with
      | none => []
      | some names => Text.commaParts names
  else []

/-- The word for a decision, blanks, and the placeholder. -/
def placeholderRule : Rule Unit := fun _ t => do
  let rest ← "Disposition:".toList.isPrefixOf? t
  let blanks := rest.takeWhile isBlank
  if blanks.isEmpty then none
  let _ ← placeholder.isPrefixOf? (rest.dropWhile isBlank)
  return ⟨"Disposition:".toList ++ blanks ++ placeholder, ()⟩

/-- The decision for a group with the given names. -/
def decision (mode : Disposition) (overrides : Entries Text Disposition) (names : List Text) :
    Disposition :=
  (names.findSome? fun name => overrides.get? name).getD mode

/-- The lines with their placeholders filled, and their number; `names` are those of the last
header. -/
def fillLines (mode : Disposition) (overrides : Entries Text Disposition) :
    List Text → List Line → Text × Nat
  | _, [] => ([], 0)
  | names, line :: rest =>
    let header := headerNames line.source
    let names := if header.isEmpty then names else header
    let words := "Disposition: ".toList ++ (decision mode overrides names).word
    let (filled, count) := fillLines mode overrides names rest
    (placeholderRule.replaced (fun _ => words) line.source ++ filled,
      placeholderRule.hitCount line.source + count)

/-- The report with its placeholders filled, and their number. -/
def fill (mode : Disposition) (overrides : Entries Text Disposition) (t : Text) : Text × Nat :=
  fillLines mode overrides [] t.lines

end Report

/-- Why a decision is refused. -/
inductive DecisionError where
  /-- The word is none of the dispositions. -/
  | notDisposition (word : Text)
  /-- A report cannot be filled with no decision. -/
  | unsetMode
  /-- The text is not of the form `NAME=MODE`. -/
  | notOverride (raw : Text)
  /-- The mode is none that may be decided. -/
  | notMode (mode : Text)
  deriving DecidableEq, Repr

namespace DecisionError

/-- The words for a refusal. -/
def message : DecisionError → Text
  | .notDisposition word => Text.quoted word ++ " is not a valid Disposition".toList
  | .unsetMode => "mode must be merge, alias or ignore".toList
  | .notOverride raw => "expected NAME=MODE, got ".toList ++ Text.quoted raw
  | .notMode mode => "mode must be one of ".toList ++
    Text.quotedList (Disposition.choices.map Disposition.word) ++ ", got ".toList ++
    Text.quoted mode

end DecisionError

/-- The disposition for a word. -/
def Disposition.parse (word : Text) : Except DecisionError Disposition :=
  match ofWord? word with
  | some d => .ok d
  | none => .error (.notDisposition word)

/-- The mode that a report can be filled with. -/
def Disposition.checkMode (d : Disposition) : Except DecisionError Disposition :=
  if d = .unset then .error .unsetMode else .ok d

/-- The text before the last `=`, and the text behind it. -/
def Override.split? (raw : Text) : Option (Text × Text) :=
  if raw.contains '=' then
    let mode := (raw.reverse.takeWhile (· ≠ '=')).reverse
    some (raw.take (raw.length - mode.length - 1), mode)
  else none

/-- The decision for a name, written `NAME=MODE`. -/
def Override.parse (raw : Text) : Except DecisionError (Text × Disposition) :=
  match split? raw with
  | some (c :: name, mode) =>
    match Disposition.choices.find? fun d => d.word = mode with
    | some d => .ok (c :: name, d)
    | none => .error (.notMode mode)
  | _ => .error (.notOverride raw)

end StyleTokens
