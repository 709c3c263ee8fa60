import StyleTokens.Data.Ascending
import StyleTokens.Field
import StyleTokens.Json.Writer
import StyleTokens.Prune

/-!
# Alias plans

An alias plan records which tokens were deleted from which files, so that aliases for them can be
added by hand.

## Main definitions

* `AliasPlan`: the deleted tokens of every file
* `AliasPlan.record`: one more deleted token
* `AliasPlan.json`: the plan as a JSON document
-/

namespace StyleTokens

/-- The deleted tokens of every file, in the order in which they were recorded. -/
structure AliasPlan where
  /-- The tokens by path. -/
  removed : Entries Text (List Text) := []
  deriving DecidableEq, Repr

namespace AliasPlan

/-- The plan with one more token; a token that is there already is not recorded twice. -/
def record (plan : AliasPlan) (path token : Text) : AliasPlan where
  removed := plan.removed.modify path fun names => addOnce token (names.getD [])

/-- The plan with several tokens of one file. -/
def recordAll (plan : AliasPlan) (path : Text) (tokens : List Text) : AliasPlan :=
  tokens.foldl (fun plan token => plan.record path token) plan

/-- The plan that a JSON object starts with. -/
def ofValue (v : Json.Value) : Checked AliasPlan :=
  ((Field.textsMembers v).inside "removed".toList).map fun entries => ⟨Entries.ofList entries⟩

/-- The number of tokens in the plan. -/
def size (plan : AliasPlan) : Nat :=
  (plan.removed.flatMap Prod.snd).length

/-- A list of texts in ascending order. -/
def sorted (names : List Text) : List Text :=
  names.mergeSort fun a b => !decide (b < a)

/-- The plan as a JSON document, with paths and tokens in ascending order. -/
def json (plan : AliasPlan) : Text :=
  Json.document (.object ((Table.ofList plan.removed).map fun (path, names) =>
    (path, .ofTexts (sorted names))))

end AliasPlan

end StyleTokens
