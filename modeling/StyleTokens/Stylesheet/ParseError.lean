import StyleTokens.Message
import StyleTokens.Stylesheet.Scanner

/-!
# Stylesheets that cannot be read

## Main definitions

* `ParseError`: why a stylesheet cannot be read, with its path and line if they are known
* `ParseError.message`: the words for it
-/

namespace StyleTokens

/-- Why a stylesheet cannot be read. -/
structure ParseError where
  reason : Message
  path : Option Text := none
  /-- The line on which it shows. -/
  line : Option Nat := none
  deriving DecidableEq, Repr

namespace ParseError

/-- The error of the stylesheet at a path. -/
def ofScan (path : Option Text) (e : ScanError) : ParseError where
  reason := .ofText e.cause.reason
  path := path
  line := some e.line

/-- The same error at another path. -/
def withPath (e : ParseError) (path : Text) : ParseError :=
  { e with path := some path }

/-- Where the error is: the path, or a stand-in for a text without one, and the line. -/
def location (e : ParseError) : Text :=
  let place := match e.path with
    | some (c :: cs) => c :: cs
    | _ => "<string>".toList
  match e.line with
  | some n => place ++ ':' :: Text.ofNat n
  | none => place

/-- The words for the error. -/
def message (e : ParseError) : Message :=
  e.reason.after (e.location ++ ": ".toList)

end ParseError

end StyleTokens
