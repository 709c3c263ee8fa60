import StyleTokens.Data.Ascending
import StyleTokens.Text.Basic

/-!
# The file that keeps a declaration

Directories are listed from the most to the least foundational. A path ranks by the first of its
directories that is listed, and behind all listed ones without. Of several files, the one with
the least rank keeps a declaration, and the first in order of those.

## Main definitions

* `Rank.ofPath`: the rank of a path
* `Rank.canonical?`: the file that keeps a declaration
-/

namespace StyleTokens.Rank

/-- The last position of a name in a list. -/
def position? (name : Text) : List Text → Option Nat
  | [] => none
  | other :: rest =>
    match position? name rest with
    | some i => some (i + 1)
    | none => if other = name then some 0 else none

/-- The directories of a path. -/
def directories (path : Text) : List Text :=
  ((Text.slashed path).splitOn '/').dropLast

/-- The rank of a path. -/
def ofPath (priority : List Text) (path : Text) : Nat :=
  ((directories path).findSome? fun segment => position? segment priority).getD priority.length

/-- The better of two files, the first unless the second has a lower rank. -/
def better (priority : List Text) (first second : Text) : Text :=
  if ofPath priority second < ofPath priority first then second else first

/-- The file that keeps a declaration, if there is any file. -/
def canonical? (priority files : List Text) : Option Text :=
  match Ascending.ofList files with
  | [] => none
  | file :: rest => some (rest.foldl (better priority) file)

end StyleTokens.Rank
