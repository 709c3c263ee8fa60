import StyleTokens.Text.Basic

/-!
# Paths

A path is a root, which is empty for a relative path, and the segments behind it. Empty segments
and single dots are left out, and double dots are kept: what they lead to is decided by the files
that are there. Only where a path is shown relative to another one are they resolved in the text.

## Main definitions

* `Path`: a path
* `Path.parse`, `Path.text`: paths as texts
* `Path.append`, `Path.parent`, `Path.name`: paths of other files
* `Path.under?`: the segments of a path under another one
* `Path.relative`: a path as it is shown from another one
* `Path.isProtected`: whether a path lies in one of some directories
-/

namespace StyleTokens

/-- A path. -/
structure Path where
  /-- The slashes in front of an absolute path: none, one or two. -/
  root : Text
  segments : List Text
  deriving DecidableEq, Repr

namespace Path

/-- The segment that leads to the parent. -/
def up : Text :=
  "..".toList

/-- The segments of a text, without the empty ones and the single dots. -/
def segmentsOf (t : Text) : List Text :=
  (t.splitOn '/').filter fun segment => !segment.isEmpty && segment ≠ ['.']

/-- The slashes in front of a path: two are kept, and more than two count as one. -/
def rootOf (t : Text) : Text :=
  let slashes := t.takeWhile (· = '/')
  if slashes.length < 3 then slashes else ['/']

/-- The path that a text spells. -/
def parse (t : Text) : Path where
  root := rootOf t
  segments := segmentsOf t

/-- The segments as a text, a dot if there are none. -/
def textOf (segments : List Text) : Text :=
  if segments.isEmpty then ['.'] else Text.joined ['/'] segments

/-- The path as a text. -/
def text (path : Path) : Text :=
  if path.root.isEmpty then textOf path.segments
  else path.root ++ Text.joined ['/'] path.segments

/-- Whether the path is absolute. -/
def isAbsolute (path : Path) : Bool :=
  !path.root.isEmpty

/-- The second path, seen from the first one. -/
def append (path other : Path) : Path :=
  if other.isAbsolute then other else { path with segments := path.segments ++ other.segments }

/-- The path with one more segment. -/
def child (path : Path) (segment : Text) : Path :=
  { path with segments := path.segments ++ [segment] }

/-- The path without its last segment. -/
def parent (path : Path) : Path :=
  { path with segments := path.segments.dropLast }

/-- The last segment, empty if there is none. -/
def name (path : Path) : Text :=
  path.segments.getLastD []

/-- The segments of a path that stands under a base, behind those of the base. -/
def under? (path base : Path) : Option (List Text) :=
  if path.root = base.root then base.segments.isPrefixOf? path.segments else none

/-- The segments from the top, given those of the working directory. -/
def absolute (working : List Text) (path : Path) : List Text :=
  if path.isAbsolute then path.segments else working ++ path.segments

/-- One more segment behind resolved ones; a double dot takes the last one away. -/
def resolveStep (done : List Text) (segment : Text) : List Text :=
  if segment = up then done.dropLast else done ++ [segment]

/-- The segments with all double dots resolved. -/
def resolved (segments : List Text) : List Text :=
  segments.foldl resolveStep []

/-- The second list of segments as it is reached from the first one. -/
def steps : List Text → List Text → List Text
  | [], target => target
  | base, [] => base.map fun _ => up
  | b :: base, t :: target =>
    if b = t then steps base target else (b :: base).map (fun _ => up) ++ t :: target

/-- The path as it is shown from a base. -/
def relative (working : List Text) (path base : Path) : Text :=
  textOf (steps (resolved (base.absolute working)) (resolved (path.absolute working)))

/-- The text that a protected directory is compared with: without slashes at its ends, and with
slashes for backslashes. -/
def protectedText (directory : Text) : Text :=
  Text.slashed (Text.trimWhile (· = '/') directory)

/-- Whether a relative path is a directory or lies in it. -/
def isInside (directory relative : Text) : Bool :=
  !directory.isEmpty && (relative = directory || (directory ++ ['/']).isPrefixOf relative)

/-- Whether the path lies in one of the protected directories of a root. -/
def isProtected (path root : Path) (directories : List Text) : Bool :=
  match path.under? root with
  | none => false
  | some segments => directories.any fun directory => isInside (protectedText directory) (textOf segments)

end Path

end StyleTokens
