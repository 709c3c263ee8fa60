import StyleTokens.Data.Ascending
import StyleTokens.Path

/-!
# File trees

The files and directories below a working directory, by their segments. A file holds a text, or
bytes that encode none. Files are written beside their place and then moved there, so that what
fails on the way leaves its traces. Names and paths have a greatest length, counted in bytes, and
hold no null character. The place of an entry above the working directory starts with double dots;
such an entry is kept, but it is no part of what is walked through or compared.

## Main definitions

* `Content`, `Node`, `FileTree`: files and directories
* `Refusal`: why an operation on a path fails
* `FileTree.locate`: where a path leads
* `FileTree.walk`: the files under a directory whose names have one of some endings
* `FileTree.makeDirectories`, `FileTree.replaceFile`: the changes, with what can fail
* `FileTree.altered`, `FileTree.gone`: what differs between two trees
-/

namespace StyleTokens

/-- The content of a file. -/
inductive Content where
  /-- An encoded text. -/
  | text (t : Text)
  /-- Bytes that encode no text. -/
  | binary (bytes : List UInt8)
  deriving DecidableEq, Repr

/-- An entry of a file tree. -/
inductive Node where
  /-- A directory. -/
  | directory
  /-- A file. -/
  | file (content : Content)
  deriving DecidableEq, Repr

/-- Why the file system refuses an operation on a path. -/
inductive Refusal where
  /-- There is nothing at the path. -/
  | notFound (path : Path)
  /-- A part of the path is a file. -/
  | notDirectory (path : Path)
  /-- There is a directory at the path. -/
  | isDirectory (path : Path)
  /-- There is something at the path. -/
  | occupied (path : Path)
  /-- The path leads out of a directory, and nothing can be moved there. -/
  | busy (path : Path)
  /-- The path has no last segment. -/
  | noName (path : Path)
  /-- The path or one of its segments is too long. -/
  | tooLong (path : Path)
  /-- The path holds a null character. -/
  | nullCharacter (path : Path)
  /-- The file holds no text. -/
  | notText (path : Path)
  /-- The text has no encoding. -/
  | noEncoding (path : Path)
  deriving DecidableEq, Repr

namespace Refusal

/-- The words for a refusal. -/
def words : Refusal → Text
  | .notFound path => "No such file or directory: ".toList ++ path.text
  | .notDirectory path => "Not a directory: ".toList ++ path.text
  | .isDirectory path => "Is a directory: ".toList ++ path.text
  | .occupied path => "File exists: ".toList ++ path.text
  | .busy path => "Device or resource busy: ".toList ++ path.text
  | .noName path => "Empty name: ".toList ++ path.text
  | .tooLong path => "File name too long: ".toList ++ path.text
  | .nullCharacter path => "Null character in path: ".toList ++ path.text
  | .notText path => "Not encoded in UTF-8: ".toList ++ path.text
  | .noEncoding path => "Cannot be encoded in UTF-8: ".toList ++ path.text

end Refusal

/-- The number of bytes of an encoded text. -/
def Text.byteSize (t : Text) : Nat :=
  (t.flatMap String.utf8EncodeChar).length

/-- The entries below a working directory. -/
structure FileTree where
  /-- The segments of the working directory itself. -/
  working : List Text
  /-- The entries by their segments below it. -/
  nodes : Table (List Text) Node := []
  deriving DecidableEq, Repr

namespace FileTree

/-- The greatest number of bytes of a segment. -/
def segmentLimit : Nat :=
  255

/-- The greatest number of bytes of a path. -/
def pathLimit : Nat :=
  4095

/-- Whether a place is the working directory or a directory above it. -/
def isAbove (place : List Text) : Bool :=
  place.all (· = Path.up)

/-- Whether a place is not below the working directory. -/
def isOutside (place : List Text) : Bool :=
  place.head? = some Path.up

/-- The place that a double dot leads to. -/
def outOf (place : List Text) : List Text :=
  if isAbove place then place ++ [Path.up] else place.dropLast

/-- The entry at some segments; the working directory and those above it are always there. -/
def node? (tree : FileTree) (place : List Text) : Option Node :=
  if isAbove place then some .directory else tree.nodes.find? place

/-- Whether there is a directory. -/
def isDirectoryAt (tree : FileTree) (place : List Text) : Bool :=
  tree.node? place = some .directory

/-- The tree with an entry. -/
def put (tree : FileTree) (place : List Text) (node : Node) : FileTree :=
  { tree with nodes := tree.nodes.insert place node }

/-- The tree without an entry. -/
def erase (tree : FileTree) (place : List Text) : FileTree :=
  { tree with nodes := tree.nodes.erase place }

/-- The tree without an entry and all that lies below it. -/
def remove (tree : FileTree) (place : List Text) : FileTree :=
  { tree with nodes := tree.nodes.filter fun (other, _) => !place.isPrefixOf other }

/-- Where the segments of a path lead from a place. All but the last one have to be directories,
and a double dot leads out of one. -/
def follow (tree : FileTree) (path : Path) : List Text → List Text → Except Refusal (List Text)
  | place, [] => .ok place
  | place, segment :: rest =>
    match tree.node? place with
    | none => .error (.notFound path)
    | some (.file _) => .error (.notDirectory path)
    | some .directory =>
      if segment = Path.up then follow tree path (outOf place) rest
      else if segmentLimit < segment.byteSize then .error (.tooLong path)
      else follow tree path (place ++ [segment]) rest

/-- Where a path leads. There need not be an entry. -/
def locate (tree : FileTree) (path : Path) : Except Refusal (List Text) :=
  if path.text.contains '\x00' then .error (.nullCharacter path)
  else if pathLimit < path.text.byteSize then .error (.tooLong path)
  else if path.isAbsolute then
    match tree.working.isPrefixOf? path.segments with
    | some segments => tree.follow path [] segments
    | none => tree.follow path (tree.working.map fun _ => Path.up) path.segments
  else tree.follow path [] path.segments

/-- The entry at a path. -/
def lookup (tree : FileTree) (path : Path) : Except Refusal Node := do
  match tree.node? (← tree.locate path) with
  | some node => return node
  | none => .error (.notFound path)

/-- Whether the entry at a path is as asked for; of a path that is too long that cannot be
told. -/
def holds (tree : FileTree) (path : Path) (asked : Node → Bool) : Except Refusal Bool :=
  match tree.lookup path with
  | .ok node => .ok (asked node)
  | .error (.tooLong path) => .error (.tooLong path)
  | .error _ => .ok false

/-- Whether there is a directory at the path. -/
def isDirectory (tree : FileTree) (path : Path) : Except Refusal Bool :=
  tree.holds path fun node => node = .directory

/-- Whether there is a file at the path. -/
def isFile (tree : FileTree) (path : Path) : Except Refusal Bool :=
  tree.holds path fun node => node ≠ .directory

/-- The text of the file at the path. -/
def readText (tree : FileTree) (path : Path) : Except Refusal Text := do
  match ← tree.lookup path with
  | .file (.text t) => return t
  | .file (.binary _) => .error (.notText path)
  | .directory => .error (.isDirectory path)

/-- The segments of the files below a place whose names have one of the endings, behind those of
the place. -/
def filesBelow (tree : FileTree) (place : List Text) (endings : List Text) : List (List Text) :=
  tree.nodes.filterMap fun (other, node) =>
    match node, place.isPrefixOf? other with
    | .file _, some rest =>
      if !rest.isEmpty && !isOutside rest &&
          endings.any fun ending => ending.isSuffixOf (rest.getLastD []) then some rest
      else none
    | _, _ => none

/-- The files under a directory whose names have one of the endings, in the order of their
segments. -/
def walk (tree : FileTree) (root : Path) (endings : List Text) : List Path :=
  match tree.locate root with
  | .error _ => []
  | .ok place =>
    (tree.filesBelow place endings).map fun rest => { root with segments := root.segments ++ rest }

/-- The tree with a directory at a path where nothing is. -/
def makeDirectory (tree : FileTree) (path : Path) : Except Refusal FileTree := do
  let place ← tree.locate path
  if (tree.node? place).isSome then .error (.occupied path) else return tree.put place .directory

/-- A directory that is there already need not be made, whatever the refusal. -/
def excused (tree : FileTree) (path : Path) : Refusal → Except Refusal Unit
  | .nullCharacter path => .error (.nullCharacter path)
  | refusal => do if ← tree.isDirectory path then return () else .error refusal

/-- The tree with a directory at a path whose segments are given from the last to the first. If
the directory above is missing, it is made before. -/
def makeFrom (root : Text) : FileTree → List Text → FileTree × Except Refusal Unit
  | tree, [] =>
    let path : Path := ⟨root, []⟩
    match tree.makeDirectory path with
    | .ok tree => (tree, .ok ())
    | .error refusal => (tree, tree.excused path refusal)
  | tree, segment :: above =>
    let path : Path := ⟨root, (segment :: above).reverse⟩
    match tree.makeDirectory path with
    | .ok tree => (tree, .ok ())
    | .error (.notFound _) =>
      match makeFrom root tree above with
      | (tree, .error refusal) => (tree, .error refusal)
      | (tree, .ok ()) =>
        match tree.makeDirectory path with
        | .ok tree => (tree, .ok ())
        | .error refusal => (tree, tree.excused path refusal)
    | .error refusal => (tree, tree.excused path refusal)

/-- The tree with a directory at the path and at all paths that lead to it. -/
def makeDirectories (tree : FileTree) (path : Path) : FileTree × Except Refusal Unit :=
  makeFrom path.root tree path.segments.reverse

/-- The name of the file that is written before it is moved. -/
def draftName (name : Text) : Text :=
  name ++ ".tmp".toList

/-- The tree in which a draft is moved to its place, or what stands in the way. -/
def moveDraft (tree : FileTree) (path : Path) (draft : List Text) (t : Text) :
    FileTree × Except Refusal Unit :=
  if path.name = Path.up then (tree, .error (.busy path))
  else
    match tree.locate path with
    | .error refusal => (tree, .error refusal)
    | .ok place =>
      if tree.isDirectoryAt place then (tree, .error (.isDirectory path))
      else ((tree.erase draft).put place (.file (.text t)), .ok ())

/-- The tree with a text at a path whose directory is there; `storable` tells that the text has an
encoding. -/
def writeDraft (tree : FileTree) (path : Path) (t : Text) (storable : Bool) :
    FileTree × Except Refusal Unit :=
  let draftPath := path.parent.child (draftName path.name)
  match tree.locate draftPath with
  | .error refusal => (tree, .error refusal)
  | .ok draft =>
    if tree.isDirectoryAt draft then (tree, .error (.isDirectory draftPath))
    else if !storable then (tree.put draft (.file (.text [])), .error (.noEncoding path))
    else (tree.put draft (.file (.text t))).moveDraft path draft t

/-- The tree with a text at the path; `storable` tells that the text has an encoding. Missing
directories are made. The text is written to a draft beside its place, which is then moved; a
failure leaves what was done before it. -/
def replaceFile (tree : FileTree) (path : Path) (t : Text) (storable : Bool) :
    FileTree × Except Refusal Unit :=
  match tree.makeDirectories path.parent with
  | (tree, .error refusal) => (tree, .error refusal)
  | (tree, .ok ()) =>
    if path.segments.isEmpty then (tree, .error (.noName path))
    else tree.writeDraft path t storable

/-- The entries of a tree that another one does not have, or has otherwise. -/
def altered (before after : FileTree) : List (List Text × Node) :=
  after.nodes.filter fun (place, node) => !isOutside place && before.node? place ≠ some node

/-- The entries of a tree that another one no longer has. -/
def gone (before after : FileTree) : List (List Text × Node) :=
  before.nodes.filter fun (place, _) => !isOutside place && (after.node? place).isNone

end FileTree

end StyleTokens
