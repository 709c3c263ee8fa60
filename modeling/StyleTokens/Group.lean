import StyleTokens.Token

/-!
# Groups of duplicates

A group holds declarations that should share one file: of one name that several files declare, or
of several similar names. One of its files is canonical and keeps the declaration; the
disposition is what was decided about the group.

## Main definitions

* `MatchType`, `Disposition`: how a group was matched, and what was decided
* `Group`: a group
* `Group.check`, `Group.ofMembers`: the rules of a group
* `Group.redundantFiles`, `Group.isActionable`: what pruning acts on
-/

namespace StyleTokens

/-- How the members of a group were matched. -/
inductive MatchType where
  /-- One name in several files. -/
  | exact
  /-- Several similar names. -/
  | near
  deriving DecidableEq, Repr

namespace MatchType

/-- The word for a match type. -/
def word : MatchType → Text
  | .exact => "exact".toList
  | .near => "near".toList

/-- The match type for a word. -/
def ofWord? (t : Text) : Option MatchType :=
  [exact, near].find? fun m => m.word = t

end MatchType

/-- What was decided about a group. -/
inductive Disposition where
  /-- The redundant declarations go. -/
  | merge
  /-- They stay as aliases. -/
  | keepAlias
  /-- They stay. -/
  | ignore
  /-- Nothing is decided yet. -/
  | unset
  deriving DecidableEq, Repr

namespace Disposition

/-- What may be decided. -/
def choices : List Disposition :=
  [merge, keepAlias, ignore]

/-- The word for a disposition. -/
def word : Disposition → Text
  | .merge => "merge".toList
  | .keepAlias => "alias".toList
  | .ignore => "ignore".toList
  | .unset => "unset".toList

/-- The disposition for a word. -/
def ofWord? (t : Text) : Option Disposition :=
  (choices ++ [unset]).find? fun d => d.word = t

end Disposition

/-- A group of duplicates. -/
structure Group where
  kind : TokenKind
  matchType : MatchType
  /-- Its names, one for an exact match. -/
  names : List Text
  files : List Text
  /-- The file that keeps the declaration. -/
  canonical : Text
  disposition : Disposition := .unset
  deriving DecidableEq, Repr

namespace Group

/-- A group has a name. -/
def checkNames (names : List Text) : Checked (List Text) :=
  if names.isEmpty then .fail .listTooShort else .ok names

/-- A group has at least two files, and none twice. -/
def checkFiles (files : List Text) : Checked (List Text) :=
  if files.length < 2 then .fail .listTooShort
  else if files.Nodup then .ok files
  else .fail (.rule "files must not repeat".toList)

/-- The canonical file is one of the files, an exact match has one name, and a near match at
least two different ones. -/
def checkShape (group : Group) : Checked Group :=
  if !group.files.contains group.canonical then
    .fail (.rule "canonical must be one of files".toList)
  else if group.matchType = .exact && group.names.length ≠ 1 then
    .fail (.rule "An exact duplicate group has exactly one name".toList)
  else if group.matchType = .near && group.names.eraseDups.length < 2 then
    .fail (.rule "A near-duplicate group needs at least 2 distinct names".toList)
  else .ok group

/-- The group, if it keeps the rules. -/
def check (group : Group) : Checked Group := do
  let _ ← Checked.both ((checkNames group.names).inside "names".toList)
    ((checkFiles group.files).inside "files".toList)
  checkShape group

/-- The group with the given members. -/
def ofMembers (members : List (Text × Json.Value)) : Checked Group := do
  let (kind, matchType, names, files, canonical, disposition) ← Checked.both
    (Field.required members "kind".toList (Field.choice TokenKind.ofWord?)) (Checked.both
      (Field.required members "match_type".toList (Field.choice MatchType.ofWord?)) (Checked.both
        (Field.required members "names".toList fun v => Field.texts .notList v >>= checkNames)
        (Checked.both
          (Field.required members "files".toList fun v => Field.texts .notList v >>= checkFiles)
          (Checked.both (Field.required members "canonical".toList Field.text)
            (Field.optional members "disposition".toList (Field.choice Disposition.ofWord?)
              .unset)))))
  checkShape ⟨kind, matchType, names, files, canonical, disposition⟩

/-- The first name. -/
def representative (group : Group) : Text :=
  group.names.headD []

/-- The files other than the canonical one. -/
def redundantFiles (group : Group) : List Text :=
  group.files.filter fun file => file ≠ group.canonical

/-- Whether pruning deletes the redundant declarations: for custom properties of one name that
are to be merged. -/
def isActionable (group : Group) : Bool :=
  group.disposition = .merge && group.matchType = .exact && group.kind = .property

end Group

end StyleTokens
