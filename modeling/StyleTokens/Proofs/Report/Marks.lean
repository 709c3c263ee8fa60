import Mathlib.Tactic.MkIffOfInductiveProp
import StyleTokens.Proofs.Text.Lines
import StyleTokens.Report.Reader

/-!
# The marks of a rendered report

Every line of a rendered report is read as what it was written for: a header as a header, a
bullet as a file, and so on. This asks for names and paths that leave the line they stand on
intact.

## Main definitions

* `Report.SafePath`: a path that a line of a report can hold
* `Report.LinePath`: a path as the line that holds it gives it back
* `Report.SafeName`, `Report.SafeVariant`: a name that can stand alone in a header, and one that
  can stand in a list of names

## Main results

* `Text.commaParts_joined`: a list of names is read back from its line
* `Mark.ofLine_token`, `Mark.ofLine_variants`, `Mark.ofLine_bullet`, `Mark.ofLine_preferred`,
  `Mark.ofLine_disposition`: the marks of the lines of a group
-/

namespace StyleTokens

namespace Report

/-- A path that a line of a report can hold. -/
@[mk_iff]
structure SafePath (path : Text) : Prop where
  nonempty : path ≠ []
  breakFree : path.BreakFree
  /-- It has no backslashes, which would be read as slashes. -/
  noBackslash : '\\' ∉ path
  trimmed : path.Trimmed

/-- A path as the line that holds it gives it back. Beside the safe ones these are the single
blanks. -/
structure LinePath (path : Text) : Prop where
  breakFree : path.BreakFree
  noBackslash : '\\' ∉ path
  /-- It is the value of a line behind a blank. -/
  value : Text.lineValue (' ' :: path) = path

/-- A name that can stand alone in a header. -/
@[mk_iff]
structure SafeName (name : Text) : Prop where
  nonempty : name ≠ []
  noBlank : ∀ c ∈ name, ¬isBlank c

/-- A name that can stand in a list of names. -/
@[mk_iff]
structure SafeVariant (name : Text) : Prop where
  nonempty : name ≠ []
  noComma : ',' ∉ name
  breakFree : name.BreakFree
  trimmed : name.Trimmed

instance : DecidablePred SafePath := fun path => decidable_of_iff _ (safePath_iff path).symm

instance : DecidablePred SafeName := fun name => decidable_of_iff _ (safeName_iff name).symm

instance : DecidablePred SafeVariant := fun name => decidable_of_iff _ (safeVariant_iff name).symm

/-- A name that the header of a group can hold. -/
def HeaderName : MatchType → Text → Prop
  | .exact => SafeName
  | .near => SafeVariant

instance : (matchType : MatchType) → DecidablePred (HeaderName matchType)
  | .exact => inferInstanceAs (DecidablePred SafeName)
  | .near => inferInstanceAs (DecidablePred SafeVariant)

end Report

namespace Text

variable {t : Text}

theorem slashed_eq (h : '\\' ∉ t) : slashed t = t := by
  induction t with
  | nil => rfl
  | cons c t ih =>
    simp only [List.mem_cons, not_or] at h
    have := ih h.2
    simp_all [slashed, swap, Ne.symm h.1]

/-- A trimmed text is the value at the end of its line. -/
theorem lineValue_cons (ne : t ≠ []) (h : Trimmed t) : lineValue (' ' :: t) = t := by
  have blank : allBlank (' ' :: t) = false := by
    have := h.allBlank_eq ne
    simp_all [allBlank]
  rw [lineValue, blank]
  exact trim_blanks_append (b := [' ']) t (by decide) |>.trans h

/-- **A list of names is read back** from the line that holds it behind blanks. -/
theorem commaParts_joined {b : Text} {names : List Text} (hb : ∀ c ∈ b, isBlank c)
    (ne : names ≠ []) (h : ∀ n ∈ names, Report.SafeVariant n) :
    commaParts (b ++ joined ", ".toList names) = names := by
  have noComma : ',' ∉ b := fun hc => absurd (hb _ hc) (by decide)
  induction names generalizing b with
  | nil => exact absurd rfl ne
  | cons n names ih =>
    have hn := h n (by simp)
    have part : trim (b ++ n) = n := (trim_blanks_append n hb).trans hn.trimmed
    have hnc : ',' ∉ b ++ n := by simp [noComma, hn.noComma]
    cases names with
    | nil =>
      rw [commaParts, joined, List.splitOn_eq_singleton hnc]
      simp [part, hn.nonempty]
    | cons m names =>
      -- the blank behind the comma is in front of the next part
      have rest := ih (b := [' ']) (by decide) (by simp) (fun x hx => h x (by simp [hx]))
        (by decide)
      have split : b ++ joined ", ".toList (n :: m :: names) =
          (b ++ n) ++ ',' :: ([' '] ++ joined ", ".toList (m :: names)) := by
        simp [joined]
      rw [commaParts, split, List.splitOn_append_cons_self_of_not_mem hnc, List.map_cons, part,
        List.filter_cons_of_pos (by simp [hn.nonempty])]
      exact congrArg (n :: ·) rest

end Text

namespace Report

variable {path : Text}

theorem SafePath.linePath (h : SafePath path) : LinePath path :=
  ⟨h.breakFree, h.noBackslash, Text.lineValue_cons h.nonempty h.trimmed⟩

theorem LinePath.nonempty (h : LinePath path) : path ≠ [] := by
  rintro rfl
  exact absurd h.value (by decide)

/-- A name without blanks can stand in a list of names, if it has no comma. -/
theorem SafeName.safeVariant {name : Text} (h : SafeName name) (noComma : ',' ∉ name) :
    SafeVariant name :=
  ⟨h.nonempty, noComma, Text.breakFree_of_forall h.noBlank, Text.trimmed_of_forall h.noBlank⟩

end Report

namespace Mark

open Report (LinePath SafeName SafeVariant)

variable {path name : Text}

/-- The tests for the three kinds of headers all fail. -/
def IsNoHeader (line : Text) : Prop :=
  kind? line = none ∧ token? line = none ∧ variants? line = none

instance : DecidablePred IsNoHeader := fun line =>
  inferInstanceAs (Decidable (kind? line = none ∧ token? line = none ∧ variants? line = none))

/-- The headers: they change what the reader is inside of. -/
def isHeader : Mark → Bool
  | .kind _ | .token _ | .variants _ => true
  | _ => false

theorem isHeader_of_definedIn? {line : Text} {mark : Mark} (h : definedIn? line = some mark) :
    mark.isHeader = false := by
  simp only [definedIn?, Option.bind_eq_bind, Option.bind_eq_some_iff,
    Option.ite_none_right_eq_some, Option.some.injEq] at h
  obtain ⟨_, _, _, rfl⟩ := h
  rfl

theorem isHeader_of_preferred? {line : Text} {mark : Mark} (h : preferred? line = some mark) :
    mark.isHeader = false := by
  simp only [preferred?, Option.bind_eq_bind, Option.bind_eq_some_iff] at h
  obtain ⟨_, _, h⟩ := h
  split at h
  · cases h
  · obtain ⟨_, h⟩ := Option.ite_none_left_eq_some.mp h
    cases h
    rfl

theorem isHeader_of_disposition? {line : Text} {mark : Mark} (h : disposition? line = some mark) :
    mark.isHeader = false := by
  simp only [disposition?, Option.bind_eq_bind, Option.bind_eq_some_iff, Option.pure_def,
    Option.some.injEq] at h
  obtain ⟨_, _, rfl⟩ := h
  rfl

theorem isHeader_of_bullet? {line : Text} {mark : Mark} (h : bullet? line = some mark) :
    mark.isHeader = false := by
  unfold bullet? at h
  split at h
  · obtain ⟨_, h⟩ := Option.ite_none_left_eq_some.mp h
    cases h
    rfl
  · cases h

/-- A line that none of the tests for headers takes has no header's mark. -/
theorem isHeader_ofLine {line : Text} (h : IsNoHeader line) : (ofLine line).isHeader = false := by
  obtain ⟨hk, ht, hv⟩ := h
  rw [ofLine, hk, ht, hv]
  cases hd : definedIn? line with
  | some mark => exact isHeader_of_definedIn? hd
  | none =>
  cases hp : preferred? line with
  | some mark => exact isHeader_of_preferred? hp
  | none =>
  cases hs : disposition? line with
  | some mark => exact isHeader_of_disposition? hs
  | none =>
  cases hb : bullet? line with
  | some mark => exact isHeader_of_bullet? hb
  | none =>
    show (if line.allBlank = true then blank else prose).isHeader = false
    split_ifs <;> rfl

theorem ofLine_nil : ofLine [] = .blank :=
  rfl

theorem ofLine_kind (kind : TokenKind) :
    ofLine ("## ".toList ++ kind.key ++ " Duplicates".toList) = .kind kind.key := by
  cases kind <;> rfl

theorem token?_append (name : Text) :
    token? ("### Token: ".toList ++ name) =
      let rest := name.dropWhile isBlank
      let name := rest.takeWhile fun c => !isBlank c
      if !name.isEmpty && Text.allBlank (rest.drop name.length) then some (.token name)
      else none :=
  rfl

theorem ofLine_token (h : SafeName name) : ofLine ("### Token: ".toList ++ name) = .token name := by
  have keep : name.dropWhile isBlank = name :=
    (Text.trimmed_of_forall h.noBlank).dropWhile_eq
  have whole : name.takeWhile (fun c => !isBlank c) = name :=
    List.takeWhile_eq_self_iff.mpr fun c hc => by simpa using h.noBlank c hc
  have mark : token? ("### Token: ".toList ++ name) = some (.token name) := by
    rw [token?_append]
    simp [keep, whole, h.nonempty, Text.allBlank]
  have first : kind? ("### Token: ".toList ++ name) = none := rfl
  rw [ofLine, first, mark]
  rfl

theorem ofLine_variants {names : List Text} (ne : names ≠ []) (h : ∀ n ∈ names, SafeVariant n) :
    ofLine ("#### Variants: ".toList ++ Text.joined ", ".toList names) = .variants names := by
  have read := Text.commaParts_joined (b := [' ']) (by decide) ne h
  change Mark.variants (Text.commaParts ([' '] ++ _)) = _
  rw [read]

theorem ofLine_definedIn : ofLine "Defined in:".toList = .definedIn :=
  rfl

theorem bullet?_append (path : Text) :
    bullet? ("- ".toList ++ path) =
      if Text.allBlank (' ' :: path) && (' ' :: path).length < 2 then none
      else some (.bullet (Text.slashed (Text.lineValue (' ' :: path)))) :=
  rfl

theorem ofLine_bullet (h : LinePath path) : ofLine ("- ".toList ++ path) = .bullet path := by
  have long : ¬(' ' :: path).length < 2 := by
    have := List.length_pos_of_ne_nil h.nonempty
    rw [List.length_cons]
    omega
  have mark : bullet? ("- ".toList ++ path) = some (.bullet path) := by
    rw [bullet?_append, decide_eq_false long, Bool.and_false, h.value,
      Text.slashed_eq h.noBackslash]
    rfl
  -- no other test takes a line that starts with a hyphen
  have last : ofLine ("- ".toList ++ path) = (bullet? ("- ".toList ++ path)).getD
      (if Text.allBlank ("- ".toList ++ path) then .blank else .prose) := rfl
  rw [last, mark]
  rfl

theorem ofLine_preferred (h : LinePath path) :
    ofLine ("Preferred source (auto-ranked): ".toList ++ path) = .preferred path := by
  change Mark.preferred (Text.slashed (Text.lineValue (' ' :: path))) = _
  rw [h.value, Text.slashed_eq h.noBackslash]

theorem ofLine_disposition (words : Text) :
    ofLine ("Disposition: ".toList ++ words) = .disposition (Text.trim words) := by
  change Mark.disposition (Text.trim ([' '] ++ words)) = _
  rw [Text.trim_blanks_append _ (by decide)]

end Mark

/-- The words written for a decision express it. -/
theorem Disposition.ofWords_dispositionWords (d : Disposition) :
    ofWords (Text.trim (Report.dispositionWords d)) = d := by
  cases d <;> rfl

end StyleTokens
