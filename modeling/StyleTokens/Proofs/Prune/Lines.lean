import StyleTokens.Proofs.Prune.Declaration

/-!
# Deleting lines

In a text with one declaration a line, the declarations of some tokens are deleted with their
lines, and nothing else is. A value on one line ends at its own semicolon, a name is whole in front
of its colon, and a line that does not start like a declaration of one of the tokens is never
taken. What one token leaves are lines again, so the tokens do not disturb one another.

## Main definitions

* `Prune.DeclarationLine`: a declaration on a line of its own
* `Prune.looksLike`: whether a text starts like a declaration
* `Prune.SourceLine`: the lines of a text

## Main results

* `Prune.DeclarationLine.takesLine`: the line of a declaration is taken for its name only
* `Prune.prune_lines`: the text without the lines that declare one of the tokens
-/

namespace StyleTokens.Prune

variable {token t blanks : Text} {before : Option Char} {c : Char}

/-! ## Lines of declarations -/

/-- A declaration on a line of its own. -/
structure DeclarationLine where
  indent : Text
  name : Text
  value : Text
  blank : ∀ c ∈ indent, isIndent c
  isToken : IsToken name
  isValue : Value value
  single : '\n' ∉ value

/-- The line without its break. -/
def DeclarationLine.text (d : DeclarationLine) : Text :=
  d.indent ++ (d.name ++ ':' :: (d.value ++ [';']))

theorem newline_notMem_indent (h : ∀ c ∈ t, isIndent c) : '\n' ∉ t :=
  fun newline => absurd (h _ newline) (by decide)

theorem IsToken.newline_notMem (ht : IsToken token) : '\n' ∉ token :=
  fun newline => absurd (ht.chars _ newline) (by decide)

theorem startsLine_iff : startsLine before ↔ ∀ c ∈ before, c = '\n' := by
  cases before <;> simp [startsLine]

/-- Two names in front of what is no name are the same. -/
theorem IsToken.eq_of_append {a b t u : Text} (ha : IsToken a) (hb : IsToken b)
    (ht : ∀ c ∈ t.head?, ¬isNameChar c) (hu : ∀ c ∈ u.head?, ¬isNameChar c)
    (eq : a ++ t = b ++ u) : a = b := by
  have run : ∀ {a t : Text}, IsToken a → (∀ c ∈ t.head?, ¬isNameChar c) →
      (a ++ t).takeWhile isNameChar = a := by
    intro a t ha ht
    rw [List.takeWhile_append_of_pos ha.chars]
    cases t with
    | nil => simp
    | cons c t => simp [ht c rfl]
  rw [← run ha ht, eq, run hb hu]

/-- No other token is a part of a name. -/
theorem declarationLength?_of_ne {name : Text} (hn : IsToken name) (ht : IsToken token)
    (ne : name ≠ token) (rest : Text) : declarationLength? token (name ++ ':' :: rest) = none := by
  rw [Option.eq_none_iff_forall_ne_some]
  intro n length
  obtain ⟨blanks, v, k, eq, blank, -⟩ := declarationLength?_eq_some_iff.mp length
  refine ne (hn.eq_of_append ht ?_ ?_ eq)
  · rintro c ⟨⟩
    decide
  · cases blanks with
    | nil =>
      rintro c ⟨⟩
      decide
    | cons b blanks =>
      rintro c ⟨⟩
      exact not_isNameChar_of_isIndent (blank _ List.mem_cons_self)

/-- **The line of a declaration is taken** with its break if it declares the token. -/
theorem DeclarationLine.takesLine (d : DeclarationLine) (ht : IsToken token) :
    (declarationRule token).TakesLine () d.text (d.name = token) where
  single := by
    simp [text, newline_notMem_indent d.blank, d.isToken.newline_notMem, d.single]
  start before rest first := by
    by_cases same : d.name = token
    · have noBlank : ∀ c ∈ ([] : Text), isIndent c := nofun
      have taken := declarationRule_taken ht (startsLine_iff.mpr first) d.blank noBlank d.isValue
        ('\n' :: rest)
      simpa [text, same, trailLength, breakLength, isIndent] using taken
    · have split : d.text ++ '\n' :: rest =
          d.indent ++ (d.name ++ ':' :: (d.value ++ ';' :: '\n' :: rest)) := by
        simp [text]
      rw [split, declarationRule_append ht d.blank (d.isToken.head_append _),
        declarationLength?_of_ne d.isToken ht same]
      simp [same]

/-! ## Other lines -/

/-- Whether a text starts like a declaration of the token: behind the indentation stand the token,
blanks and a colon. -/
def looksLike (token t : Text) : Bool :=
  ((token.isPrefixOf? (t.dropWhile isIndent)).bind fun rest =>
    (rest.dropWhile isIndent).head?) = some ':'

theorem looksLike_iff (ht : IsToken token) : looksLike token t ↔
    ∃ indent blanks rest, t = indent ++ (token ++ (blanks ++ ':' :: rest)) ∧
      (∀ c ∈ indent, isIndent c) ∧ ∀ c ∈ blanks, isIndent c := by
  simp only [looksLike, decide_eq_true_eq, Option.bind_eq_some_iff,
    List.isPrefixOf?_eq_some_iff_append_eq, List.head?_eq_some_iff]
  constructor
  · rintro ⟨rest, name, behind, colon⟩
    refine ⟨t.takeWhile isIndent, rest.takeWhile isIndent, behind, ?_,
      fun c => List.mem_takeWhile_imp, fun c => List.mem_takeWhile_imp⟩
    rw [← colon, List.takeWhile_append_dropWhile, name, List.takeWhile_append_dropWhile]
  · rintro ⟨indent, blanks, rest, rfl, hi, hb⟩
    refine ⟨blanks ++ ':' :: rest, ?_, rest, ?_⟩
    · obtain ⟨c, name, rfl⟩ := List.exists_cons_of_ne_nil ht.nonempty
      have first : ¬isIndent c := not_isIndent_of_isNameChar (ht.chars c List.mem_cons_self)
      rw [List.dropWhile_append_of_pos hi]
      simp [first]
    · rw [List.dropWhile_append_of_pos hb]
      rfl

/-- What has no `c` in it stands in front of the `c` altogether. -/
theorem exists_append_of_notMem {u v w x : Text} (hu : c ∉ u) (eq : w ++ c :: x = u ++ v) :
    ∃ more, w = u ++ more ∧ v = more ++ c :: x := by
  rcases List.append_eq_append_iff.mp eq with ⟨more, rfl, behind⟩ | ⟨more, rfl, behind⟩
  · cases more with
    | nil => exact ⟨[], by simp, behind.symm⟩
    | cons d more =>
      obtain rfl : c = d := (List.cons.inj behind).1
      exact absurd (by simp) hu
  · exact ⟨more, rfl, behind⟩

/-- A line that does not start like a declaration is left alone. -/
theorem takesLine_of_not_looksLike (ht : IsToken token) (single : '\n' ∉ t)
    (other : ¬looksLike token t) : (declarationRule token).TakesLine () t false where
  single := single
  start before rest first := by
    have blank : ∀ c ∈ t.takeWhile isIndent, isIndent c := fun c => List.mem_takeWhile_imp
    have head : ∀ c ∈ (t.dropWhile isIndent ++ '\n' :: rest).head?, ¬isIndent c :=
      fun c => Text.not_of_mem_head?_dropWhile_append (by decide)
    have none_found : declarationLength? token (t.dropWhile isIndent ++ '\n' :: rest) = none := by
      rw [Option.eq_none_iff_forall_ne_some]
      intro n length
      obtain ⟨blanks, v, k, eq, hb, -⟩ := declarationLength?_eq_some_iff.mp length
      -- the colon stands on this line
      have notMem : '\n' ∉ token ++ (blanks ++ [':']) := by
        simp [ht.newline_notMem, newline_notMem_indent hb]
      obtain ⟨more, line, -⟩ := exists_append_of_notMem (v := v) notMem (by simpa using eq)
      refine other ((looksLike_iff ht).mpr ⟨t.takeWhile isIndent, blanks, more, ?_, blank, hb⟩)
      conv_lhs => rw [← List.takeWhile_append_dropWhile (p := isIndent) (l := t), line]
      simp
    have split : t ++ '\n' :: rest =
        t.takeWhile isIndent ++ (t.dropWhile isIndent ++ '\n' :: rest) := by
      rw [← List.append_assoc, List.takeWhile_append_dropWhile]
    rw [split, declarationRule_append ht blank head, none_found]
    simp

/-! ## Lines of a text -/

/-- A line of a text with one declaration a line. -/
inductive SourceLine where
  | declaration (d : DeclarationLine)
  | other (t : Text)

namespace SourceLine

/-- The line without its break. -/
def text : SourceLine → Text
  | .declaration d => d.text
  | .other t => t

/-- Whether the line declares a token. -/
def declares (token : Text) : SourceLine → Bool
  | .declaration d => d.name = token
  | .other _ => false

/-- A line that is no declaration does not start like one of the tokens'. -/
def Plain (tokens : List Text) : SourceLine → Prop
  | .declaration _ => True
  | .other t => '\n' ∉ t ∧ ∀ token ∈ tokens, ¬looksLike token t

instance (tokens : List Text) : DecidablePred (Plain tokens)
  | .declaration _ => .isTrue trivial
  | .other t => inferInstanceAs (Decidable ('\n' ∉ t ∧ ∀ token ∈ tokens, ¬looksLike token t))

theorem Plain.of_cons {line : SourceLine} {tokens : List Text} (h : line.Plain (token :: tokens)) :
    line.Plain tokens := by
  cases line with
  | declaration d => trivial
  | other t => exact ⟨h.1, fun token' mem => h.2 token' (List.mem_cons_of_mem token mem)⟩

theorem not_declares {line : SourceLine} {token' : Text} (h : line.declares token')
    (ne : token' ≠ token) : line.declares token = false := by
  cases line with
  | declaration d =>
    have name : d.name = token' := by simpa [declares] using h
    simpa [declares, name] using ne
  | other t => rfl

theorem takesLine {line : SourceLine} {tokens : List Text} (plain : line.Plain tokens)
    (mem : token ∈ tokens) (ht : IsToken token) :
    (declarationRule token).TakesLine () line.text (line.declares token) := by
  cases line with
  | declaration d => exact d.takesLine ht
  | other t => exact takesLine_of_not_looksLike ht plain.1 (plain.2 token mem)

end SourceLine

variable {tokens : List Text} {lines : List SourceLine}

/-- Without a token, a text has lost the lines that declare it. -/
theorem without_lines (ht : IsToken token) (mem : token ∈ tokens)
    (plain : ∀ line ∈ lines, line.Plain tokens) :
    without token (Text.unlines (lines.map SourceLine.text)) =
      Text.unlines ((lines.filter fun line => !line.declares token).map SourceLine.text) :=
  Rule.replaced_unlines (atLineStart_declarationRule token) fun line hl =>
    SourceLine.takesLine (plain line hl) mem ht

theorem declares_lines (ht : IsToken token) (mem : token ∈ tokens)
    (plain : ∀ line ∈ lines, line.Plain tokens) :
    declares token (Text.unlines (lines.map SourceLine.text)) =
      lines.any (SourceLine.declares token) := by
  have hits := Rule.hitCount_unlines (atLineStart_declarationRule token) fun line hl =>
    SourceLine.takesLine (plain line hl) mem ht
  rw [declares, hits, Bool.eq_iff_iff, decide_eq_true_iff, List.countP_pos_iff, List.any_eq_true]

/-- **Exactly the lines that declare one of the tokens are deleted**, and the tokens that were found
are those with such a line. -/
theorem prune_lines (ht : ∀ token ∈ tokens, IsToken token) (distinct : tokens.Nodup)
    (plain : ∀ line ∈ lines, line.Plain tokens) :
    prune tokens (Text.unlines (lines.map SourceLine.text)) =
      (Text.unlines ((lines.filter fun line =>
          !tokens.any fun token => line.declares token).map SourceLine.text),
        tokens.filter fun token => lines.any (SourceLine.declares token)) := by
  induction tokens generalizing lines with
  | nil => simp [prune]
  | cons token tokens ih =>
    rw [List.forall_mem_cons] at ht
    rw [List.nodup_cons] at distinct
    let left := lines.filter fun line => !line.declares token
    have plain' : ∀ line ∈ left, line.Plain tokens := fun line hl =>
      (plain line (List.mem_of_mem_filter hl)).of_cons
    -- the first token's lines declare no other token
    have found : ∀ token' ∈ tokens, left.any (SourceLine.declares token') =
        lines.any (SourceLine.declares token') := by
      intro token' mem
      have ne : token' ≠ token := fun eq => distinct.1 (eq ▸ mem)
      rw [List.any_filter]
      refine congrArg lines.any (funext fun line => ?_)
      cases declared : line.declares token' with
      | true => rw [SourceLine.not_declares declared ne]; rfl
      | false => rw [Bool.and_false]
    rw [prune, without_lines ht.1 List.mem_cons_self plain,
      declares_lines ht.1 List.mem_cons_self plain, ih ht.2 distinct.2 plain',
      List.filter_congr found, List.filter_filter, List.filter_cons]
    simp only [List.any_cons, Bool.not_or, Bool.and_comm]

/-- A semicolon in a string and one in an interpolation. -/
def quotedLine : DeclarationLine where
  indent := "  ".toList
  name := "--a".toList
  value := "';' --b:#\x7bx;'\x7d".toList
  blank := by decide
  isToken := by decide
  isValue := by decide
  single := by decide

/-- A declaration of another token. -/
def longerLine : DeclarationLine where
  indent := []
  name := "--a-b".toList
  value := "--b:1".toList
  blank := by decide
  isToken := by decide
  isValue := by decide
  single := by decide

/-- Two declarations in a rule, and a line that starts with a token. -/
def sourceLines : List SourceLine :=
  [.other "a:hover\x7b".toList, .declaration quotedLine, .declaration longerLine,
    .other "--b \x7d".toList]

/-- Only the declaration of `--a` is deleted. -/
theorem prune_lines_sourceLines :
    (∀ token ∈ ["--b".toList, "--a".toList], IsToken token) ∧
    ["--b".toList, "--a".toList].Nodup ∧
    (∀ line ∈ sourceLines, line.Plain ["--b".toList, "--a".toList]) ∧
    Text.unlines (sourceLines.map SourceLine.text) =
      "a:hover\x7b\n  --a:';' --b:#\x7bx;'\x7d;\n--a-b:--b:1;\n--b \x7d\n".toList ∧
    prune ["--b".toList, "--a".toList] (Text.unlines (sourceLines.map SourceLine.text)) =
      ("a:hover\x7b\n--a-b:--b:1;\n--b \x7d\n".toList, ["--a".toList]) := by
  have tokens : ∀ token ∈ ["--b".toList, "--a".toList], IsToken token := by decide
  have distinct : ["--b".toList, "--a".toList].Nodup := by decide
  have plain : ∀ line ∈ sourceLines, line.Plain ["--b".toList, "--a".toList] := by decide
  refine ⟨tokens, distinct, plain, by decide +kernel, ?_⟩
  rw [prune_lines tokens distinct plain]
  decide +kernel

end StyleTokens.Prune
