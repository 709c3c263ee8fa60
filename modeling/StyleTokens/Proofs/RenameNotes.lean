import StyleTokens.Proofs.Rename.Atoms
import StyleTokens.Proofs.RenameMap
import StyleTokens.RenameNotes

/-!
# Rename notes are read back

A text in which one renaming is noted on every line tells these renamings, in their order. The two
notations are searched for one after the other, each in the whole text: neither of them shows in a
line of the other kind, and none of the two reaches beyond the line it starts on.

## Main definitions

* `RenameNotes.Quoting`, `RenameNotes.Form`, `RenameNotes.Note`: a renaming and how it is noted
* `RenameNotes.Note.text`, `RenameNotes.noted`: the line of a note, and a text of notes
* `RenameNotes.merged`: what the searches for the two notations find together

## Main results

* `RenameNotes.aliasRule_call`, `RenameNotes.arrowRule_arrow`: the rules take their notations
* `RenameNotes.aliasRule_eq_none`, `RenameNotes.arrowRule_eq_none`: they take nothing else
* `RenameNotes.Note.exists_merged_eq`: in the line of a note, the note is found and nothing else
* `RenameNotes.pairs_noted`: the notes of a text are read back
-/

namespace StyleTokens

namespace RenameNotes

open Rename (IsPropertyName)

/-! ## Notes -/

/-- How an argument of a call is quoted. -/
inductive Quoting where
  /-- It stands bare. -/
  | bare
  | single
  | double
  deriving DecidableEq, Repr

/-- The mark on both sides of an argument. -/
def Quoting.mark : Quoting → Text
  | .bare => []
  | .single => ['\x27']
  | .double => ['"']

/-- A name as an argument. -/
def Quoting.quoted (quoting : Quoting) (name : Text) : Text :=
  quoting.mark ++ name ++ quoting.mark

/-- How a renaming is noted. -/
inductive Form where
  /-- With an arrow between the names. -/
  | arrow
  /-- As a call of a mixin, whose name is `front` and `alias` behind it. -/
  | call (front : Text) (old new : Quoting)
  deriving DecidableEq, Repr

/-- A renaming and how it is noted. -/
structure Note where
  form : Form
  old : Text
  new : Text
  deriving DecidableEq, Repr

/-- The name of a called mixin in front of its last five letters. -/
def Form.front : Form → Text
  | .arrow => []
  | .call front _ _ => front

/-- A call with its arguments. -/
def callText (front old new : Text) : Text :=
  front ++ "alias(".toList ++ old ++ ", ".toList ++ new ++ [')']

namespace Note

/-- The old and the new name. -/
def pair (note : Note) : Text × Text :=
  (note.old, note.new)

/-- The line of a note. -/
def text (note : Note) : Text :=
  match note.form with
  | .arrow => note.old ++ " -> ".toList ++ note.new
  | .call front old new =>
    "@include ".toList ++ callText front (old.quoted note.old) (new.quoted note.new) ++ [';']

/-- The names are those of custom properties, and that of a called mixin has name characters
only. -/
@[mk_iff]
structure Proper (note : Note) : Prop where
  old : IsPropertyName note.old
  new : IsPropertyName note.new
  front : ∀ c ∈ note.form.front, isNameChar c

instance : DecidablePred Proper := fun note =>
  decidable_of_iff' _ (proper_iff note)

end Note

/-- The text with one note on every line. -/
def noted (notes : List Note) : Text :=
  Text.joined ['\n'] (notes.map Note.text)

theorem noted_cons_cons (note next : Note) (notes : List Note) :
    noted (note :: next :: notes) = note.text ++ ['\n'] ++ noted (next :: notes) :=
  rfl

/-! ## Names and arguments -/

variable {front name old new rest t u w x : Text} {c : Char}

theorem drop_nameRun (t : Text) :
    t.drop (Text.nameRun t).length = t.dropWhile isNameChar := by
  have split : Text.nameRun t ++ t.dropWhile isNameChar = t := List.takeWhile_append_dropWhile
  calc t.drop (Text.nameRun t).length
      = (Text.nameRun t ++ t.dropWhile isNameChar).drop (Text.nameRun t).length := by rw [split]
    _ = t.dropWhile isNameChar := List.drop_left

theorem propertyName?_append (hn : IsPropertyName name) (ht : Text.startsInName t = false) :
    propertyName? (name ++ t) = some (name, t) := by
  have sigil : "--".toList.isPrefixOf name := List.isPrefixOf_iff_prefix.mpr hn.sigil
  have longer : 3 ≤ name.length := hn.longer
  rw [propertyName?, Text.nameRun_append hn.chars ht, List.drop_left]
  exact if_pos (by simp only [sigil, longer, decide_true, Bool.and_self])

/-- A property name at the start of a text is all that stands there of a name. -/
theorem propertyName?_eq_some (h : propertyName? t = some (name, rest)) :
    name = Text.nameRun t ∧ rest = t.dropWhile isNameChar := by
  obtain ⟨-, eq⟩ := Option.ite_none_right_eq_some.mp h
  obtain ⟨rfl, rfl⟩ := Prod.mk.inj (Option.some.inj eq)
  exact ⟨rfl, drop_nameRun t⟩

/-- No quote is skipped in front of another character. -/
theorem skipQuote_cons (double : c ≠ '"') (single : c ≠ '\x27') (t : Text) :
    skipQuote (c :: t) = c :: t := by
  unfold skipQuote
  split
  · simp_all
  · simp_all
  · rfl

theorem skipQuote_mark (quoting : Quoting) (double : c ≠ '"') (single : c ≠ '\x27') (t : Text) :
    skipQuote (quoting.mark ++ c :: t) = c :: t := by
  cases quoting with
  | bare => exact skipQuote_cons double single t
  | single => rfl
  | double => rfl

/-- **An argument** is read with the blanks in front of it, quoted or not. -/
theorem argument?_quoted (quoting : Quoting) (hn : IsPropertyName name) (blanks : Text)
    (hb : ∀ c ∈ blanks, isBlank c) (hc : c = ',' ∨ c = ')') :
    argument? (blanks ++ quoting.quoted name ++ c :: rest) = some (name, c :: rest) := by
  obtain ⟨more, rfl⟩ := hn.exists_eq
  have plain : c ≠ '"' ∧ c ≠ '\x27' ∧ isBlank c = false := by
    rcases hc with rfl | rfl <;> decide
  obtain ⟨double, single, black⟩ := plain
  -- the first character of the argument is a quote or a hyphen
  have start : (blanks ++ quoting.quoted ('-' :: '-' :: more) ++ c :: rest).dropWhile isBlank =
      quoting.mark ++ '-' :: '-' :: (more ++ (quoting.mark ++ c :: rest)) := by
    rw [List.append_assoc, List.dropWhile_append_of_pos hb]
    cases quoting <;> simp [Quoting.quoted, Quoting.mark, isBlank]
  have ends : Text.startsInName (quoting.mark ++ c :: rest) = false := by
    cases quoting with
    | bare => rcases hc with rfl | rfl <;> rfl
    | single => rfl
    | double => rfl
  have read : propertyName? ('-' :: '-' :: (more ++ (quoting.mark ++ c :: rest))) =
      some ('-' :: '-' :: more, quoting.mark ++ c :: rest) := propertyName?_append hn ends
  rw [argument?, start, skipQuote_mark quoting (by decide) (by decide), read]
  simp only [bind, Option.bind, pure, skipQuote_mark quoting double single,
    List.dropWhile_cons, black, Bool.false_eq_true, if_false]

/-! ## Calls -/

theorem before_append (u rest : Text) : before (u ++ rest) rest = u := by
  rw [before, List.length_append, Nat.add_sub_cancel, List.take_left]

/-- **A call is taken** as a whole. -/
theorem aliasRule_call (hf : ∀ c ∈ front, isNameChar c) (old' new' : Quoting)
    (hold : IsPropertyName old) (hnew : IsPropertyName new) :
    aliasRule none (callText front (old'.quoted old) (new'.quoted new) ++ rest) =
      some ⟨callText front (old'.quoted old) (new'.quoted new), (old, new)⟩ := by
  have word : ∀ c ∈ "alias".toList, isNameChar c := by decide
  have run : ∀ c ∈ front ++ "alias".toList, isNameChar c := fun c mem =>
    (List.mem_append.mp mem).elim (hf c) (word c)
  have suffix : "alias".toList.isSuffixOf (front ++ "alias".toList) :=
    List.isSuffixOf_iff_suffix.mpr (List.suffix_append front _)
  -- the parts of the call in the order in which they are read
  have parts : callText front (old'.quoted old) (new'.quoted new) ++ rest =
      (front ++ "alias".toList) ++
        '(' :: ([] ++ old'.quoted old ++ ',' :: ([' '] ++ new'.quoted new ++ ')' :: rest)) := by
    simp [callText]
  have first : argument? ([] ++ old'.quoted old ++ ',' :: ([' '] ++ new'.quoted new ++
      ')' :: rest)) = some (old, ',' :: ([' '] ++ new'.quoted new ++ ')' :: rest)) :=
    argument?_quoted old' hold [] nofun (.inl rfl)
  have second : argument? ([' '] ++ new'.quoted new ++ ')' :: rest) = some (new, ')' :: rest) :=
    argument?_quoted new' hnew [' '] (by decide) (.inr rfl)
  have taken := before_append (callText front (old'.quoted old) (new'.quoted new)) rest
  have mark : ∀ (c : Char) (t : Text), [c].isPrefixOf? (c :: t) = some t := fun c t =>
    List.isPrefixOf?_eq_some_iff_append_eq.mpr rfl
  rw [parts] at taken ⊢
  rw [aliasRule, Text.nameRun_append run rfl, List.drop_left]
  simp only [suffix, mark, first, second, taken, bind, Option.bind, pure, Bool.not_true,
    Bool.false_eq_true, if_false]

/-- **No other text is taken for a call**: behind a name there is a parenthesis. -/
theorem aliasRule_eq_none (h : (t.dropWhile isNameChar).head? ≠ some '(') :
    aliasRule none t = none := by
  have none : ['('].isPrefixOf? (t.dropWhile isNameChar) = none := by
    cases behind : t.dropWhile isNameChar with
    | nil => rfl
    | cons c rest =>
      rw [behind] at h
      have other : '(' ≠ c := fun eq => h (by rw [eq, List.head?_cons])
      simp [List.isPrefixOf?, other]
  rw [aliasRule, drop_nameRun, none]
  exact ite_self _

/-- A part without a parenthesis is no call, if a name that starts in it ends in it. -/
theorem aliasRule_of_no_paren (h : '(' ∉ x) (stop : ∃ c ∈ x, ¬isNameChar c) (w : Text) :
    aliasRule none (x ++ w) = none := by
  refine aliasRule_eq_none fun paren => ?_
  have ends : x.dropWhile isNameChar ≠ [] := by
    intro all
    obtain ⟨c, mem, black⟩ := stop
    exact black (List.dropWhile_eq_nil_iff.mp all c mem)
  obtain ⟨c, rest, eq⟩ := List.exists_cons_of_ne_nil ends
  rw [List.dropWhile_append, eq, if_neg (by simp)] at paren
  obtain rfl : c = '(' := by simpa using paren
  have mem : '(' ∈ x.dropWhile isNameChar := eq ▸ List.mem_cons_self
  exact h ((List.dropWhile_suffix isNameChar).subset mem)

/-! ## Arrows -/

/-- **An arrow is taken** with its two names. -/
theorem arrowRule_arrow (hold : IsPropertyName old) (hnew : IsPropertyName new)
    (hr : Text.startsInName rest = false) :
    arrowRule none (old ++ " -> ".toList ++ new ++ rest) =
      some ⟨old ++ " -> ".toList ++ new, (old, new)⟩ := by
  obtain ⟨more, eq⟩ := hnew.exists_eq
  have first : propertyName? (old ++ " -> ".toList ++ new ++ rest) =
      some (old, " -> ".toList ++ new ++ rest) := by
    rw [List.append_assoc, List.append_assoc]
    exact propertyName?_append hold rfl
  have arrow : "->".toList.isPrefixOf? ((" -> ".toList ++ new ++ rest).dropWhile isBlank) =
      some (' ' :: (new ++ rest)) := rfl
  have start : (' ' :: (new ++ rest)).dropWhile isBlank = new ++ rest := by
    rw [eq]
    rfl
  rw [arrowRule, arrowName?, first]
  simp only [bind, Option.bind, pure, arrow, start, propertyName?_append hnew hr,
    before_append (old ++ " -> ".toList ++ new) rest]

/-- In front of the head of an arrow there are name characters and blanks only. -/
theorem exists_of_arrowName? (h : arrowName? t = some (old, rest)) :
    ∃ lead, t = lead ++ '>' :: rest ∧ ∀ c ∈ lead, isNameChar c ∨ isBlank c := by
  obtain ⟨⟨run, behind⟩, read, found⟩ := Option.bind_eq_some_iff.mp h
  obtain ⟨rfl, rfl⟩ := propertyName?_eq_some read
  have whole : t = Text.nameRun t ++ t.dropWhile isNameChar :=
    List.takeWhile_append_dropWhile.symm
  have named : ∀ c ∈ Text.nameRun t, isNameChar c := fun c mem => List.mem_takeWhile_imp mem
  generalize Text.nameRun t = run at *
  generalize t.dropWhile isNameChar = behind at *
  dsimp only at found
  split at found
  next after arrow =>
    -- behind blanks
    obtain ⟨-, rfl⟩ := Prod.mk.inj (Option.some.inj found)
    have arrow := List.isPrefixOf?_eq_some_iff_append_eq.mp arrow
    have blanks : behind.takeWhile isBlank ++ behind.dropWhile isBlank = behind :=
      List.takeWhile_append_dropWhile
    refine ⟨run ++ behind.takeWhile isBlank ++ ['-'], ?_, fun c mem => ?_⟩
    · rw [← arrow] at blanks
      simpa [whole] using blanks.symm
    · rcases List.mem_append.mp mem with mem | mem
      · rcases List.mem_append.mp mem with mem | mem
        · exact .inl (named c mem)
        · exact .inr (List.mem_takeWhile_imp mem)
      · rw [List.mem_singleton.mp mem]
        exact .inl (by decide)
  · -- right behind the name, whose last hyphen is part of the arrow
    obtain ⟨-, found⟩ := Option.ite_none_right_eq_some.mp found
    obtain ⟨after, head, eq⟩ := Option.bind_eq_some_iff.mp found
    obtain ⟨-, rfl⟩ := Prod.mk.inj (Option.some.inj eq)
    refine ⟨run, ?_, fun c mem => .inl (named c mem)⟩
    rw [whole, ← List.isPrefixOf?_eq_some_iff_append_eq.mp head]
    rfl

theorem arrowRule_eq_none_of (h : arrowName? t = none) : arrowRule none t = none := by
  rw [arrowRule, h]
  rfl

/-- **No other text is taken for an arrow**: a semicolon does not stand in front of the head of
one. -/
theorem arrowRule_eq_none (h : '>' ∉ x) (w : Text) : arrowRule none (x ++ ';' :: w) = none := by
  refine arrowRule_eq_none_of ?_
  cases found : arrowName? (x ++ ';' :: w) with
  | none => rfl
  | some result =>
    obtain ⟨lead, split, chars⟩ := exists_of_arrowName? found
    rcases List.append_eq_append_iff.mp split with ⟨between, rfl, eq⟩ | ⟨between, rfl, eq⟩
    · cases between with
      | nil => exact absurd (List.cons.inj eq).1 (by decide)
      | cons c between =>
        obtain rfl := (List.cons.inj eq).1
        exact absurd (chars ';' (by simp)) (by decide)
    · cases between with
      | nil => exact absurd (List.cons.inj eq).1 (by decide)
      | cons c between =>
        obtain rfl := (List.cons.inj eq).1
        exact absurd (by simp) h

/-- An arrow starts with a name. -/
theorem arrowRule_of_not_startsInName (h : Text.startsInName t = false) :
    arrowRule none t = none := by
  refine arrowRule_eq_none_of ?_
  have no_name : propertyName? t = none := by
    have run : Text.nameRun t = [] := Text.nameRun_append (a := []) nofun h
    rw [propertyName?, run]
    rfl
  rw [arrowName?, no_name]
  rfl

/-! ## Lines of notes -/

theorem isBlind_aliasRule : aliasRule.IsBlind :=
  fun _ _ => rfl

theorem isBlind_arrowRule : arrowRule.IsBlind :=
  fun _ _ => rfl

/-- What both rules find, by position, in a text whose first character has the given one. -/
def merged (start : Nat) (t : Text) : List (Nat × (Text × Text)) :=
  List.merge (aliasRule.foundAt start t) (arrowRule.foundAt start t) fun a b => a.1 ≤ b.1

theorem pairs_eq (t : Text) : pairs t = (merged 0 t).map Prod.snd :=
  rfl

theorem merged_nil (start : Nat) : merged start [] = [] :=
  List.nil_merge _

/-- A call in front of all arrows is merged first. -/
theorem merge_cons_left {a : Nat × (Text × Text)} {xs ys : List (Nat × (Text × Text))}
    (h : ∀ y ∈ ys, a.1 ≤ y.1) :
    List.merge (a :: xs) ys (fun a b => a.1 ≤ b.1) =
      a :: List.merge xs ys fun a b => a.1 ≤ b.1 := by
  cases ys with
  | nil => simp
  | cons y ys => exact List.cons_merge_cons_pos _ _ _ (by simpa using h y List.mem_cons_self)

/-- An arrow in front of all calls is merged first. -/
theorem merge_cons_right {a : Nat × (Text × Text)} {xs ys : List (Nat × (Text × Text))}
    (h : ∀ x ∈ xs, a.1 < x.1) :
    List.merge xs (a :: ys) (fun a b => a.1 ≤ b.1) =
      a :: List.merge xs ys fun a b => a.1 ≤ b.1 := by
  cases xs with
  | nil => simp
  | cons x xs => exact List.cons_merge_cons_neg _ _ _ (by simpa using h x List.mem_cons_self)

/-- Nothing is found in blanks. -/
theorem merged_blanks (start : Nat) (h : ∀ c ∈ u, isBlank c) (w : Text) :
    merged start (u ++ w) = merged (start + u.length) w := by
  have first : ∀ x, x <:+ u → x ≠ [] → ∃ c rest, x = c :: rest ∧ ¬isNameChar c ∧ '(' ∉ x := by
    intro x suffix ne
    obtain ⟨c, rest, rfl⟩ := List.exists_cons_of_ne_nil ne
    have blank : isBlank c := h c (suffix.subset List.mem_cons_self)
    exact ⟨c, rest, rfl, not_isNameChar_of_isBlank blank,
      fun mem => absurd (h '(' (suffix.subset mem)) (by decide)⟩
  rw [merged, isBlind_aliasRule.foundAt_left, isBlind_arrowRule.foundAt_left]
  · rfl
  · intro x suffix ne
    obtain ⟨c, rest, rfl, black, -⟩ := first x suffix ne
    exact arrowRule_of_not_startsInName (by simpa [Text.startsInName] using black)
  · intro x suffix ne
    obtain ⟨c, rest, rfl, black, no_paren⟩ := first x suffix ne
    exact aliasRule_of_no_paren no_paren ⟨c, List.mem_cons_self, black⟩ w

/-- A text that no line of a note can go on with. -/
def EndsLine (w : Text) : Prop :=
  ∀ c ∈ w.head?, isBlank c

theorem EndsLine.not_startsInName (h : EndsLine w) : Text.startsInName w = false := by
  cases w with
  | nil => rfl
  | cons c w => simpa [Text.startsInName] using not_isNameChar_of_isBlank (h c rfl)

/-- A part without a parenthesis is no call at the end of a line. -/
theorem aliasRule_of_endsLine (h : '(' ∉ x) (hw : EndsLine w) : aliasRule none (x ++ w) = none := by
  by_cases stop : ∃ c ∈ x, ¬isNameChar c
  · exact aliasRule_of_no_paren h stop w
  · -- the name goes on to the end of the line
    push Not at stop
    refine aliasRule_eq_none fun paren => ?_
    rw [List.dropWhile_append_of_pos stop] at paren
    cases w with
    | nil => cases paren
    | cons c w =>
      have blank : isBlank c := hw c rfl
      rw [List.dropWhile_cons_of_neg (not_isNameChar_of_isBlank blank)] at paren
      obtain rfl : c = '(' := by simpa using paren
      exact absurd blank (by decide)

/-- The search for calls passes over the word of the rule, takes the call and passes over the
semicolon. -/
theorem foundAt_aliasRule_include (start : Nat) {body : Text} {value : Text × Text}
    (taken : aliasRule none (body ++ ([';'] ++ w)) = some ⟨body, value⟩) (ne : body ≠ []) :
    aliasRule.foundAt start ("@include ".toList ++ body ++ [';'] ++ w) =
      (start + 9, value) ::
        aliasRule.foundAt (start + ("@include ".toList ++ body ++ [';']).length) w := by
  have parts : "@include ".toList ++ body ++ [';'] ++ w =
      "@include ".toList ++ (body ++ ([';'] ++ w)) := by simp
  have places : start + 9 + body.length + 1 =
      start + ("@include ".toList ++ body ++ [';']).length := by
    rw [List.length_append, List.length_append]
    show start + 9 + body.length + 1 = start + (9 + body.length + 1)
    omega
  rw [parts, isBlind_aliasRule.foundAt_left, isBlind_aliasRule.foundAt_hit _ taken ne,
    isBlind_aliasRule.foundAt_left, ← places]
  · rfl
  · intro x suffix ne
    refine aliasRule_of_no_paren (fun mem => absurd (suffix.subset mem) (by decide)) ?_ w
    rw [List.suffix_cons_iff, List.suffix_nil] at suffix
    exact ⟨';', by simp [suffix.resolve_right ne], by decide⟩
  · intro x suffix ne
    refine aliasRule_of_no_paren (fun mem => absurd (suffix.subset mem) (by decide)) ?_ _
    have word : "@include ".toList = "@include".toList ++ [' '] := rfl
    rw [word] at suffix
    obtain ⟨x, rfl, -⟩ := (List.suffix_concat_iff.mp suffix).resolve_left ne
    exact ⟨' ', by simp, by decide⟩

/-- The search for arrows passes over a statement without the head of one. -/
theorem foundAt_arrowRule_statement (start : Nat) (h : '>' ∉ u) :
    arrowRule.foundAt start (u ++ [';'] ++ w) =
      arrowRule.foundAt (start + (u ++ [';']).length) w := by
  refine isBlind_arrowRule.foundAt_left start fun x suffix ne => ?_
  obtain ⟨x, rfl, inside⟩ := (List.suffix_concat_iff.mp suffix).resolve_left ne
  rw [List.append_assoc]
  exact arrowRule_eq_none (fun mem => h (inside.subset mem)) w

namespace Note

variable {note : Note}

/-- **In the line of an arrow** both searches find the arrow and nothing else. -/
theorem merged_arrow (h : note.Proper) (arrow : note.form = .arrow) (start : Nat)
    (hw : EndsLine w) :
    merged start (note.text ++ w) = (start, note.pair) :: merged (start + note.text.length) w := by
  have line : note.text = note.old ++ " -> ".toList ++ note.new := by rw [text, arrow]
  have taken : arrowRule none (note.text ++ w) = some ⟨note.text, note.pair⟩ := by
    rw [line]
    exact arrowRule_arrow h.old h.new hw.not_startsInName
  have ne : note.text ≠ [] := by simp [line]
  have no_paren : '(' ∉ note.text := by
    have inside : ∀ name, IsPropertyName name → '(' ∉ name := fun name hn mem =>
      absurd (hn.chars '(' mem) (by decide)
    simp [line, inside _ h.old, inside _ h.new]
  rw [merged, isBlind_arrowRule.foundAt_hit start taken ne, isBlind_aliasRule.foundAt_left]
  · -- whatever calls there are stand behind the arrow
    refine merge_cons_right fun e mem => ?_
    have behind := Rule.le_of_mem_foundFrom mem
    have pos := List.length_pos_iff.mpr ne
    show start < e.1
    omega
  · intro x suffix _
    exact aliasRule_of_endsLine (fun mem => no_paren (suffix.subset mem)) hw

/-- **In the line of a call** both searches find the call and nothing else. -/
theorem merged_call (h : note.Proper) {front : Text} {old new : Quoting}
    (call : note.form = .call front old new) (start : Nat) (w : Text) :
    merged start (note.text ++ w) =
      (start + 9, note.pair) :: merged (start + note.text.length) w := by
  have called : ∀ c ∈ front, isNameChar c := by
    have := h.front
    rwa [call] at this
  generalize eq : callText front (old.quoted note.old) (new.quoted note.new) = body
  have line : note.text = "@include ".toList ++ body ++ [';'] := by
    simp only [text, call, eq]
  have taken : aliasRule none (body ++ ([';'] ++ w)) = some ⟨body, note.pair⟩ := by
    rw [← eq]
    exact aliasRule_call called old new h.old h.new
  have ne : body ≠ [] := by simp [← eq, callText]
  have no_head : '>' ∉ "@include ".toList ++ body := by
    have inside : ∀ name : Text, (∀ c ∈ name, isNameChar c) → '>' ∉ name := fun name hn mem =>
      absurd (hn '>' mem) (by decide)
    have mark : ∀ quoting : Quoting, '>' ∉ quoting.mark := by
      rintro (_ | _ | _) <;> decide
    simp [← eq, callText, Quoting.quoted, inside _ called, inside _ h.old.chars,
      inside _ h.new.chars, mark]
  rw [merged, line, foundAt_aliasRule_include start taken ne,
    foundAt_arrowRule_statement start no_head]
  -- whatever arrows there are stand behind the call
  refine merge_cons_left fun e mem => ?_
  have behind := Rule.le_of_mem_foundFrom mem
  have long : 9 ≤ ("@include ".toList ++ body ++ [';']).length := by simp
  show start + 9 ≤ e.1
  omega

/-- **In the line of a note** the note is found and nothing else. -/
theorem exists_merged_eq (h : note.Proper) (start : Nat) (hw : EndsLine w) :
    ∃ place, merged start (note.text ++ w) =
      (place, note.pair) :: merged (start + note.text.length) w := by
  cases form : note.form with
  | arrow => exact ⟨_, merged_arrow h form start hw⟩
  | call front old new => exact ⟨_, merged_call h form start w⟩

end Note

/-- In lines of notes, with blanks behind them, the notes are found in their order. -/
theorem map_merged_noted {notes : List Note} (h : ∀ note ∈ notes, note.Proper) (start : Nat)
    (hr : ∀ c ∈ rest, isBlank c) :
    (merged start (noted notes ++ rest)).map Prod.snd = notes.map Note.pair := by
  induction notes generalizing start with
  | nil =>
    have nothing := merged_blanks start hr []
    rw [List.append_nil, merged_nil] at nothing
    show (merged start rest).map Prod.snd = []
    rw [nothing]
    rfl
  | cons note notes ih =>
    rw [List.forall_mem_cons] at h
    cases notes with
    | nil =>
      -- the last line, with blanks behind it
      have ends : EndsLine rest := fun c mem => hr c (List.mem_of_mem_head? mem)
      obtain ⟨place, found⟩ := note.exists_merged_eq h.1 start ends
      show (merged start (note.text ++ rest)).map Prod.snd = [note.pair]
      rw [found, List.map_cons]
      exact congrArg (note.pair :: ·) (ih h.2 (start + note.text.length))
    | cons next notes =>
      -- behind the line break, the other lines
      have ends : EndsLine (['\n'] ++ (noted (next :: notes) ++ rest)) := by
        rintro c ⟨⟩
        decide
      obtain ⟨place, found⟩ := note.exists_merged_eq h.1 start ends
      rw [noted_cons_cons, List.append_assoc, List.append_assoc, found,
        merged_blanks _ (by decide), List.map_cons, ih h.2]
      rfl

/-- **Rename notes are read back**: a text with one note on every line tells the pairs of the notes
in their order. Their rename map has, in the order of the old names, the last pair of every old
name, unless it changes nothing. -/
theorem pairs_noted {notes : List Note} (h : ∀ note ∈ notes, note.Proper)
    (hr : ∀ c ∈ rest, isBlank c) :
    pairs (noted notes ++ rest) = notes.map Note.pair ∧
      Table.Strict (map (noted notes ++ rest)).pairs ∧
      ∀ old new, (old, new) ∈ (map (noted notes ++ rest)).pairs ↔
        Table.IsLast (notes.map Note.pair) (old, new) ∧ new ≠ old := by
  have read : pairs (noted notes ++ rest) = notes.map Note.pair := by
    rw [pairs_eq]
    exact map_merged_noted h 0 hr
  refine ⟨read, RenameMap.strict_ofPairs _, fun old new => ?_⟩
  rw [map, read, RenameMap.mem_ofPairs]
  refine and_congr_right fun last => ?_
  -- the names of custom properties are not empty, so a pair is dropped only if it changes nothing
  obtain ⟨earlier, later, split, -⟩ := last
  have mem : (old, new) ∈ notes.map Note.pair := by simp [split]
  obtain ⟨note, listed, eq⟩ := List.mem_map.mp mem
  obtain ⟨rfl, rfl⟩ := Prod.mk.inj eq
  have proper := h note listed
  have filled : ∀ name : Text, name ≠ [] → name.isEmpty = false := fun name ne =>
    Bool.eq_false_iff.mpr fun empty => ne (List.isEmpty_iff.mp empty)
  rw [RenameMap.changes, filled _ proper.old.ne_nil, filled _ proper.new.ne_nil]
  simp only [Bool.not_false, Bool.true_and, decide_eq_true_eq]
  exact ne_comm

/-- A name with a hyphen at its end in front of an arrow, a call with `alias` twice in its name, and
a later note that takes the renaming of the call back. -/
def threeNotes : List Note :=
  [⟨.arrow, "--a-".toList, "--alias".toList⟩,
    ⟨.call "x-alias".toList .single .bare, "--b".toList, "--c-".toList⟩,
    ⟨.arrow, "--b".toList, "--b".toList⟩]

theorem pairs_noted_threeNotes :
    (∀ note ∈ threeNotes, note.Proper) ∧ (∀ c ∈ ['\n'], isBlank c) ∧
      pairs (noted threeNotes ++ ['\n']) =
        [("--a-".toList, "--alias".toList), ("--b".toList, "--c-".toList),
          ("--b".toList, "--b".toList)] ∧
      ("--a-".toList, "--alias".toList) ∈ (map (noted threeNotes ++ ['\n'])).pairs ∧
      ∀ new, ("--b".toList, new) ∉ (map (noted threeNotes ++ ['\n'])).pairs := by
  have proper : ∀ note ∈ threeNotes, note.Proper := by decide
  have blank : ∀ c ∈ ['\n'], isBlank c := by decide
  obtain ⟨read, -, kept⟩ := pairs_noted proper blank
  have first : Table.IsLast (threeNotes.map Note.pair) ("--a-".toList, "--alias".toList) :=
    ⟨[], _, rfl, by decide⟩
  refine ⟨proper, blank, read, (kept _ _).mpr ⟨first, by decide⟩, fun new mem => ?_⟩
  -- the last pair with this old name changes nothing
  obtain ⟨last, changes⟩ := (kept _ _).mp mem
  have last : Table.IsLast ((threeNotes.take 2).map Note.pair ++ [("--b".toList, "--b".toList)])
      ("--b".toList, new) := last
  rcases Table.isLast_concat.mp last with eq | ⟨ne, -⟩
  · exact changes (Prod.mk.inj eq).2
  · exact ne rfl

end RenameNotes

end StyleTokens
