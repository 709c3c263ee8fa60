import Mathlib.Data.List.Chain
import StyleTokens.Inventory
import StyleTokens.Proofs.Rename.Atoms
import StyleTokens.Proofs.Stylesheet.Statement
import StyleTokens.Proofs.Text.Trim

/-!
# What a renamed statement declares

A statement with new names is taken apart in the same way as the one with the old names: it is
trimmed, its first colon or the name of its at-rule is found at the same atoms, and it declares a
token of the same kind. What has to be asked for is that the name of the token is renamed as a
whole or not at all.

## Main definitions

* `Rename.trimmed`: the atoms of a trimmed text
* `Statement.declared?`: the property, block or function that a statement declares
* `Rename.StatementCut`: what the atoms of a statement are like
* `Rename.Whole`: a token is renamed as a whole or not at all

## Main results

* `Rename.takeWhile_written`, `Rename.trim_written`: a text is taken apart between its atoms
* `Rename.declared?_written`: what a statement declares under its new names
-/

namespace StyleTokens

/-- The property, block or function that a statement declares. -/
def Statement.declared? (statement : Statement) : Option (TokenKind × Text) :=
  statement.token?.filter fun token => token.1 ≠ .moduleRef

namespace Rename

/-! ## Texts taken apart between their atoms -/

section

variable {f g : Text → Text} {A B : List Atom} {a : Atom} {p : Char → Bool} {b : Bool}

theorem takeWhile_written (h : Named f A) (hp : ∀ c, isNameChar c → p c = b) :
    (written f A).takeWhile p = written f (A.takeWhile (Atom.lift p b)) := by
  induction A with
  | nil => rfl
  | cons a A ih =>
    obtain ⟨first, rest⟩ := named_cons.mp h
    cases a with
    | plain c => by_cases hc : p c <;> simp [Atom.lift, hc, ih rest]
    | name old =>
      have named := first old rfl
      cases b with
      | true =>
        rw [written_name, List.takeWhile_append_of_pos fun c hc => hp c (named.chars c hc), ih rest,
          List.takeWhile_cons_of_pos rfl, written_name]
      | false =>
        obtain ⟨tail, eq⟩ := named.exists_eq
        simp [Atom.lift, eq, hp '-' (by decide)]

theorem dropWhile_written (h : Named f A) (hp : ∀ c, isNameChar c → p c = b) :
    (written f A).dropWhile p = written f (A.dropWhile (Atom.lift p b)) := by
  have split : (written f A).takeWhile p ++ (written f A).dropWhile p =
      (written f A).takeWhile p ++ written f (A.dropWhile (Atom.lift p b)) := by
    rw [List.takeWhile_append_dropWhile, takeWhile_written h hp, ← written_append,
      List.takeWhile_append_dropWhile]
  exact List.append_cancel_left split

theorem any_written (h : Named f A) (hp : ∀ c, isNameChar c → p c = b) :
    (written f A).any p = A.any (Atom.lift p b) := by
  induction A with
  | nil => rfl
  | cons a A ih =>
    obtain ⟨first, rest⟩ := named_cons.mp h
    cases a with
    | plain c => simp [Atom.lift, ih rest]
    | name old =>
      have named := first old rfl
      obtain ⟨tail, eq⟩ := named.exists_eq
      have all : (f old).any p = b := by
        cases b with
        | true => simp [eq, hp '-' (by decide)]
        | false => simpa using fun c hc => hp c (named.chars c hc)
      rw [written_name, List.any_append, all, ih rest]
      rfl

theorem rdropWhile_written (h : Named f A) (hp : ∀ c, isNameChar c → p c = false) :
    (written f A).rdropWhile p = written f (A.rdropWhile (Atom.lift p false)) := by
  induction A using List.reverseRecOn with
  | nil => rfl
  | append_singleton A a ih =>
    have rest := ih (h.mono (List.subset_append_left A [a]))
    cases a with
    | plain c =>
      rw [written_append, List.rdropWhile_concat]
      have single : written f [.plain c] = [c] := rfl
      rw [single, List.rdropWhile_concat]
      by_cases hc : p c <;> simp [Atom.lift, hc, rest]
    | name old =>
      have named := h old (by simp)
      rw [List.rdropWhile_concat_neg _ _ _ (by simp [Atom.lift]), written_append]
      refine List.rdropWhile_eq_self_iff.mpr fun ne => ?_
      have last : (written f A ++ written f [.name old]).getLast ne ∈ f old := by
        have single : written f [.name old] = f old := by simp
        simp only [single]
        rw [List.getLast_append_of_ne_nil _ named.ne_nil]
        exact List.getLast_mem _
      simpa using hp _ (named.chars _ last)

theorem rtakeWhile_written (h : Named f A) (hp : ∀ c, isNameChar c → p c = true) :
    (written f A).rtakeWhile p = written f (A.rtakeWhile (Atom.lift p true)) := by
  induction A using List.reverseRecOn with
  | nil => rfl
  | append_singleton A a ih =>
    have rest := ih (h.mono (List.subset_append_left A [a]))
    cases a with
    | plain c =>
      have single : written f [.plain c] = [c] := rfl
      rw [written_append, single, List.rtakeWhile_concat, List.rtakeWhile_concat]
      by_cases hc : p c <;> simp [Atom.lift, hc, rest]
    | name old =>
      have named := h old (by simp)
      have single : written f [.name old] = f old := by simp
      have all : ∀ c ∈ (f old).reverse, p c := fun c hc =>
        hp c (named.chars c (List.mem_reverse.mp hc))
      rw [List.rtakeWhile_concat_pos _ _ _ (by simp [Atom.lift]), written_append, written_append,
        single, ← rest, List.rtakeWhile, List.reverse_append,
        List.takeWhile_append_of_pos all, List.reverse_append, List.reverse_reverse]
      rfl

/-- Without names to be changed, the text stays. -/
theorem written_of_no_names (h : ∀ old, .name old ∉ A) : written f A = written g A := by
  induction A with
  | nil => rfl
  | cons a A ih =>
    have rest := ih fun old mem => h old (List.mem_cons_of_mem a mem)
    cases a with
    | plain c => rw [written_plain, written_plain, rest]
    | name old => exact absurd List.mem_cons_self (h old)

theorem infix_written {old : Text} (h : .name old ∈ A) : f old <:+: written f A := by
  obtain ⟨A₀, A₁, rfl⟩ := List.append_of_mem h
  refine ⟨written f A₀, written f A₁, ?_⟩
  simp

theorem written_eq_nil (h : Named f A) : written f A = [] ↔ A = [] := by
  constructor
  · intro nil
    cases A with
    | nil => rfl
    | cons a A =>
      cases a with
      | plain c => cases nil
      | name old =>
        rw [written_name, List.append_eq_nil_iff] at nil
        exact absurd nil.1 (h old (by simp)).ne_nil
  · rintro rfl
    rfl

/-- Where all characters are name characters, all atoms are part of a name. -/
theorem inName_of_written (h : ∀ c ∈ written id A, isNameChar c) : ∀ a ∈ A, a.inName := by
  intro a mem
  cases a with
  | plain c => exact h c (List.mem_flatMap.mpr ⟨_, mem, List.mem_singleton_self c⟩)
  | name old => rfl

/-- A name that is cut out of a name is all of it. -/
theorem eq_singleton_of_isChain {old : Text} (chain : B.IsChain Atom.Apart) (inB : A <:+: B)
    (inside : ∀ a ∈ A, a.inName) (mem : .name old ∈ A) : A = [.name old] := by
  have chain' := List.IsChain.infix chain inB
  obtain ⟨X, Y, rfl⟩ := List.append_of_mem mem
  obtain ⟨-, right, between⟩ := List.isChain_append.mp chain'
  rcases List.eq_nil_or_concat' X with rfl | ⟨X, b, rfl⟩
  · cases Y with
    | nil => rfl
    | cons b Y =>
      obtain ⟨⟨_, eq⟩, -⟩ := (List.isChain_cons_cons.mp right).1 rfl (inside b (by simp))
      cases eq
  · obtain ⟨-, _, eq⟩ := between b (by simp) (.name old) (by simp) (inside b (by simp)) rfl
    cases eq

/-! ## Trimmed texts -/

/-- Whether an atom is a blank. -/
abbrev Atom.isBlank : Atom → Bool :=
  Atom.lift StyleTokens.isBlank false

/-- The atoms without the blanks at their two ends. -/
def trimmed (A : List Atom) : List Atom :=
  (A.dropWhile Atom.isBlank).rdropWhile Atom.isBlank

theorem trimmed_isInfix : trimmed A <:+: A :=
  (List.rdropWhile_prefix _ _).isInfix.trans (List.dropWhile_suffix _).isInfix

theorem isBlank_eq_false {c : Char} (h : isNameChar c) : isBlank c = false := by
  simpa using not_isBlank_of_isNameChar h

theorem trim_written (h : Named f A) : Text.trim (written f A) = written f (trimmed A) := by
  have dropped : Named f (A.dropWhile Atom.isBlank) := h.mono (List.dropWhile_suffix _).subset
  rw [trimmed, ← rdropWhile_written dropped fun c hc => isBlank_eq_false hc,
    ← dropWhile_written h fun c hc => isBlank_eq_false hc]
  rfl

/-- The blanks in front of and behind the trimmed atoms. -/
theorem exists_trimmed (A : List Atom) : ∃ front back, A = front ++ (trimmed A ++ back) ∧
    (∀ a ∈ front, a.isBlank) ∧ ∀ a ∈ back, a.isBlank := by
  refine ⟨A.takeWhile Atom.isBlank, (A.dropWhile Atom.isBlank).rtakeWhile Atom.isBlank, ?_,
    fun a => List.mem_takeWhile_imp, fun a => List.mem_rtakeWhile_imp⟩
  rw [trimmed, List.rdropWhile_append_rtakeWhile, List.takeWhile_append_dropWhile]

/-! ## Declarations -/

/-- Two hyphens at the start of a text stay there, and none come. -/
theorem sigil_written (hf : Named f A) (hg : Named g A) :
    Statement.propertySigil.isPrefixOf (written f A) =
      Statement.propertySigil.isPrefixOf (written g A) := by
  match A with
  | [] | [.plain _] | .plain _ :: .plain _ :: _ => rfl
  | .name old :: A =>
    obtain ⟨_, eq⟩ := (hf old (by simp)).exists_eq
    obtain ⟨_, eq'⟩ := (hg old (by simp)).exists_eq
    rw [written_name, written_name, eq, eq']
    rfl
  | .plain _ :: .name old :: A =>
    obtain ⟨_, eq⟩ := (hf old (by simp)).exists_eq
    obtain ⟨_, eq'⟩ := (hg old (by simp)).exists_eq
    rw [written_plain, written_plain, written_name, written_name, eq, eq']
    rfl

/-- The atoms in front of the first colon. -/
def head (A : List Atom) : List Atom :=
  A.takeWhile (Atom.lift (· ≠ ':') true)

/-- Where there is a colon, the head ends in front of the first one. -/
theorem exists_eq_head_append (colon : A.any (Atom.lift (· = ':') false)) :
    ∃ R, A = head A ++ .plain ':' :: R := by
  induction A with
  | nil => cases colon
  | cons a A ih =>
    by_cases here : a = .plain ':'
    · subst here
      exact ⟨A, rfl⟩
    · have apart : Atom.lift (· ≠ ':') true a = true ∧ Atom.lift (· = ':') false a = false := by
        cases a with
        | plain c =>
          have : c ≠ ':' := fun eq => here (congrArg _ eq)
          simp [Atom.lift, this]
        | name old => exact ⟨rfl, rfl⟩
      rw [List.any_cons, apart.2, Bool.false_or] at colon
      obtain ⟨R, eq⟩ := ih colon
      refine ⟨R, ?_⟩
      rw [head, List.takeWhile_cons_of_pos apart.1, List.cons_append]
      exact congrArg (a :: ·) eq

theorem isNameChar_ne {c d : Char} (hc : isNameChar c) (hd : isNameChar d = false) : c ≠ d := by
  rintro rfl
  rw [hc] at hd
  cases hd

theorem ne_colon {c : Char} (hc : isNameChar c) : decide (c ≠ ':') = true := by
  simpa using isNameChar_ne hc (by decide)

theorem declared?_declaration (property value : Text) (line : Nat) :
    (Statement.declaration property value line).declared? =
      if Statement.propertySigil.isPrefixOf property then some (.property, property) else none := by
  rw [Statement.declared?, Statement.token?]
  split_ifs <;> rfl

/-- What the text of a declaration declares. -/
theorem declaration?_written (h : Named f A) (line : Nat) :
    (Statement.declaration? (written f A) line).bind Statement.declared? =
      if !A.any (Atom.lift (· = ':') false) || (trimmed (head A)).isEmpty ||
          (trimmed (head A)).any Atom.isBlank then none
      else if Statement.propertySigil.isPrefixOf (written f (trimmed (head A))) then
        some (.property, written f (trimmed (head A)))
      else none := by
  have front : Named f (head A) := h.mono (List.takeWhile_prefix _).subset
  have inner : Named f (trimmed (head A)) := front.mono trimmed_isInfix.subset
  have property : Text.trim ((written f A).takeWhile (· ≠ ':')) =
      written f (trimmed (head A)) := by
    rw [takeWhile_written h fun c hc => ne_colon hc, ← trim_written front]
    rfl
  have colon : (written f A).contains ':' = A.any (Atom.lift (· = ':') false) := by
    rw [← any_written h fun c hc => by simpa using isNameChar_ne hc (by decide)]
    rw [Bool.eq_iff_iff]
    simp
  have empty : (written f (trimmed (head A))).isEmpty = (trimmed (head A)).isEmpty := by
    rw [Bool.eq_iff_iff, List.isEmpty_iff, List.isEmpty_iff, written_eq_nil inner]
  have blank : (written f (trimmed (head A))).any isBlank = (trimmed (head A)).any Atom.isBlank :=
    any_written inner fun c hc => isBlank_eq_false hc
  unfold Statement.declaration?
  simp only [property, colon, empty, blank]
  by_cases refused : (!A.any (Atom.lift (· = ':') false) || (trimmed (head A)).isEmpty ||
      (trimmed (head A)).any Atom.isBlank) = true
  · rw [if_pos refused, if_pos refused]
    rfl
  · rw [if_neg refused, if_neg refused]
    exact declared?_declaration _ _ line

/-- A head that is a name to be changed is cut out as one. -/
def HeadCut (names : List Text) (H : List Atom) : Prop :=
  Text.trim (written id H) ∈ names → trimmed H = [.name (Text.trim (written id H))]

/-- A token with the new name, if it is a property. -/
def renameToken (m : Text → Text) (token : TokenKind × Text) : TokenKind × Text :=
  (token.1, if token.1 = .property then m token.2 else token.2)

variable {m : Text → Text} {names : List Text}

theorem trimmed_append_left (blank : ∀ a ∈ B, a.isBlank) : trimmed (B ++ A) = trimmed A := by
  rw [trimmed, List.dropWhile_append_of_pos blank, trimmed]

/-- A colon in the trimmed atoms is one of the atoms, with blanks more or less in front of it. -/
theorem headCut_trimmed (named : Named id A)
    (heads : ∀ H R, A = H ++ .plain ':' :: R → .plain ':' ∉ H → HeadCut names H)
    (colon : (trimmed A).any (Atom.lift (· = ':') false)) :
    HeadCut names (head (trimmed A)) := by
  obtain ⟨front, back, eq, blank, -⟩ := exists_trimmed A
  obtain ⟨R, split⟩ := exists_eq_head_append colon
  have none_before : .plain ':' ∉ front ++ head (trimmed A) := by
    rw [List.mem_append, not_or]
    refine ⟨fun mem => absurd (blank _ mem) (by decide), fun mem => ?_⟩
    have := List.mem_takeWhile_imp mem
    simp [Atom.lift] at this
  have whole : A = front ++ head (trimmed A) ++ .plain ':' :: (R ++ back) := by
    rw [split] at eq
    conv_lhs => rw [eq]
    simp
  have sub : front ++ head (trimmed A) ⊆ A := by
    conv_rhs => rw [whole]
    exact List.subset_append_left _ _
  have sub' : head (trimmed A) ⊆ A := fun a ha => sub (List.mem_append_right _ ha)
  have cut := heads _ _ whole none_before
  -- blanks in front do not matter
  unfold HeadCut at cut ⊢
  rwa [trim_written (named.mono sub), trimmed_append_left blank, ← trim_written (named.mono sub')]
    at cut

/-- The atoms of a statement: they stand apart from one another, and the text in front of the
first colon is cut out as one if it is a name to be changed. -/
structure StatementCut (names : List Text) (A : List Atom) : Prop where
  mem : ∀ old, .name old ∈ A → old ∈ names
  apart : A.IsChain Atom.Apart
  heads : ∀ H R, A = H ++ .plain ':' :: R → .plain ':' ∉ H → HeadCut names H

theorem statementCut_nil : StatementCut names [] :=
  ⟨by simp, .nil, by simp⟩

/-- One more atom. -/
theorem StatementCut.concat (h : StatementCut names A) (mem : ∀ old, a = .name old → old ∈ names)
    (apart : ∀ b ∈ A.getLast?, b.Apart a)
    (head : a = .plain ':' → .plain ':' ∉ A → HeadCut names A) : StatementCut names (A ++ [a]) where
  mem := by
    intro old here
    rcases List.mem_append.mp here with here | here
    · exact h.mem old here
    · exact mem old (List.mem_singleton.mp here).symm
  apart := List.isChain_append.mpr ⟨h.apart, .singleton a, by simpa using apart⟩
  heads := by
    intro H R eq none_before
    rcases List.append_eq_append_iff.mp eq with ⟨e, rfl, more⟩ | ⟨e, rfl, more⟩
    · -- the colon is the new atom
      obtain ⟨rfl, rfl, -⟩ : e = [] ∧ a = .plain ':' ∧ R = [] := by
        cases e with
        | nil => simpa using more
        | cons b e => simp at more
      rw [List.append_nil] at none_before ⊢
      exact head rfl none_before
    · cases e with
      | nil =>
        obtain ⟨rfl, -⟩ : a = .plain ':' ∧ R = [] := by simpa [eq_comm] using more
        rw [List.append_nil] at head
        exact head rfl none_before
      | cons b e =>
        rw [List.cons_append, List.cons.injEq] at more
        exact h.heads H e (by rw [more.1]) none_before

/-- A token is renamed as a whole or not at all: a property that has one of the names in it is
one name, and a block or a function has none of the names. -/
def Whole (names : List Text) (token : TokenKind × Text) : Prop :=
  if token.1 = .property then (∃ name ∈ names, name <:+: token.2) → ∀ c ∈ token.2, isNameChar c
  else token.2 ∉ names

/-- The old names and the new ones are names of properties, and other names stay. -/
structure Renames (names : List Text) (m : Text → Text) : Prop where
  old : ∀ name ∈ names, IsPropertyName name
  new : ∀ name ∈ names, IsPropertyName (m name)
  fixed : ∀ name, name ∉ names → m name = name

theorem Renames.named_id (hn : Renames names m) (h : StatementCut names A) : Named id A :=
  fun old here => hn.old old (h.mem old here)

theorem Renames.named (hn : Renames names m) (h : StatementCut names A) : Named m A :=
  fun old here => hn.new old (h.mem old here)

/-- A statement that is a name between blanks, and has the name for an atom, has no other atom
between its blanks. -/
theorem StatementCut.trimmed_eq (h : StatementCut names A) (hn : Renames names m) {name : Text}
    (text : Text.trim (written id A) = name) (here : .name name ∈ A) : trimmed A = [.name name] := by
  have chars := (hn.old name (h.mem name here)).chars
  obtain ⟨front, back, split, frontBlank, backBlank⟩ := exists_trimmed A
  have inside : .name name ∈ trimmed A := by
    rw [split, List.mem_append, List.mem_append] at here
    rcases here with here | here | here
    · cases frontBlank _ here
    · exact here
    · cases backBlank _ here
  refine eq_singleton_of_isChain h.apart trimmed_isInfix (inName_of_written ?_) inside
  rwa [← trim_written (hn.named_id h), text]

/-- The atoms of the name of a property get its new name. -/
theorem written_property (hn : Renames names m) (h : StatementCut names B) (inB : A <:+: B)
    (whole : Whole names (.property, written id A))
    (cut : written id A ∈ names → A = [.name (written id A)]) :
    written m A = m (written id A) := by
  by_cases named : ∃ old, .name old ∈ A
  · obtain ⟨old, here⟩ := named
    have chars := whole ⟨old, h.mem old (inB.subset here), infix_written (f := id) here⟩
    obtain rfl := eq_singleton_of_isChain h.apart inB (inName_of_written chars) here
    simp
  · have none_here : ∀ old, .name old ∉ A := fun old here => named ⟨old, here⟩
    rw [written_of_no_names (f := m) (g := id) none_here, hn.fixed]
    intro one
    exact none_here _ (cut one ▸ List.mem_singleton_self _)

/-! ## At-rules -/

theorem isAtNameChar_eq (c : Char) : Statement.isAtNameChar c = isNameChar c := by
  simp only [Statement.isAtNameChar, isNameChar, isWord]
  cases isAlphanumeric c <;> simp [Bool.or_comm]

theorem hyphen_mem_lower {t : Text} (h : '-' ∈ t) : '-' ∈ Text.lower t := by
  have after : ∀ before, '-' ∈ Text.lowerAfter before t := by
    induction t with
    | nil => cases h
    | cons c t ih =>
      intro before
      rw [Text.lowerAfter, List.mem_append]
      rcases List.mem_cons.mp h with rfl | h
      · left
        rw [if_neg (by decide), if_neg (by decide)]
        decide
      · exact .inr (ih h _)
  exact after []

/-- Whether an identifier may start with the atom. -/
def Atom.startsIdentifier : Atom → Bool
  | .plain c => c.isAlpha || c = '_' || c = '-'
  | .name _ => true

/-- The atoms of the first identifier. -/
def identifier? (A : List Atom) : Option (List Atom) :=
  match trimmed A with
  | [] => none
  | a :: B =>
    if a.startsIdentifier then some (a :: B.takeWhile (Atom.lift isNameChar true)) else none

theorem firstIdentifier?_written (h : Named f A) :
    Statement.firstIdentifier? (written f A) = (identifier? A).map (written f) := by
  have inner : Named f (trimmed A) := h.mono trimmed_isInfix.subset
  unfold Statement.firstIdentifier? identifier?
  rw [trim_written h]
  cases eq : trimmed A with
  | nil => rfl
  | cons a B =>
    rw [eq] at inner
    obtain ⟨first, rest⟩ := named_cons.mp inner
    cases a with
    | plain c =>
      simp only [written_plain, Text.nameRun, takeWhile_written rest fun c hc => hc]
      by_cases start : Atom.startsIdentifier (.plain c)
      · rw [if_pos start]
        exact if_pos start
      · rw [if_neg start]
        exact if_neg start
    | name old =>
      have named := first old rfl
      obtain ⟨tail, eq⟩ := named.exists_eq
      have chars : ∀ c ∈ '-' :: tail, isNameChar c := by
        intro c hc
        exact named.chars c (by rw [eq]; exact List.mem_cons_of_mem _ hc)
      have run : Text.nameRun ('-' :: tail ++ written f B) =
          '-' :: tail ++ written f (B.takeWhile (Atom.lift isNameChar true)) := by
        rw [Text.nameRun, List.takeWhile_append_of_pos chars, takeWhile_written rest fun c hc => hc]
      have whole : written f (.name old :: B.takeWhile (Atom.lift isNameChar true)) =
          '-' :: Text.nameRun ('-' :: tail ++ written f B) := by
        rw [written_name, eq, run]
        rfl
      simp only [Atom.startsIdentifier, if_true, Option.map_some, whole, written_name, eq]
      rfl

theorem isNameChar_of_isAlpha {c : Char} (h : c.isAlpha) : isNameChar c := by
  have small : c.toNat < 128 := by
    unfold Char.isAlpha Char.isUpper Char.isLower at h
    simp only [Bool.or_eq_true, Bool.and_eq_true, decide_eq_true_eq, UInt32.le_iff_toNat_le] at h
    exact h.elim (fun upper => Nat.lt_of_le_of_lt upper.2 (by decide))
      fun lower => Nat.lt_of_le_of_lt lower.2 (by decide)
  exact forall_ascii (p := fun c => c.isAlpha → isNameChar c) (by decide) small h

theorem inName_of_startsIdentifier (h : a.startsIdentifier) : a.inName := by
  cases a with
  | plain c =>
    simp only [Atom.startsIdentifier, Bool.or_eq_true, decide_eq_true_eq] at h
    rcases h with (alpha | rfl) | rfl
    · exact isNameChar_of_isAlpha alpha
    · decide
    · decide
  | name old => rfl

/-- The first identifier is one name. -/
theorem identifier?_eq_some {C : List Atom} (h : identifier? A = some C) :
    C <:+: A ∧ ∀ a ∈ C, a.inName := by
  unfold identifier? at h
  split at h
  · cases h
  case h_2 a B eq =>
    split_ifs at h with start
    cases h
    constructor
    · refine List.IsInfix.trans (List.IsPrefix.isInfix ?_) (trimmed_isInfix (A := A))
      rw [eq]
      exact List.cons_prefix_cons.mpr ⟨rfl, List.takeWhile_prefix _⟩
    · intro b mem
      rcases List.mem_cons.mp mem with rfl | mem
      · exact inName_of_startsIdentifier start
      · exact List.mem_takeWhile_imp mem

/-- The mixin or function that an at-rule declares, by the atoms of its parameters. -/
theorem declared?_atRule (h : Named f A) (name : Text) (line : Nat) (opensBlock : Bool) :
    (Statement.atRule name (Text.trim (written f A)) line opensBlock).declared? =
      if name = "mixin".toList then
        (identifier? (trimmed A)).map fun C => (.block, written f C)
      else if name = "function".toList then
        (identifier? (trimmed A)).map fun C => (.function, written f C)
      else none := by
  have inner : Named f (trimmed A) := h.mono trimmed_isInfix.subset
  simp only [Statement.declared?, Statement.token?, trim_written h, firstIdentifier?_written inner]
  split_ifs with mixin function reference
  · cases identifier? (trimmed A) <;> rfl
  · cases identifier? (trimmed A) <;> rfl
  · cases Statement.moduleName? (written f (trimmed A)) <;> rfl
  · rfl

/-- The atoms of the name of an at-rule. -/
def atName (A : List Atom) : List Atom :=
  A.takeWhile (Atom.lift Statement.isAtNameChar true)

/-- The atoms of the parameters of an at-rule. -/
def atParams (A : List Atom) : List Atom :=
  A.dropWhile (Atom.lift Statement.isAtNameChar true)

theorem atRule?_written (h : Named f A) (line : Nat) (opensBlock : Bool) :
    (Statement.atRule? (written f A) line opensBlock).bind Statement.declared? =
      if atName A = [] then none
      else (Statement.atRule (Text.lower (written f (atName A)))
        (Text.trim (written f (atParams A))) line opensBlock).declared? := by
  have chars : ∀ c, isNameChar c → Statement.isAtNameChar c = true := fun c hc => by
    rwa [isAtNameChar_eq]
  have front : Named f (atName A) := h.mono (List.takeWhile_prefix _).subset
  have name : (written f A).takeWhile Statement.isAtNameChar = written f (atName A) :=
    takeWhile_written h chars
  have params : (written f A).dropWhile Statement.isAtNameChar = written f (atParams A) :=
    dropWhile_written h chars
  unfold Statement.atRule?
  simp only [name, params, List.isEmpty_iff]
  by_cases empty : atName A = []
  · rw [if_pos empty, if_pos ((written_eq_nil front).mpr empty)]
    rfl
  · rw [if_neg empty, if_neg (mt (written_eq_nil front).mp empty)]
    rfl

/-- An identifier that is none of the old names has none in it: a name that is cut out of an
identifier is all of it. -/
theorem written_identifier (h : StatementCut names B) (inB : A <:+: B) {C : List Atom}
    (found : identifier? A = some C) (outside : written id C ∉ names) :
    written f C = written id C := by
  obtain ⟨inside, inName⟩ := identifier?_eq_some found
  refine written_of_no_names fun old here => outside ?_
  obtain rfl := eq_singleton_of_isChain h.apart (inside.trans inB) inName here
  simpa using h.mem old ((inside.trans inB).subset here)

/-- So a block or a function that is renamed as a whole or not at all stays. -/
theorem map_identifier (h : StatementCut names B) (inB : A <:+: B) {kind : TokenKind}
    (other : kind ≠ .property)
    (whole : ∀ C, identifier? A = some C → Whole names (kind, written id C)) :
    (identifier? A).map (fun C => (kind, written m C)) =
      ((identifier? A).map fun C => (kind, written id C)).map (renameToken m) := by
  cases found : identifier? A with
  | none => rfl
  | some C =>
    have outside := whole C found
    rw [Whole, if_neg other] at outside
    simp [renameToken, other, written_identifier (f := m) h inB found outside]

/-- With a hyphen in its name, an at-rule declares nothing. -/
theorem declared?_atRule_of_hyphen (h : Named f A) {name : Text} (hyphen : '-' ∈ name) (line : Nat)
    (opensBlock : Bool) :
    (Statement.atRule name (Text.trim (written f A)) line opensBlock).declared? = none := by
  have other : ∀ {t : Text}, '-' ∉ t → name ≠ t := by
    rintro t without rfl
    exact without hyphen
  rw [declared?_atRule h, if_neg (other (by decide)), if_neg (other (by decide))]

/-- **An at-rule declares the same under its new names**, if its token is none of the old
names. -/
theorem declared?_atRule_written (hn : Renames names m) (h : StatementCut names B)
    (inB : A <:+: B) (line : Nat) (opensBlock : Bool)
    (whole : ∀ token, (Statement.atRule? (written id A) line opensBlock).bind
      Statement.declared? = some token → Whole names token) :
    (Statement.atRule? (written m A) line opensBlock).bind Statement.declared? =
      ((Statement.atRule? (written id A) line opensBlock).bind Statement.declared?).map
        (renameToken m) := by
  have hid : Named id A := (hn.named_id h).mono inB.subset
  have hm : Named m A := (hn.named h).mono inB.subset
  have params : atParams A <:+: A := (List.dropWhile_suffix _).isInfix
  have hid' : Named id (atParams A) := hid.mono params.subset
  have hm' : Named m (atParams A) := hm.mono params.subset
  rw [atRule?_written hid] at whole ⊢
  rw [atRule?_written hm]
  by_cases empty : atName A = []
  · rw [if_pos empty, if_pos empty]
    rfl
  rw [if_neg empty] at whole ⊢
  rw [if_neg empty]
  by_cases plain : ∀ old, .name old ∉ atName A
  · rw [written_of_no_names (f := m) (g := id) plain]
    simp only [declared?_atRule hid', declared?_atRule hm'] at whole ⊢
    have inB' : trimmed (atParams A) <:+: B := (trimmed_isInfix.trans params).trans inB
    split_ifs at whole ⊢ with mixin function
    · exact map_identifier h inB' (by decide) fun C found => whole _ (by simp [found])
    · exact map_identifier h inB' (by decide) fun C found => whole _ (by simp [found])
    · rfl
  · -- a name of a property in the name of the rule brings a hyphen with it
    obtain ⟨old, here⟩ := not_forall.mp plain
    rw [not_not] at here
    have hyphen : ∀ {f}, Named f A → '-' ∈ Text.lower (written f (atName A)) := by
      intro f named
      obtain ⟨tail, eq⟩ := (named old ((List.takeWhile_prefix _).subset here)).exists_eq
      refine hyphen_mem_lower ((infix_written here).subset ?_)
      simp [eq]
    rw [declared?_atRule_of_hyphen hm' (hyphen hm), declared?_atRule_of_hyphen hid' (hyphen hid)]
    rfl

/-! ## Statements -/

/-- **A declaration declares the same under its new names**, and a property under its new name. -/
theorem declared?_declaration_written (hn : Renames names m) (h : StatementCut names A) (line : Nat)
    (whole : ∀ token, (Statement.declaration? (written id (trimmed A)) line).bind
      Statement.declared? = some token → Whole names token) :
    (Statement.declaration? (written m (trimmed A)) line).bind Statement.declared? =
      ((Statement.declaration? (written id (trimmed A)) line).bind Statement.declared?).map
        (renameToken m) := by
  have hid := hn.named_id h
  have hm := hn.named h
  have front : head (trimmed A) <:+: A :=
    (List.takeWhile_prefix _).isInfix.trans trimmed_isInfix
  have inner : trimmed (head (trimmed A)) <:+: A := trimmed_isInfix.trans front
  rw [declaration?_written (hid.mono trimmed_isInfix.subset)] at whole ⊢
  rw [declaration?_written (hm.mono trimmed_isInfix.subset),
    sigil_written (hm.mono inner.subset) (hid.mono inner.subset)]
  split_ifs at whole ⊢ with refused sigil
  · rfl
  · -- the property is cut out as one name, or has none in it
    simp only [Bool.or_eq_true, not_or, Bool.not_eq_true, Bool.not_eq_false'] at refused
    have cut := headCut_trimmed hid h.heads refused.1.1
    rw [HeadCut, trim_written (hid.mono front.subset)] at cut
    rw [Option.map_some, renameToken, written_property hn h inner (whole _ rfl) cut]
    rfl
  · rfl

theorem ofText_eq_declaration? {t : Text} (at_ : t.head? ≠ some '@') (line : Nat)
    (opensBlock : Bool) : (Statement.ofText t line opensBlock).bind Statement.declared? =
      if opensBlock then none else (Statement.declaration? t line).bind Statement.declared? := by
  unfold Statement.ofText
  split
  · cases opensBlock <;> rfl
  · simp at at_
  · cases opensBlock <;> rfl

/-- A name does not start with an at sign, so a text with names starts with one where its atoms
do. -/
theorem head?_written_ne_at (h : Named f A) (at_ : ¬∃ B, A = .plain '@' :: B) :
    (written f A).head? ≠ some '@' := by
  cases A with
  | nil => simp
  | cons a B =>
    cases a with
    | plain c =>
      rw [written_plain, List.head?_cons, ne_eq, Option.some.injEq]
      rintro rfl
      exact at_ ⟨B, rfl⟩
    | name old =>
      obtain ⟨tail, name⟩ := (h old (by simp)).exists_eq
      simp [name]

/-- **What a statement declares under its new names**: the same token, and if it is a property,
under its new name. -/
theorem declared?_written (hn : Renames names m) (h : StatementCut names A) (line : Nat)
    (opensBlock : Bool)
    (whole : ∀ token, (Statement.ofText (Text.trim (written id A)) line opensBlock).bind
      Statement.declared? = some token → Whole names token) :
    (Statement.ofText (Text.trim (written m A)) line opensBlock).bind Statement.declared? =
      ((Statement.ofText (Text.trim (written id A)) line opensBlock).bind
        Statement.declared?).map (renameToken m) := by
  have hid := hn.named_id h
  have hm := hn.named h
  rw [trim_written hid] at whole ⊢
  rw [trim_written hm]
  by_cases at_ : ∃ B, trimmed A = .plain '@' :: B
  · obtain ⟨B, eq⟩ := at_
    have inA : B <:+: A := (eq ▸ (List.suffix_cons _ B).isInfix : B <:+: trimmed A).trans
      trimmed_isInfix
    rw [eq] at whole ⊢
    exact declared?_atRule_written hn h inA line opensBlock whole
  · have head_ne : ∀ {f}, Named f A → (written f (trimmed A)).head? ≠ some '@' :=
      fun named => head?_written_ne_at (named.mono trimmed_isInfix.subset) at_
    rw [ofText_eq_declaration? (head_ne hid)] at whole ⊢
    rw [ofText_eq_declaration? (head_ne hm)]
    cases opensBlock with
    | true => rfl
    | false => exact declared?_declaration_written hn h line whole

end

end Rename

end StyleTokens
