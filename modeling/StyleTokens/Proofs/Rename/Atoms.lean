import Mathlib.Tactic.MkIffOfInductiveProp
import StyleTokens.Proofs.Text.Pieces
import StyleTokens.Rename

/-!
# A text as names and other characters

Renaming custom properties cuts a text into names that get a new one and characters that stay.
The characters in front of a used property, `var(` and blanks, stay as well, so what is renamed
are names alone. Such a name is whole: no name character stands next to it on either side. And a
name that stands whole in front of a colon is always cut out, unless it has no new name.

## Main definitions

* `Rename.IsPropertyName`, `Rename.IsName`: the names of custom properties, and all names
* `Rename.Atom`, `Rename.written`: names and other characters, and the text they make up
* `Rename.atomsBy`, `Rename.atoms`: a text cut into them
* `Rename.Atom.Apart`: neighbours that are not part of one name
* `Rename.TakesWhole`: a rule that takes whole names
* `Rename.CutBy`: atoms as such a rule cuts them
* `Rename.WholeNames`: atoms of which the names are whole
* `Rename.Cut`: what the rule for properties says about neighbours

## Main results

* `Rename.cutBy_atomsBy`, `Rename.cut_atoms`: the atoms of a text
* `Rename.Cut.declared`: the atoms of a name in front of a colon
-/

namespace StyleTokens

/-! ## Name characters -/

variable {c : Char}

/-- The code points of blanks. -/
def blankPoints : List Nat :=
  [9, 10, 11, 12, 13, 28, 29, 30, 31, 32, 0x85, 0xa0, 0x1680, 0x2000, 0x2001, 0x2002, 0x2003,
    0x2004, 0x2005, 0x2006, 0x2007, 0x2008, 0x2009, 0x200a, 0x2028, 0x2029, 0x202f, 0x205f, 0x3000]

theorem toNat_mem_blankPoints (h : isBlank c) : c.toNat ∈ blankPoints := by
  simp only [isBlank, Bool.or_eq_true, Bool.and_eq_true, decide_eq_true_eq, beq_iff_eq] at h
  simp only [blankPoints, List.mem_cons, List.not_mem_nil, or_false]
  omega

theorem not_isNameChar_of_isBlank (h : isBlank c) : ¬isNameChar c := by
  have all : ∀ n ∈ blankPoints, ¬isNameChar (Char.ofNat n) := by decide +kernel
  have := all c.toNat (toNat_mem_blankPoints h)
  rwa [Char.ofNat_toNat] at this

theorem not_isBlank_of_isNameChar (h : isNameChar c) : ¬isBlank c :=
  fun blank => not_isNameChar_of_isBlank blank h

/-- A name in front of what is no name is all that stands there of a name. -/
theorem Text.nameRun_append {a t : Text} (ha : ∀ c ∈ a, isNameChar c)
    (ht : startsInName t = false) : nameRun (a ++ t) = a := by
  rw [nameRun, List.takeWhile_append_of_pos ha]
  cases t with
  | nil => simp
  | cons c t =>
    have : isNameChar c = false := by simpa [startsInName] using ht
    simp [this]

namespace Rename

/-- The names of custom properties: two hyphens and at least one more name character. -/
@[mk_iff]
structure IsPropertyName (name : Text) : Prop where
  sigil : "--".toList <+: name
  longer : 2 < name.length
  chars : ∀ c ∈ name, isNameChar c

instance : DecidablePred IsPropertyName := fun name =>
  decidable_of_iff' _ (isPropertyName_iff name)

theorem IsPropertyName.exists_eq {name : Text} (h : IsPropertyName name) :
    ∃ rest, name = '-' :: '-' :: rest := by
  obtain ⟨rest, rfl⟩ := h.sigil
  exact ⟨rest, rfl⟩

theorem IsPropertyName.ne_nil {name : Text} (h : IsPropertyName name) : name ≠ [] := by
  obtain ⟨rest, rfl⟩ := h.exists_eq
  exact List.cons_ne_nil _ _

/-- The words that can be renamed: at least one name character, and nothing else. -/
@[mk_iff]
structure IsName (name : Text) : Prop where
  ne_nil : name ≠ []
  chars : ∀ c ∈ name, isNameChar c

instance : DecidablePred IsName := fun name =>
  decidable_of_iff' _ (isName_iff name)

theorem IsPropertyName.isName {name : Text} (h : IsPropertyName name) : IsName name :=
  ⟨h.ne_nil, h.chars⟩

theorem IsName.startsInName {name : Text} (h : IsName name) (rest : Text) :
    Text.startsInName (name ++ rest) := by
  obtain ⟨c, name, rfl⟩ := List.exists_cons_of_ne_nil h.ne_nil
  exact h.chars c List.mem_cons_self

/-! ## Atoms -/

/-- A part of a text: a name that gets a new one, or a character that stays. -/
inductive Atom where
  | plain (c : Char)
  | name (old : Text)
  deriving DecidableEq, Repr

/-- Whether a class holds of an atom, where it holds of all name characters or of none. -/
def Atom.lift (p : Char → Bool) (onNames : Bool) : Atom → Bool
  | .plain c => p c
  | .name _ => onNames

/-- Whether an atom is part of a name. -/
abbrev Atom.inName : Atom → Bool :=
  Atom.lift isNameChar true

/-- Whether an atom is a name that gets a new one. -/
def Atom.isName : Atom → Bool
  | .plain _ => false
  | .name _ => true

/-- Two neighbours are not part of one name, unless no name is cut out of it. -/
def Atom.Apart (a b : Atom) : Prop :=
  a.inName → b.inName → (∃ c, a = .plain c) ∧ ∃ d, b = .plain d

/-- The atom with `f` of its name. -/
def Atom.written (f : Text → Text) : Atom → Text
  | .plain c => [c]
  | .name old => f old

/-- The text that atoms make up, with `f` of the names. -/
def written (f : Text → Text) (A : List Atom) : Text :=
  A.flatMap (Atom.written f)

/-- The names of the atoms become names of properties. -/
def Named (f : Text → Text) (A : List Atom) : Prop :=
  ∀ old, .name old ∈ A → IsPropertyName (f old)

section

variable {f : Text → Text} {A B : List Atom} {a : Atom} {c : Char} {old : Text}

@[simp]
theorem written_nil : written f [] = [] :=
  rfl

@[simp]
theorem written_plain : written f (.plain c :: A) = c :: written f A :=
  rfl

@[simp]
theorem written_name : written f (.name old :: A) = f old ++ written f A :=
  rfl

theorem written_singleton : written f [a] = a.written f :=
  List.flatMap_singleton ..

@[simp]
theorem written_append : written f (A ++ B) = written f A ++ written f B :=
  List.flatMap_append

@[simp]
theorem written_map_plain (t : Text) : written f (t.map .plain) = t := by
  induction t with
  | nil => rfl
  | cons c t ih => rw [List.map_cons, written_plain, ih]

theorem Named.mono (h : Named f B) (sub : A ⊆ B) : Named f A :=
  fun old mem => h old (sub mem)

theorem named_cons : Named f (a :: A) ↔ (∀ old, a = .name old → IsPropertyName (f old)) ∧
    Named f A := by
  constructor
  · intro h
    exact ⟨fun old eq => h old (by simp [eq]), h.mono (List.subset_cons_self a A)⟩
  · rintro ⟨first, rest⟩ old mem
    rcases List.mem_cons.mp mem with eq | mem
    · exact first old eq.symm
    · exact rest old mem

/-- Blanks have no names in them. -/
theorem Named.eq_map_plain (h : Named id A) (blank : ∀ c ∈ written id A, isBlank c) :
    A = (written id A).map .plain := by
  induction A with
  | nil => rfl
  | cons a A ih =>
    obtain ⟨first, rest⟩ := named_cons.mp h
    cases a with
    | plain c =>
      rw [written_plain, List.forall_mem_cons] at blank
      rw [written_plain, List.map_cons, ← ih rest blank.2]
    | name old =>
      obtain ⟨tail, eq⟩ := (first old rfl).exists_eq
      rw [written_name, eq] at blank
      exact absurd (blank '-' (by simp)) (by decide)

end

/-- The atoms of a piece: the characters in front of a name stay. -/
def atomsOf : Piece Occurrence → List Atom
  | .plain c => [.plain c]
  | .hit h => h.value.lead.map .plain ++ [.name h.value.old]

/-- The atoms of a text behind the given character, as a rule cuts it. -/
def atomsBy (rule : Rule Occurrence) (before : Option Char) (t : Text) : List Atom :=
  (rule.piecesFrom 0 before t).flatMap atomsOf

/-- The atoms of a text behind the given character, for names of properties. -/
def atoms (names : List Text) (before : Option Char) (t : Text) : List Atom :=
  atomsBy (propertyRule names) before t

/-- With new names in place of the old ones, the atoms make up the renamed text. -/
theorem written_atomsBy (rule : Rule Occurrence) (before : Option Char) (t : Text)
    (f : Text → Text) : written f (atomsBy rule before t) =
      rule.replacedFrom (fun occurrence => occurrence.lead ++ f occurrence.old) before t := by
  rw [written, atomsBy, List.flatMap_assoc, Rule.replacedFrom]
  congr 1
  funext piece
  cases piece with
  | plain c => rfl
  | hit h => exact written_append.trans (by rw [written_map_plain]; simp [Piece.output])

/-- Every hit gives one name. -/
theorem countP_atomsBy (rule : Rule Occurrence) (t : Text) :
    (atomsBy rule none t).countP Atom.isName = rule.hitCount t := by
  rw [Rule.hitCount, Rule.values, Rule.pieces, atomsBy]
  induction rule.piecesFrom 0 none t with
  | nil => rfl
  | cons piece pieces ih =>
    rw [List.flatMap_cons, List.countP_append, ih]
    cases piece with
    | plain c => rw [List.filterMap_cons_none rfl, Nat.add_eq_right]; rfl
    | hit h =>
      have value : Piece.value? (.hit h) = some h.value := rfl
      -- the characters in front of the name are none
      have lead : (h.value.lead.map Atom.plain).countP Atom.isName = 0 :=
        List.countP_eq_zero.mpr fun a ha => by
          obtain ⟨c, -, rfl⟩ := List.mem_map.mp ha
          exact Bool.false_ne_true
      rw [List.filterMap_cons_some value, atomsOf, List.countP_append, lead, List.length_cons,
        Nat.zero_add, Nat.add_comm]
      rfl

/-! ## What the rule takes -/

variable {names : List Text} {before : Option Char} {c : Char} {t : Text}

theorem eq_some_of_orElse {α : Type} {a b : Option α} {x : α} (h : (a <|> b) = some x) :
    a = some x ∨ b = some x := by
  cases a with
  | none => exact .inr h
  | some y => exact .inl h

theorem nameAt?_eq_some {fits : Text → Bool} {old : Text}
    (h : nameAt? names fits t = some old) : old ∈ names ∧ ∃ rest, t = old ++ rest ∧ fits rest := by
  have found := List.find?_some h
  rw [Bool.and_eq_true, List.isPrefixOf_iff_prefix] at found
  obtain ⟨⟨rest, rfl⟩, fit⟩ := found
  rw [List.drop_left] at fit
  exact ⟨List.mem_of_find?_eq_some h, rest, rfl, fit⟩

theorem not_startsInName_of_colonFollows (h : colonFollows t) : Text.startsInName t = false := by
  cases t with
  | nil => rfl
  | cons c t =>
    by_cases blank : isBlank c
    · simpa [Text.startsInName] using not_isNameChar_of_isBlank blank
    · simp only [colonFollows, List.dropWhile_cons_of_neg blank, List.head?_cons,
        decide_eq_true_eq, Option.some.injEq] at h
      subst h
      rfl

/-- What stands in front of a name that is cut out: nothing, where no name character stands
before, or `var(` and blanks. -/
inductive Lead : Option Char → Text → Prop
  | fresh {before : Option Char} : before.any isNameChar = false → Lead before []
  | used {before : Option Char} {blanks : Text} : (∀ c ∈ blanks, isBlank c) →
    Lead before ("var(".toList ++ blanks)

/-- **What the rule for properties takes**: a lead and a whole name, with a colon behind it if the
lead is empty. -/
theorem propertyRule_eq_some {hit : Hit Occurrence} (h : propertyRule names before t = some hit) :
    ∃ o rest, hit = Occurrence.hit o ∧ t = o.lead ++ o.old ++ rest ∧ o.old ∈ names ∧
      Lead before o.lead ∧ Text.startsInName rest = false ∧ (o.lead = [] → colonFollows rest) := by
  obtain ⟨occurrence, found, rfl⟩ := Option.map_eq_some_iff.mp h
  rcases eq_some_of_orElse found with used | fresh
  · simp only [usedProperty?, Option.bind_eq_bind, Option.bind_eq_some_iff, Option.pure_def,
      Option.some.injEq, List.isPrefixOf?_eq_some_iff_append_eq] at used
    obtain ⟨behind, rfl, old, name, rfl⟩ := used
    obtain ⟨mem, rest, split, ends⟩ := nameAt?_eq_some name
    refine ⟨_, rest, rfl, ?_, mem, .used fun c => List.mem_takeWhile_imp, by
      simpa [endsName] using ends, nofun⟩
    rw [List.append_assoc, List.append_assoc, ← split, List.takeWhile_append_dropWhile]
  · unfold freshName? at fresh
    split_ifs at fresh with inside
    obtain ⟨old, name, rfl⟩ := Option.map_eq_some_iff.mp fresh
    obtain ⟨mem, rest, rfl, colon⟩ := nameAt?_eq_some name
    exact ⟨_, rest, rfl, rfl, mem, .fresh (by simpa using inside),
      not_startsInName_of_colonFollows colon, fun _ => colon⟩

/-- A name stands here in front of a colon, and no name character before it. -/
def DeclaresAt (names : List Text) (before : Option Char) (t : Text) : Prop :=
  before.any isNameChar = false ∧ ∃ name ∈ names, ∃ rest, t = name ++ rest ∧ colonFollows rest

theorem not_declaresAt_of_propertyRule (h : propertyRule names before t = none) :
    ¬DeclaresAt names before t := by
  rintro ⟨outside, name, mem, rest, rfl, colon⟩
  have found : (nameAt? names colonFollows (name ++ rest)).isSome := by
    rw [nameAt?, List.find?_isSome]
    exact ⟨name, mem, by simp [colon]⟩
  obtain ⟨old, found⟩ := Option.isSome_iff_exists.mp found
  have fresh : freshName? names colonFollows before (name ++ rest) = some ⟨[], old⟩ := by
    rw [freshName?, if_neg (by simp [outside]), found]
    rfl
  rw [propertyRule, Option.map_eq_none_iff, fresh] at h
  cases used : usedProperty? names (name ++ rest) <;> simp [used] at h

/-! ## Rules that take whole names -/

/-- A rule that takes one of the names, behind some characters that stay. -/
structure TakesWhole (names : List Text) (rule : Rule Occurrence) : Prop where
  taken : ∀ {before t hit}, rule before t = some hit →
    ∃ o rest, hit = Occurrence.hit o ∧ t = o.lead ++ o.old ++ rest
  mem : ∀ {before o rest}, rule before (o.lead ++ o.old ++ rest) = some (Occurrence.hit o) →
    o.old ∈ names
  /-- No name character stands in front of the name. -/
  front : ∀ {before o rest}, rule before (o.lead ++ o.old ++ rest) = some (Occurrence.hit o) →
    (o.lead.getLast? <|> before).any isNameChar = false
  /-- No name character stands behind the name. -/
  behind : ∀ {before o rest}, rule before (o.lead ++ o.old ++ rest) = some (Occurrence.hit o) →
    Text.startsInName rest = false

theorem takesWhole_of_forall {rule : Rule Occurrence}
    (h : ∀ before t hit, rule before t = some hit →
      ∃ o rest, hit = Occurrence.hit o ∧ t = o.lead ++ o.old ++ rest ∧ o.old ∈ names ∧
        (o.lead.getLast? <|> before).any isNameChar = false ∧ Text.startsInName rest = false) :
    TakesWhole names rule := by
  have whole : ∀ {before o rest}, rule before (o.lead ++ o.old ++ rest) = some (Occurrence.hit o) →
      o.old ∈ names ∧ (o.lead.getLast? <|> before).any isNameChar = false ∧
        Text.startsInName rest = false := by
    intro before o rest found
    -- a hit tells the name and what stands in front of it
    obtain ⟨o', rest', eq, split, said⟩ := h _ _ _ found
    obtain rfl : o = o' := congrArg Hit.value eq
    rwa [List.append_cancel_left split]
  refine ⟨fun found => ?_, fun found => (whole found).1, fun found => (whole found).2.1,
    fun found => (whole found).2.2⟩
  obtain ⟨o, rest, eq, split, -⟩ := h _ _ _ found
  exact ⟨o, rest, eq, split⟩

/-- Such a rule takes characters that are there. -/
theorem TakesWhole.honest {rule : Rule Occurrence} (whole : TakesWhole names rule)
    (ne : ∀ name ∈ names, name ≠ []) : rule.Honest := by
  intro before t hit found
  obtain ⟨o, rest, rfl, rfl⟩ := whole.taken found
  exact ⟨⟨rest, rfl⟩, List.append_ne_nil_of_right_ne_nil _ (ne o.old (whole.mem found))⟩

/-- Atoms behind the given character, as a rule cuts them: one character where it takes nothing, or
all that it takes. -/
inductive CutBy (rule : Rule Occurrence) : Option Char → List Atom → Prop
  | nil {before : Option Char} : CutBy rule before []
  | plain {before : Option Char} {c : Char} {A : List Atom} :
    rule before (c :: written id A) = none → CutBy rule (some c) A →
    CutBy rule before (.plain c :: A)
  | hit {before : Option Char} {o : Occurrence} {A : List Atom} :
    rule before (o.lead ++ o.old ++ written id A) = some o.hit → CutBy rule o.old.getLast? A →
    CutBy rule before (o.lead.map .plain ++ .name o.old :: A)

/-- **The atoms of a text** make it up, and are cut as the rule does it. -/
theorem cutBy_atomsBy {rule : Rule Occurrence} (ne : ∀ name ∈ names, name ≠ [])
    (whole : TakesWhole names rule) (before : Option Char) (t : Text) :
    written id (atomsBy rule before t) = t ∧ CutBy rule before (atomsBy rule before t) := by
  -- behind a hit the text is shorter
  induction length : t.length using Nat.strongRecOn generalizing t before with
  | ind n ih =>
    subst length
    cases t with
    | nil => exact ⟨rfl, .nil⟩
    | cons c t =>
      cases found : rule before (c :: t) with
      | none =>
        have split : atomsBy rule before (c :: t) = .plain c :: atomsBy rule (some c) t := by
          rw [atomsBy, Rule.piecesFrom_plain found]
          rfl
        obtain ⟨text, cut⟩ := ih t.length (by simp) (some c) t rfl
        rw [split, written_plain, text]
        exact ⟨rfl, .plain (by rwa [text]) cut⟩
      | some hit =>
        obtain ⟨o, rest, rfl, eq⟩ := whole.taken found
        rw [eq] at found ⊢
        have old : o.old ≠ [] := ne o.old (whole.mem found)
        have split : atomsBy rule before (o.lead ++ o.old ++ rest) =
            o.lead.map .plain ++ .name o.old :: atomsBy rule o.old.getLast? rest := by
          rw [atomsBy, Rule.piecesFrom_hit found (by simp [old]),
            List.getLast?_append_of_ne_nil _ old]
          simp [atomsOf, atomsBy]
        have shorter : rest.length < (c :: t).length := by
          have := List.length_pos_iff.mpr old
          rw [eq]
          simp only [List.length_append]
          omega
        obtain ⟨text, cut⟩ := ih rest.length shorter o.old.getLast? rest rfl
        rw [split]
        exact ⟨by simp [text], .hit (by rwa [text]) cut⟩

theorem Lead.outside {lead : Text} (h : Lead before lead) :
    (lead.getLast? <|> before).any isNameChar = false := by
  cases h with
  | fresh outside => exact outside
  | @used blanks blank =>
    rcases List.eq_nil_or_concat' blanks with rfl | ⟨front, b, rfl⟩
    · rfl
    · rw [← List.append_assoc, List.getLast?_concat]
      simpa using not_isNameChar_of_isBlank (blank b (by simp))

theorem Lead.no_hyphen {lead : Text} (h : Lead before lead) : '-' ∉ lead := by
  cases h with
  | fresh => exact List.not_mem_nil
  | used blank =>
    rw [List.mem_append, not_or]
    exact ⟨by decide, fun h => absurd (blank _ h) (by decide)⟩

/-- What the rule for properties says about a hit. -/
theorem of_propertyRule_eq_hit {o : Occurrence} {rest : Text}
    (h : propertyRule names before (o.lead ++ o.old ++ rest) = some o.hit) : o.old ∈ names ∧
      Lead before o.lead ∧ Text.startsInName rest = false ∧ (o.lead = [] → colonFollows rest) := by
  obtain ⟨o', rest', eq, split, said⟩ := propertyRule_eq_some h
  obtain rfl : o = o' := congrArg Hit.value eq
  rwa [List.append_cancel_left split]

theorem takesWhole_propertyRule (names : List Text) : TakesWhole names (propertyRule names) := by
  refine takesWhole_of_forall fun before t hit found => ?_
  obtain ⟨o, rest, eq, split, mem, lead, ends, -⟩ := propertyRule_eq_some found
  exact ⟨o, rest, eq, split, mem, lead.outside, ends⟩

/-! ## Whole names -/

/-- Atoms behind the given character, of which the names are whole: no name character stands next to
one of them. -/
inductive WholeNames (names : List Text) : Option Char → List Atom → Prop
  | nil {before : Option Char} : WholeNames names before []
  | plain {before : Option Char} {c : Char} {A : List Atom} :
    WholeNames names (some c) A → WholeNames names before (.plain c :: A)
  | name {before : Option Char} {old : Text} {A : List Atom} : old ∈ names →
    before.any isNameChar = false → Text.startsInName (written id A) = false →
    WholeNames names old.getLast? A → WholeNames names before (.name old :: A)

section

variable {A : List Atom} {old : Text}

theorem WholeNames.append_lead {lead : Text} (h : WholeNames names (lead.getLast? <|> before) A) :
    WholeNames names before (lead.map .plain ++ A) := by
  induction lead generalizing before with
  | nil => exact h
  | cons c lead ih =>
    rw [Rule.getLast?_cons_orElse] at h
    exact .plain (ih h)

/-- A rule that takes whole names cuts out whole names. -/
theorem CutBy.whole {rule : Rule Occurrence} (whole : TakesWhole names rule)
    (h : CutBy rule before A) : WholeNames names before A := by
  induction h with
  | nil => exact .nil
  | plain _ _ ih => exact .plain ih
  | hit found _ ih =>
    exact .append_lead (.name (whole.mem found) (whole.front found) (whole.behind found) ih)

theorem WholeNames.mem (h : WholeNames names before A) (mem : .name old ∈ A) : old ∈ names := by
  induction h with
  | nil => cases mem
  | plain _ ih => exact ih (by simpa using mem)
  | name here _ _ _ ih =>
    rcases List.mem_cons.mp mem with eq | mem
    · cases eq
      exact here
    · exact ih mem

/-- No name is cut out next to a name character. -/
theorem WholeNames.isChain (hn : ∀ name ∈ names, IsName name) (h : WholeNames names before A) :
    A.IsChain Atom.Apart := by
  -- what is known of an atom is about the character in front of it, so look at the next atom
  induction h with
  | nil => exact .nil
  | @plain before c A rest ih =>
    cases A with
    | nil => exact .singleton _
    | cons b A =>
      refine .cons_cons (fun hc hb => ?_) ih
      cases rest with
      | plain => exact ⟨⟨_, rfl⟩, _, rfl⟩
      | name _ outside => exact absurd hc (by simpa [Atom.lift] using outside)
  | @name before old A mem _ ends rest ih =>
    cases A with
    | nil => exact .singleton _
    | cons b A =>
      refine .cons_cons (fun _ hb => ?_) ih
      cases rest with
      | @plain _ c _ _ => exact absurd hb (by simpa [Atom.lift, Text.startsInName] using ends)
      | @name _ old' A mem' _ _ _ =>
        have starts := (hn old' mem').startsInName (written id A)
        rw [written_name, id_eq, starts] at ends
        cases ends

end

/-! ## Names in front of a colon -/

/-- Atoms behind the given character, cut as the rule for properties does it: a name is whole, and
where a name stands whole in front of a colon, it is cut out. -/
inductive Cut (names : List Text) : Option Char → List Atom → Prop
  | nil {before : Option Char} : Cut names before []
  | plain {before : Option Char} {c : Char} {A : List Atom} :
    ¬DeclaresAt names before (c :: written id A) → Cut names (some c) A →
    Cut names before (.plain c :: A)
  | name {before : Option Char} {old : Text} {A : List Atom} : old ∈ names →
    before.any isNameChar = false → Text.startsInName (written id A) = false →
    Cut names old.getLast? A → Cut names before (.name old :: A)

variable {A A₀ A₁ : List Atom} {old : Text}

/-- Where no hyphen stands, no name starts. -/
theorem not_declaresAt_of_ne (hn : ∀ name ∈ names, IsPropertyName name) (hc : c ≠ '-') :
    ¬DeclaresAt names before (c :: t) := by
  rintro ⟨-, name, mem, rest, eq, -⟩
  obtain ⟨tail, rfl⟩ := (hn name mem).exists_eq
  rw [List.cons_append, List.cons.injEq] at eq
  exact hc eq.1

/-- What stands in front of a name declares nothing. -/
theorem Cut.append_lead (hn : ∀ name ∈ names, IsPropertyName name) {lead : Text}
    (hyphen : '-' ∉ lead) (h : Cut names (lead.getLast? <|> before) A) :
    Cut names before (lead.map .plain ++ A) := by
  induction lead generalizing before with
  | nil => exact h
  | cons c lead ih =>
    simp only [List.mem_cons, not_or] at hyphen
    rw [Rule.getLast?_cons_orElse] at h
    exact .plain (not_declaresAt_of_ne hn (Ne.symm hyphen.1)) (ih hyphen.2 h)

theorem CutBy.cut (hn : ∀ name ∈ names, IsPropertyName name)
    (h : CutBy (propertyRule names) before A) : Cut names before A := by
  induction h with
  | nil => exact .nil
  | plain none_here _ ih => exact .plain (not_declaresAt_of_propertyRule none_here) ih
  | hit found _ ih =>
    obtain ⟨mem, lead, ends, -⟩ := of_propertyRule_eq_hit found
    exact Cut.append_lead hn lead.no_hyphen (.name mem lead.outside ends ih)

/-- **The atoms of a text** make it up, and are cut as the rule says. -/
theorem cut_atoms (hn : ∀ name ∈ names, IsPropertyName name) (before : Option Char) (t : Text) :
    written id (atoms names before t) = t ∧ Cut names before (atoms names before t) := by
  obtain ⟨text, cut⟩ := cutBy_atomsBy (fun name mem => (hn name mem).ne_nil)
    (takesWhole_propertyRule names) before t
  exact ⟨text, cut.cut hn⟩

theorem Cut.right (hn : ∀ name ∈ names, IsPropertyName name) (h : Cut names before (A₀ ++ A)) :
    Cut names ((written id A₀).getLast? <|> before) A := by
  induction A₀ generalizing before with
  | nil => exact h
  | cons a A₀ ih =>
    cases h with
    | @plain _ c _ _ rest =>
      rw [written_plain, Rule.getLast?_cons_orElse]
      exact ih rest
    | @name _ old _ mem _ _ rest =>
      have last := ih rest
      rw [written_name]
      cases behind : (written id A₀).getLast? with
      | none =>
        rw [List.getLast?_eq_none_iff] at behind
        rw [behind] at last
        simp only [id_eq, behind, List.append_nil]
        obtain ⟨d, hd⟩ := Option.ne_none_iff_exists'.mp
          (mt List.getLast?_eq_none_iff.mp (hn old mem).ne_nil)
        rw [hd] at last ⊢
        exact last
      | some d =>
        rw [List.getLast?_append, behind]
        rw [behind] at last
        exact last

theorem Cut.whole (h : Cut names before A) : WholeNames names before A := by
  induction h with
  | nil => exact .nil
  | plain _ _ ih => exact .plain ih
  | name mem outside ends _ ih => exact .name mem outside ends ih

theorem Cut.isChain (hn : ∀ name ∈ names, IsPropertyName name) (h : Cut names before A) :
    A.IsChain Atom.Apart :=
  h.whole.isChain fun name mem => (hn name mem).isName

theorem Cut.mem (h : Cut names before A) (mem : .name old ∈ A) : old ∈ names :=
  h.whole.mem mem

/-- **A name in front of a colon is cut out**, where no name character stands before it. -/
theorem Cut.declared (hn : ∀ name ∈ names, IsPropertyName name) {P blanks : Text}
    (h : Cut names before (A₀ ++ .plain ':' :: A)) (outside : before.any isNameChar = false)
    (mem : P ∈ names) (text : written id A₀ = P ++ blanks) (blank : ∀ c ∈ blanks, isBlank c) :
    A₀ = .name P :: blanks.map .plain := by
  have colon : colonFollows (blanks ++ ':' :: written id A) := by
    rw [colonFollows, List.dropWhile_append_of_pos blank]
    rfl
  cases A₀ with
  | nil => simp [(hn P mem).ne_nil] at text
  | cons a A₀ =>
    have whole : written id (a :: A₀ ++ .plain ':' :: A) =
        P ++ (blanks ++ ':' :: written id A) := by
      rw [written_append, text, written_plain, List.append_assoc]
    cases h with
    | plain none_here => exact absurd ⟨outside, P, mem, _, whole, colon⟩ none_here
    | @name _ old _ cut _ ends rest =>
      -- the name that is cut out and the name in front of the colon end at the same place
      have same : old = P := by
        rw [← Text.nameRun_append (hn old cut).chars ends,
          ← Text.nameRun_append (hn P mem).chars (not_startsInName_of_colonFollows colon)]
        exact congrArg Text.nameRun whole
      subst same
      rw [written_name, id_eq, List.append_cancel_left_eq] at text
      rw [← text] at blank ⊢
      have named : Named id A₀ := fun old here =>
        hn old (rest.mem (List.mem_append_left _ here))
      exact congrArg _ (named.eq_map_plain blank)

/-- A place in the text stands between two atoms, or behind some characters of a name. -/
theorem exists_of_written_append {u x : Text} (text : written id A = u ++ x) :
    (∃ A₀ A₁, A = A₀ ++ A₁ ∧ written id A₀ = u ∧ written id A₁ = x) ∨
      ∃ A₀ y z A₁, A = A₀ ++ .name (y ++ z) :: A₁ ∧ y ≠ [] ∧ u = written id A₀ ++ y := by
  induction A generalizing u with
  | nil =>
    obtain ⟨rfl, rfl⟩ := List.append_eq_nil_iff.mp text.symm
    exact .inl ⟨[], [], rfl, rfl, rfl⟩
  | cons a A ih =>
    -- what stands in front of the place is empty, ends in this atom, or has all of it
    have further : ∀ {u'}, u = a.written id ++ u' → written id A = u' ++ x →
        (∃ A₀ A₁, a :: A = A₀ ++ A₁ ∧ written id A₀ = u ∧ written id A₁ = x) ∨
          ∃ A₀ y z A₁, a :: A = A₀ ++ .name (y ++ z) :: A₁ ∧ y ≠ [] ∧
            u = written id A₀ ++ y := by
      rintro u' rfl text
      rcases ih text with ⟨A₀, A₁, rfl, rfl, rest⟩ | ⟨A₀, y, z, A₁, rfl, ne, rfl⟩
      · exact .inl ⟨a :: A₀, A₁, rfl, rfl, rest⟩
      · exact .inr ⟨a :: A₀, y, z, A₁, rfl, ne, (List.append_assoc _ _ _).symm⟩
    cases u with
    | nil => exact .inl ⟨[], a :: A, rfl, rfl, text⟩
    | cons d u =>
      cases a with
      | plain c =>
        rw [written_plain, List.cons_append, List.cons.injEq] at text
        obtain ⟨rfl, text⟩ := text
        exact further rfl text
      | name old =>
        rw [written_name, id_eq] at text
        rcases List.append_eq_append_iff.mp text with ⟨e, eq, rest⟩ | ⟨e, rfl, -⟩
        · exact further eq rest
        · exact .inr ⟨[], d :: u, e, A, rfl, List.cons_ne_nil d u, rfl⟩

end Rename

end StyleTokens
