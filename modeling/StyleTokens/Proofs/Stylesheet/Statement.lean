import Mathlib.Tactic.SplitIfs
import StyleTokens.Proofs.Text.Trim
import StyleTokens.Stylesheet.Statement

/-!
# Written statements

What a statement spells out is found again in its text: the property and the value of a
declaration, the name and the parameters of an at-rule. Blanks around the text and around its
parts do not matter.

## Main definitions

* `Statement.isKeywordChar`: the characters of a name that lower case leaves alone

## Main results

* `Statement.ofText_declaration`: a written declaration
* `Statement.ofText_atRule`: a written at-rule
* `Statement.ofText_selector`: the header of any other block is no statement
-/

namespace StyleTokens

/-! ## Keywords -/

/-- The characters of a lower-case name: small letters, digits, the hyphen and the underscore. -/
def Statement.isKeywordChar (c : Char) : Bool :=
  c.isLower || c.isDigit || c = '-' || c = '_'

/-- A property of the characters below `128` is checked one by one. -/
theorem forall_ascii {p : Char → Prop} (h : ∀ n < 128, p (Char.ofNat n)) {c : Char}
    (hc : c.toNat < 128) : p c := by
  have := h c.toNat hc
  rwa [Char.ofNat_toNat] at this

/-- The letters that open an address, in either case. -/
theorem mem_of_toLower_mem_url {c : Char} (h : c.toLower ∈ "url".toList) :
    c ∈ "urlURL".toList := by
  by_cases small : c.toNat < 128
  · exact forall_ascii (p := fun c => c.toLower ∈ "url".toList → c ∈ "urlURL".toList) (by decide)
      small h
  · have lower : c.toLower = c := by
      unfold Char.toLower
      rw [dif_neg]
      rintro ⟨-, upper⟩
      exact small (Nat.lt_of_le_of_lt (UInt32.le_iff_toNat_le.mp upper) (by decide))
    rw [lower] at h
    exact List.mem_append_left "URL".toList h

namespace Statement

variable {b p v name params selector : Text} {n : Nat} {opensBlock : Bool} {c : Char}

theorem isKeywordChar_lt (h : isKeywordChar c) : c.toNat < 128 := by
  unfold isKeywordChar Char.isLower Char.isDigit at h
  simp only [Bool.or_eq_true, Bool.and_eq_true, decide_eq_true_eq] at h
  rcases h with ((⟨_, h⟩ | ⟨_, h⟩) | rfl) | rfl
  · exact Nat.lt_of_le_of_lt (UInt32.le_iff_toNat_le.mp h) (by decide)
  · exact Nat.lt_of_le_of_lt (UInt32.le_iff_toNat_le.mp h) (by decide)
  · decide
  · decide

theorem isAtNameChar_of_isKeywordChar (h : isKeywordChar c) : isAtNameChar c :=
  forall_ascii (p := fun c => isKeywordChar c → isAtNameChar c) (by decide)
    (isKeywordChar_lt h) h

theorem not_isBlank_of_isKeywordChar (h : isKeywordChar c) : ¬isBlank c :=
  forall_ascii (p := fun c => isKeywordChar c → ¬isBlank c) (by decide) (isKeywordChar_lt h) h

theorem lowerChar_of_isKeywordChar (h : isKeywordChar c) : lowerChar c = c :=
  forall_ascii (p := fun c => isKeywordChar c → lowerChar c = c) (by decide)
    (isKeywordChar_lt h) h

/-- A lower-case name stays as it is in lower case. -/
theorem lower_keyword (h : ∀ c ∈ name, isKeywordChar c) : Text.lower name = name := by
  have after : ∀ before, Text.lowerAfter before name = name := by
    induction name with
    | nil => exact fun _ => rfl
    | cons c name ih =>
      intro before
      rw [List.forall_mem_cons] at h
      have small := isKeywordChar_lt h.1
      have sigma : c ≠ 'Σ' := fun eq => absurd (eq ▸ small) (by decide)
      have dotted : c ≠ 'İ' := fun eq => absurd (eq ▸ small) (by decide)
      rw [Text.lowerAfter, if_neg sigma, if_neg dotted, lowerChar_of_isKeywordChar h.1, ih h.2]
      rfl
  exact after []

/-! ## Declarations -/

/-- **A written declaration** is found again behind blanks, its value trimmed. -/
theorem ofText_declaration (hb : ∀ c ∈ b, isBlank c) (ne : p ≠ [])
    (hp : ∀ c ∈ p, ¬isBlank c ∧ c ≠ ':') (at_ : p.head? ≠ some '@') :
    ofText (Text.trim (b ++ (p ++ ':' :: v))) n false = some (.declaration p (Text.trim v) n) := by
  obtain ⟨c, p, rfl⟩ := List.exists_cons_of_ne_nil ne
  have colon : ¬isBlank ':' := by decide
  have trimmed : Text.trim (b ++ (c :: p ++ ':' :: v)) =
      c :: p ++ ':' :: Text.dropEndWhile isBlank v := by
    rw [List.cons_append, Text.trim_blanks_append_cons _ hb (hp c (by simp)).1,
      Text.dropEndWhile_append_cons _ _ colon, List.cons_append]
  have property : Text.trim (c :: p) = c :: p :=
    Text.trimmed_of_forall fun d hd => (hp d hd).1
  -- the first colon is the one behind the property
  have taken : (c :: p ++ ':' :: Text.dropEndWhile isBlank v).takeWhile (· ≠ ':') = c :: p := by
    rw [List.takeWhile_append_of_pos (by simpa using fun d hd => (hp d hd).2)]
    simp
  have dropped : (c :: p ++ ':' :: Text.dropEndWhile isBlank v).dropWhile (· ≠ ':') =
      ':' :: Text.dropEndWhile isBlank v := by
    rw [List.dropWhile_append_of_pos (by simpa using fun d hd => (hp d hd).2)]
    simp
  have blankFree : (c :: p).any isBlank = false := by
    simpa using fun d hd => (hp d hd).1
  rw [trimmed, ofText]
  · simp only [Bool.false_eq_true, if_false]
    rw [declaration?, taken, dropped, property, blankFree]
    simp [Text.trim_dropEndWhile]
  · nofun
  · rintro body eq
    simp_all

/-! ## Headers -/

/-- **A written at-rule** is found again behind blanks, its parameters trimmed. -/
theorem ofText_atRule (hb : ∀ c ∈ b, isBlank c) (ne : name ≠ [])
    (hn : ∀ c ∈ name, isKeywordChar c) :
    ofText (Text.trim (b ++ ('@' :: name ++ ' ' :: params))) n opensBlock =
      some (.atRule name (Text.trim params) n opensBlock) := by
  -- the blank behind the name may be the first that trimming removes
  obtain ⟨rest, text_eq, stops, trim_eq⟩ : ∃ rest,
      Text.trim (b ++ ('@' :: name ++ ' ' :: params)) = '@' :: (name ++ rest) ∧
      (∀ c ∈ rest.head?, ¬isAtNameChar c) ∧ Text.trim rest = Text.trim params := by
    obtain ⟨front, c, rfl⟩ := (List.eq_nil_or_concat' name).resolve_left ne
    have last : ¬isBlank c := not_isBlank_of_isKeywordChar (hn c (by simp))
    refine ⟨Text.dropEndWhile isBlank (' ' :: params), ?_, ?_, ?_⟩
    · rw [List.cons_append, Text.trim_blanks_append_cons _ hb (by decide), List.append_assoc,
        List.singleton_append, Text.dropEndWhile_append_cons _ _ last, List.append_assoc,
        List.singleton_append]
    · have head : Text.dropEndWhile isBlank (' ' :: params) <+: ' ' :: params :=
        List.rdropWhile_prefix _ _
      intro d hd
      rw [Option.mem_def] at hd
      obtain ⟨tail, eq⟩ := head
      cases kept : Text.dropEndWhile isBlank (' ' :: params) with
      | nil => simp [kept] at hd
      | cons e kept =>
        simp_all [isAtNameChar]
        decide
    · rw [Text.trim_dropEndWhile]
      exact Text.trim_blanks_append (b := [' ']) params (by decide)
  have taken : (name ++ rest).takeWhile isAtNameChar = name := by
    rw [List.takeWhile_append_of_pos fun c hc => isAtNameChar_of_isKeywordChar (hn c hc)]
    cases rest with
    | nil => simp
    | cons d rest => simp [stops d rfl]
  have dropped : (name ++ rest).dropWhile isAtNameChar = rest := by
    rw [List.dropWhile_append_of_pos fun c hc => isAtNameChar_of_isKeywordChar (hn c hc)]
    cases rest with
    | nil => simp
    | cons d rest => simp [stops d rfl]
  rw [text_eq, ofText, atRule?, taken, dropped, trim_eq, lower_keyword hn]
  simp [ne]

/-- The header of a block that does not start with an `@` is no statement. -/
theorem ofText_header {t : Text} (at_ : t.head? ≠ some '@') : ofText t n true = none := by
  unfold ofText
  split
  · rfl
  · exact absurd rfl at_
  · rfl

/-- **The header of any other block** is no statement. -/
theorem ofText_selector (hb : ∀ c ∈ b, isBlank c) (at_ : selector.head? ≠ some '@')
    (start : ∀ c ∈ selector.head?, ¬isBlank c) :
    ofText (Text.trim (b ++ (selector ++ [' ']))) n true = none := by
  cases selector with
  | nil =>
    rw [Text.trim_eq_nil (by simpa using fun c hc => hc.elim (hb c) (· ▸ by decide))]
    rfl
  | cons c selector =>
    rw [List.cons_append, Text.trim_blanks_append_cons _ hb (start c rfl)]
    exact ofText_header at_

end Statement

end StyleTokens
