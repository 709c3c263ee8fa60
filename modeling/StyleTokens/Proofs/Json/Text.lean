import Mathlib.Tactic.SplitIfs
import StyleTokens.Json.Reader
import StyleTokens.Json.Writer

/-!
# Written texts are read back

Inside quotes, a character stands for itself, has an escape by a letter, or is escaped by its
UTF-16 units, of which there are two beyond the first plane. The reader takes these parts one by one
and puts them together afterwards. What comes from one character never joins with what comes from
the next one: only the first half of a pair waits for a partner, and it is always followed by its
own.

## Main definitions

* `Json.Spells`: what stands for a text between quotes, whatever is behind it

## Main results

* `Json.unit?_hex`: the digits of a unit spell it
* `Json.spells_escape`: the escape of a character stands for it
* `Json.readText_writeText`: a written text is read back, whatever its characters
-/

namespace StyleTokens.Json

variable {c e : Char} {n : Nat} {t u written written' : Text}

/-- Between quotes, one text stands for another one, whatever is behind it: it is read as parts of
its own, and these are put together to the text. -/
def Spells (written t : Text) : Prop :=
  ∃ parts, (∀ rest, readParts (written ++ rest) =
      (readParts rest).map fun (more, rest) => (parts ++ more, rest)) ∧
    ∀ more, joinParts (parts ++ more) = t ++ joinParts more

theorem spells_nil : Spells [] [] := by
  refine ⟨[], fun rest => ?_, fun _ => rfl⟩
  exact (Option.map_id' (x := readParts rest)).symm

/-- Texts that are spelled one after the other do not get mixed up. -/
theorem Spells.append (h : Spells written t) (h' : Spells written' u) :
    Spells (written ++ written') (t ++ u) := by
  obtain ⟨parts, read, joined⟩ := h
  obtain ⟨parts', read', joined'⟩ := h'
  refine ⟨parts ++ parts', fun rest => ?_, fun more => ?_⟩
  · rw [List.append_assoc, read, read', Option.map_map]
    simp [Function.comp_def]
  · rw [List.append_assoc, joined, joined', List.append_assoc]

/-! ## Units -/

theorem hexValue?_digitChar (h : n < 16) : hexValue? (Nat.digitChar n) = some n := by
  have all : ∀ n < 16, hexValue? (Nat.digitChar n) = some n := by decide
  exact all n h

/-- **The digits of a unit spell it.** -/
theorem unit?_hex (h : n < 0x10000) :
    ∃ a b c d, Text.hex 4 n = [a, b, c, d] ∧ unit? a b c d = some n := by
  refine ⟨_, _, _, _, rfl, ?_⟩
  have digit : ∀ m, hexValue? (Nat.digitChar (m % 16)) = some (m % 16) := fun m =>
    hexValue?_digitChar (Nat.mod_lt m (by omega))
  simp only [unit?, digit, Option.bind_eq_bind, Option.bind_some, Option.pure_def,
    Option.some.injEq]
  omega

theorem readParts_unitEscape (h : n < 0x10000) (rest : Text) :
    readParts (unitEscape n ++ rest) =
      (readParts rest).map fun (more, rest) => (.unit n :: more, rest) := by
  obtain ⟨a, b, c, d, digits, spelled⟩ := unit?_hex h
  have read : readParts ('\\' :: 'u' :: a :: b :: c :: d :: rest) =
      (unit? a b c d).bind fun n =>
        (readParts rest).bind fun (parts, rest) => some (.unit n :: parts, rest) := rfl
  rw [unitEscape, digits, List.cons_append, List.cons_append]
  refine read.trans ?_
  rw [spelled, Option.bind_some, Option.map_eq_bind]
  rfl

/-- A character of the first plane is no half of a pair, so its unit stands alone. -/
theorem spells_unitEscape (h : c.toNat < 0x10000) : Spells (unitEscape c.toNat) [c] := by
  refine ⟨[.unit c.toNat], readParts_unitEscape h, fun more => ?_⟩
  have valid : c.toNat < 0xd800 ∨ 0xdfff < c.toNat ∧ c.toNat < 0x110000 := c.valid
  have high : isHighUnit c.toNat = false := by
    simp only [isHighUnit, Bool.and_eq_false_iff, decide_eq_false_iff_not]
    omega
  have low : isLowUnit c.toNat = false := by
    simp only [isLowUnit, Bool.and_eq_false_iff, decide_eq_false_iff_not]
    omega
  have alone : unitChar c.toNat = c := by
    rw [unitChar, high, low]
    exact Char.ofNat_toNat c
  show joinParts (.unit c.toNat :: more) = c :: joinParts more
  cases more with
  | nil => simp [joinParts, alone]
  | cons next more => cases next <;> simp [joinParts, alone, high]

/-- The two units of a character beyond the first plane are a pair. -/
theorem spells_pair (h : 0x10000 ≤ c.toNat) :
    Spells (unitEscape (0xd800 + (c.toNat - 0x10000) / 0x400) ++
      unitEscape (0xdc00 + (c.toNat - 0x10000) % 0x400)) [c] := by
  have valid : c.toNat < 0xd800 ∨ 0xdfff < c.toNat ∧ c.toNat < 0x110000 := c.valid
  generalize first : 0xd800 + (c.toNat - 0x10000) / 0x400 = n₁
  generalize second : 0xdc00 + (c.toNat - 0x10000) % 0x400 = n₂
  refine ⟨[.unit n₁, .unit n₂], fun rest => ?_, fun more => ?_⟩
  · rw [List.append_assoc, readParts_unitEscape (by omega), readParts_unitEscape (by omega),
      Option.map_map]
    rfl
  · have pair : isHighUnit n₁ && isLowUnit n₂ := by
      simp only [isHighUnit, isLowUnit, Bool.and_eq_true, decide_eq_true_eq]
      omega
    have together : pairChar n₁ n₂ = c := by
      have number : 0x10000 + 0x400 * (n₁ - 0xd800) + (n₂ - 0xdc00) = c.toNat := by omega
      rw [pairChar, number, Char.ofNat_toNat]
    show joinParts (.unit n₁ :: .unit n₂ :: more) = c :: joinParts more
    rw [joinParts, if_pos pair, together]

/-! ## Characters -/

/-- A character that is escaped by a letter. -/
theorem spells_letter (h : letterEscape? e = some c) : Spells ['\\', e] [c] := by
  refine ⟨[.char c], fun rest => ?_, fun more => rfl⟩
  have letter : e ≠ 'u' := by
    rintro rfl
    cases h
  show readParts ('\\' :: e :: rest) = _
  rw [readParts, h]
  · cases readParts rest <;> rfl
  · exact fun _ _ _ _ _ eq => absurd eq letter

/-- A character that stands for itself. -/
theorem spells_plain (printed : 0x20 ≤ c.toNat) (quote : c ≠ '"') (backslash : c ≠ '\\') :
    Spells [c] [c] := by
  refine ⟨[.char c], fun rest => ?_, fun more => rfl⟩
  show readParts (c :: rest) = _
  have plain : ¬(decide (c.toNat < 0x20) || decide (c = '\\')) := by
    simp [printed, backslash]
  -- neither the end of the text nor an escape starts here
  rw [readParts, if_neg plain]
  · cases readParts rest <;> rfl
  · exact quote
  · exact fun _ _ _ _ _ eq => absurd eq backslash
  · exact fun _ _ eq => absurd eq backslash

/-- **The escape of a character** stands for it. -/
theorem spells_escape (c : Char) : Spells (escape c) [c] := by
  unfold escape
  split_ifs with special feed carriage tab back page printed plane
  · simp only [Bool.or_eq_true, decide_eq_true_eq] at special
    rcases special with rfl | rfl <;> exact spells_letter rfl
  · exact feed ▸ spells_letter rfl
  · exact carriage ▸ spells_letter rfl
  · exact tab ▸ spells_letter rfl
  · exact back ▸ spells_letter rfl
  · exact page ▸ spells_letter rfl
  · simp only [Bool.or_eq_true, decide_eq_true_eq, not_or] at special
    simp only [Bool.and_eq_true, decide_eq_true_eq] at printed
    exact spells_plain printed.1 special.1 special.2
  · exact spells_unitEscape plane
  · exact spells_pair (by omega)

/-! ## Texts -/

theorem spells_flatMap_escape (t : Text) : Spells (t.flatMap escape) t := by
  induction t with
  | nil => exact spells_nil
  | cons c t ih => exact (spells_escape c).append ih

/-- **A written text is read back**, whatever its characters. -/
theorem readText_writeText (t rest : Text) :
    ∃ behind, writeText t ++ rest = '"' :: behind ∧ readText behind = .ok (t, rest) := by
  obtain ⟨parts, read, joined⟩ := spells_flatMap_escape t
  refine ⟨t.flatMap escape ++ '"' :: rest, by simp [writeText], ?_⟩
  have whole := joined []
  rw [List.append_nil, joinParts, List.append_nil] at whole
  have closed : readParts ('"' :: rest) = some ([], rest) := rfl
  rw [readText, read, closed, Option.map_some]
  simp only [List.append_nil, whole]

/-- The two halves of a pair are put together, and a half without a partner is kept. -/
example : escape '🎨' = "\\ud83c\\udfa8".toList ∧
    joinParts [.unit 0xd83c, .unit 0xdfa8] = ['🎨'] ∧
    joinParts [.unit 0xd83c, .unit 0xd83c] = [unpaired 0xd83c, unpaired 0xd83c] := by
  decide

end StyleTokens.Json
