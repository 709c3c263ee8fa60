import Mathlib.Data.List.DropRight
import StyleTokens.Text.Blank

/-!
# Trimmed texts

Trimming removes the blanks at the two ends of a text and nothing else. A text is trimmed if
there are none.

## Main definitions

* `Text.Trimmed`: a text without blanks at its ends

## Main results

* `Text.trim_blanks_append`, `Text.trim_append_blanks`: blanks at an end do not matter
* `Text.dropEndWhile_append_cons`: what stands before a character that stays is kept
-/

namespace StyleTokens.Text

/-- What is said of the characters of a text is decided along the text, and not by a search through
all characters. -/
instance (priority := high) decidableForallMem {P : Char → Prop} [DecidablePred P] (t : Text) :
    Decidable (∀ c ∈ t, P c) :=
  List.decidableBAll P t

variable {p : Char → Bool} {t u b : Text} {c : Char}

/-! ## The end of a text -/

theorem dropEndWhile_append_of_all (h : ∀ c ∈ u, p c) :
    dropEndWhile p (t ++ u) = dropEndWhile p t := by
  unfold dropEndWhile
  rw [List.reverse_append, List.dropWhile_append_of_pos (by simpa using h)]

/-- A character that stays keeps all that stands before it. -/
theorem dropEndWhile_append_cons (t u : Text) (h : ¬p c) :
    dropEndWhile p (t ++ c :: u) = t ++ c :: dropEndWhile p u := by
  unfold dropEndWhile
  rw [List.reverse_append, List.reverse_cons, List.append_assoc, List.dropWhile_append]
  split_ifs with hu
  · simp [List.isEmpty_iff.mp hu, h]
  · simp

theorem dropEndWhile_cons (u : Text) (h : ¬p c) :
    dropEndWhile p (c :: u) = c :: dropEndWhile p u :=
  dropEndWhile_append_cons [] u h

theorem dropEndWhile_concat (t : Text) (h : ¬p c) : dropEndWhile p (t ++ [c]) = t ++ [c] := by
  simpa [dropEndWhile] using dropEndWhile_append_cons (p := p) t [] h

theorem length_dropEndWhile_le (p : Char → Bool) (t : Text) :
    (dropEndWhile p t).length ≤ t.length := by
  have : dropEndWhile p t <+: t := List.rdropWhile_prefix p t
  exact this.length_le

/-! ## The start of a text -/

/-- Behind the characters of a class stands one that is not of the class. -/
theorem not_of_mem_head?_dropWhile (h : c ∈ (t.dropWhile p).head?) : ¬p c := by
  have first := List.head?_dropWhile_not p t
  rw [Option.mem_def.mp h] at first
  simpa using first

theorem not_of_mem_head?_dropWhile_append {d : Char} (hd : ¬p d)
    (h : c ∈ (t.dropWhile p ++ d :: u).head?) : ¬p c := by
  cases rest : t.dropWhile p with
  | nil =>
    rw [rest] at h
    cases h
    exact hd
  | cons e rest' =>
    have first : c ∈ (t.dropWhile p).head? := by
      rw [rest] at h ⊢
      exact h
    exact not_of_mem_head?_dropWhile first

/-! ## Trimming -/

/-- Trimming takes characters of the class from the two ends, and no others. -/
theorem exists_append_trimWhile_append (p : Char → Bool) (t : Text) :
    ∃ u v, (∀ c ∈ u, p c) ∧ (∀ c ∈ v, p c) ∧ t = u ++ (trimWhile p t ++ v) := by
  refine ⟨t.takeWhile p, (t.dropWhile p).rtakeWhile p, fun c => List.mem_takeWhile_imp,
    fun c => List.mem_rtakeWhile_imp, ?_⟩
  have back : trimWhile p t ++ (t.dropWhile p).rtakeWhile p = t.dropWhile p :=
    List.rdropWhile_append_rtakeWhile
  rw [back, List.takeWhile_append_dropWhile]

/-- Trimming leaves nothing to trim. -/
theorem trimWhile_trimWhile (p : Char → Bool) (t : Text) :
    trimWhile p (trimWhile p t) = trimWhile p t := by
  cases rest : t.dropWhile p with
  | nil => simp [trimWhile, rest, dropEndWhile]
  | cons c cs =>
    have start : ¬p c := not_of_mem_head?_dropWhile (t := t) (by simp [rest])
    have trimmed : trimWhile p t = c :: dropEndWhile p cs := by
      rw [trimWhile, rest, dropEndWhile_cons cs start]
    have again : dropEndWhile p (dropEndWhile p cs) = dropEndWhile p cs :=
      List.rdropWhile_idempotent p cs
    rw [trimmed, trimWhile, List.dropWhile_cons_of_neg start, dropEndWhile_cons _ start, again]

/-- A text that is as long as before keeps its ends. -/
theorem trimWhile_eq_self (h : t.length ≤ (trimWhile p t).length) : trimWhile p t = t := by
  obtain ⟨u, v, -, -, eq⟩ := exists_append_trimWhile_append p t
  have lengths := congrArg List.length eq
  simp only [List.length_append] at lengths
  have hu : u = [] := List.length_eq_zero_iff.mp (by omega)
  have hv : v = [] := List.length_eq_zero_iff.mp (by omega)
  rw [hu, hv, List.nil_append, List.append_nil] at eq
  exact eq.symm

theorem length_trimWhile_le (p : Char → Bool) (t : Text) : (trimWhile p t).length ≤ t.length :=
  (length_dropEndWhile_le p _).trans (List.dropWhile_sublist p).length_le

theorem trim_eq (t : Text) : trim t = dropEndWhile isBlank (t.dropWhile isBlank) :=
  rfl

/-- Blanks in front do not matter. -/
theorem trim_blanks_append (t : Text) (h : ∀ c ∈ b, isBlank c) : trim (b ++ t) = trim t := by
  rw [trim_eq, trim_eq, List.dropWhile_append_of_pos h]

/-- Blanks at the end do not matter. -/
theorem trim_append_blanks (t : Text) (h : ∀ c ∈ b, isBlank c) : trim (t ++ b) = trim t := by
  rw [trim_eq, trim_eq, List.dropWhile_append]
  split_ifs with ht
  · rw [List.isEmpty_iff.mp ht, List.dropWhile_eq_nil_iff.mpr h]
  · rw [dropEndWhile_append_of_all h]

theorem trim_eq_nil (h : ∀ c ∈ t, isBlank c) : trim t = [] := by
  simpa [trim_eq, dropEndWhile] using trim_append_blanks [] h

/-- Behind blanks, a text that starts with no blank is trimmed at its end only. -/
theorem trim_blanks_append_cons (t : Text) (hb : ∀ c ∈ b, isBlank c) (hc : ¬isBlank c) :
    trim (b ++ c :: t) = c :: dropEndWhile isBlank t := by
  rw [trim_blanks_append _ hb, trim_eq, List.dropWhile_cons_of_neg hc, dropEndWhile_cons t hc]

theorem trim_dropEndWhile (t : Text) : trim (dropEndWhile isBlank t) = trim t := by
  conv_rhs => rw [← List.rdropWhile_append_rtakeWhile (p := isBlank) (l := t)]
  exact (trim_append_blanks _ fun c hc => List.mem_rtakeWhile_imp hc).symm

theorem mem_of_mem_trim (h : c ∈ trim t) : c ∈ t := by
  have front : trim t <+: t.dropWhile isBlank := List.rdropWhile_prefix _ _
  exact (List.dropWhile_sublist isBlank).subset (front.subset h)

/-- Only a text of blanks has nothing left. -/
theorem forall_of_trim_eq_nil (h : trim t = []) : ∀ c ∈ t, isBlank c := by
  have last : ∀ c ∈ t.dropWhile isBlank, isBlank c := List.rdropWhile_eq_nil_iff.mp h
  cases rest : t.dropWhile isBlank with
  | nil => exact List.dropWhile_eq_nil_iff.mp rest
  | cons c cs =>
    -- what is left starts with no blank
    have start : ¬isBlank c := by
      have := List.head_dropWhile_not isBlank (l := t) (by simp [rest])
      simpa [rest] using this
    exact absurd (last c (by simp [rest])) start

theorem allBlank_iff : t.allBlank = true ↔ ∀ c ∈ t, isBlank c := by
  simp [allBlank]

/-! ## Trimmed texts -/

/-- A text without blanks at its two ends. -/
def Trimmed (t : Text) : Prop :=
  trim t = t

instance : DecidablePred Trimmed := fun t => inferInstanceAs (Decidable (trim t = t))

/-- A trimmed text is one. -/
theorem trimmed_trim (t : Text) : Trimmed (trim t) :=
  trimWhile_trimWhile isBlank t

theorem trimmed_of_forall (h : ∀ c ∈ t, ¬isBlank c) : Trimmed t := by
  cases t with
  | nil => rfl
  | cons c t =>
    have ht : dropEndWhile isBlank t = t := by
      cases ht : t.reverse with
      | nil => simp_all [dropEndWhile]
      | cons d ds =>
        obtain rfl : t = ds.reverse ++ [d] := by simpa using congrArg List.reverse ht
        exact dropEndWhile_concat _ (h d (by simp))
    rw [Trimmed, ← List.nil_append (c :: t),
      trim_blanks_append_cons t (by simp) (h c (by simp)), ht, List.nil_append]

namespace Trimmed

theorem dropWhile_eq (h : Trimmed t) : t.dropWhile isBlank = t := by
  have suffix : t.dropWhile isBlank <:+ t := List.dropWhile_suffix isBlank
  refine suffix.eq_of_length (Nat.le_antisymm suffix.length_le ?_)
  calc t.length = (dropEndWhile isBlank (t.dropWhile isBlank)).length := by rw [← trim_eq, h]
    _ ≤ (t.dropWhile isBlank).length := length_dropEndWhile_le _ _

theorem allBlank_eq (h : Trimmed t) (ne : t ≠ []) : t.allBlank = false := by
  rw [Bool.eq_false_iff]
  intro all
  exact ne (h.symm.trans (trim_eq_nil (allBlank_iff.mp all)))

end Trimmed

end StyleTokens.Text
