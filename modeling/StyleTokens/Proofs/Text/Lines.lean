import Mathlib.Data.List.Chain
import StyleTokens.Proofs.Text.Trim
import StyleTokens.Text.Lines

/-!
# Texts written line by line

A text that is written line by line falls back into the lines it was written from, as long as
none of them holds a line break.

## Main definitions

* `Text.BreakFree`: a text without line breaks
* `Text.unlines`: texts written as lines
* `Text.endings`: the line breaks of a text

## Main results

* `Text.lines_unlines`: the lines of a text written line by line
* `Text.breakFree_of_mem_lines`: the lines of a text hold no line breaks
* `Text.endings_append`: a text without line breaks adds none
* `Text.splitOn_joined`: joined texts fall apart again
* `Text.joined_append`: texts in two parts are joined part by part
* `Text.dropEndWhile_joined`: without the line breaks at its end, a text written line by line
  lacks the empty lines at its end
-/

namespace StyleTokens

theorem isBlank_of_isLineBreak {c : Char} (h : isLineBreak c) : isBlank c := by
  simp only [isLineBreak, isBlank, Bool.or_eq_true, Bool.and_eq_true, decide_eq_true_eq,
    beq_iff_eq] at h ⊢
  omega

namespace Text

variable {t u : Text} {ls : List Text}

/-- A text without line breaks. -/
def BreakFree (t : Text) : Prop :=
  ∀ c ∈ t, ¬isLineBreak c

instance : DecidablePred BreakFree := fun t => inferInstanceAs (Decidable (∀ c ∈ t, _))

theorem BreakFree.append (ht : BreakFree t) (hu : BreakFree u) : BreakFree (t ++ u) := by
  intro c hc
  rcases List.mem_append.mp hc with h | h
  · exact ht c h
  · exact hu c h

theorem BreakFree.cons {c : Char} (hc : ¬isLineBreak c) (ht : BreakFree t) : BreakFree (c :: t) :=
  BreakFree.append (t := [c]) (by simpa [BreakFree] using hc) ht

theorem breakFree_of_forall (h : ∀ c ∈ t, ¬isBlank c) : BreakFree t :=
  fun c hc hb => h c hc (isBlank_of_isLineBreak hb)

theorem BreakFree.newline_notMem (h : BreakFree t) : '\n' ∉ t :=
  fun hn => h _ hn (by decide)

/-- The texts as lines, each ended by a line feed. -/
def unlines (ls : List Text) : Text :=
  ls.flatMap (· ++ ['\n'])

@[simp] theorem unlines_nil : unlines [] = [] :=
  rfl

@[simp] theorem unlines_cons (l : Text) (ls : List Text) :
    unlines (l :: ls) = l ++ '\n' :: unlines ls := by
  simp [unlines]

@[simp] theorem unlines_append (ls ms : List Text) :
    unlines (ls ++ ms) = unlines ls ++ unlines ms := by
  simp [unlines]

/-! ## Falling into lines -/

theorem lines_cons_of_not {c : Char} (rest : Text) (h : ¬isLineBreak c) :
    lines (c :: rest) = consLine c (lines rest) := by
  rw [lines, if_neg h]
  rintro _ rfl
  exact absurd (by decide) h

/-- The first line of a text ends at the first line feed, if no other line break precedes it. -/
theorem lines_append_newline (h : BreakFree t) (rest : Text) :
    lines (t ++ '\n' :: rest) = ⟨t, ['\n']⟩ :: lines rest := by
  induction t with
  | nil => rw [List.nil_append, lines, if_pos (by decide)]; simp
  | cons c t ih =>
    rw [List.cons_append, lines_cons_of_not _ (h c (by simp)),
      ih fun d hd => h d (by simp [hd])]
    rfl

/-- **The lines of a text written line by line** are those it was written from. -/
theorem lines_unlines (h : ∀ l ∈ ls, BreakFree l) :
    lines (unlines ls) = ls.map fun l => ⟨l, ['\n']⟩ := by
  induction ls with
  | nil => rfl
  | cons l ls ih =>
    rw [unlines_cons, lines_append_newline (h l (by simp)), ih fun m hm => h m (by simp [hm])]
    rfl

/-- The lines of a text hold no line breaks. -/
theorem breakFree_of_mem_lines {line : Line} (h : line ∈ lines t) : BreakFree line.body := by
  fun_induction lines t generalizing line with
  | case1 => simp at h
  | case2 rest ih =>
    rcases List.mem_cons.mp h with rfl | h
    · simp [BreakFree]
    · exact ih h
  | case3 c rest _ _ ih =>
    rcases List.mem_cons.mp h with rfl | h
    · simp [BreakFree]
    · exact ih h
  | case4 c rest _ hc ih =>
    -- the character starts a line of its own or is put in front of the first one
    cases hl : lines rest with
    | nil =>
      rw [hl] at h
      obtain rfl := List.mem_singleton.mp h
      exact BreakFree.cons hc (by simp [BreakFree])
    | cons first others =>
      rw [hl] at h
      rcases List.mem_cons.mp h with rfl | h
      · exact BreakFree.cons hc (ih (hl ▸ by simp))
      · exact ih (hl ▸ by simp [h])

/-- The characters behind the body of a line are line breaks. -/
theorem isLineBreak_of_mem_lines {line : Line} (h : line ∈ lines t) :
    ∀ c ∈ line.ending, isLineBreak c := by
  fun_induction lines t generalizing line with
  | case1 => simp at h
  | case2 rest ih =>
    rcases List.mem_cons.mp h with rfl | h
    · decide
    · exact ih h
  | case3 c rest _ hc ih =>
    rcases List.mem_cons.mp h with rfl | h
    · simpa using hc
    · exact ih h
  | case4 c rest _ hc ih =>
    cases hl : lines rest with
    | nil =>
      rw [hl] at h
      obtain rfl := List.mem_singleton.mp h
      exact List.forall_mem_nil _
    | cons first others =>
      rw [hl] at h
      rcases List.mem_cons.mp h with rfl | h
      · have mem : first ∈ lines rest := hl ▸ List.mem_cons_self
        intro d hd
        exact ih mem d hd
      · exact ih (hl ▸ by simp [h])

/-- Only the last line of a text has no line break. -/
theorem isChain_lines (t : Text) : (lines t).IsChain fun line _ => line.ending ≠ [] := by
  fun_induction lines t with
  | case1 => exact .nil
  | case2 rest ih => exact List.isChain_cons.mpr ⟨fun _ _ => by simp, ih⟩
  | case3 c rest _ _ ih => exact List.isChain_cons.mpr ⟨fun _ _ => by simp, ih⟩
  | case4 c rest _ _ ih =>
    cases hl : lines rest with
    | nil => exact .singleton _
    | cons first others =>
      rw [hl, List.isChain_cons] at ih
      exact List.isChain_cons.mpr ih

/-! ## The line breaks of a text -/

/-- The line breaks of a text, one for each line; empty for a line without one. -/
def endings (t : Text) : List Text :=
  (lines t).map Line.ending

theorem endings_cons_of_not {c : Char} (h : ¬isLineBreak c) :
    endings (c :: t) = if t = [] then [[]] else endings t := by
  rw [endings, lines_cons_of_not t h]
  cases t with
  | nil => rfl
  | cons d t =>
    rw [if_neg (List.cons_ne_nil d t), endings]
    cases hl : lines (d :: t) with
    | nil =>
      have := flatMap_lines (d :: t)
      simp [hl] at this
    | cons first others => rfl

/-- A text without line breaks adds none in front of another. -/
theorem endings_append (h : BreakFree t) (ne : t ≠ []) (u : Text) :
    endings (t ++ u) = if u = [] then [[]] else endings u := by
  induction t with
  | nil => exact absurd rfl ne
  | cons c t ih =>
    rw [List.cons_append, endings_cons_of_not (h c (by simp))]
    cases t with
    | nil => rfl
    | cons d t =>
      rw [if_neg (by simp), ih (fun e he => h e (by simp [he])) (by simp)]

theorem endings_cons_of_break {c : Char} (h : isLineBreak c)
    (alone : ¬(c = '\r' ∧ t.head? = some '\n')) : endings (c :: t) = [c] :: endings t := by
  rw [endings, lines, if_pos h]
  · rfl
  · rintro rest rfl rfl
    exact alone ⟨rfl, rfl⟩

/-- What a character does to the line breaks depends on no more than the next character. -/
theorem endings_cons_congr (c : Char) (h : endings t = endings u) (head : t.head? = u.head?) :
    endings (c :: t) = endings (c :: u) := by
  by_cases breaks : isLineBreak c
  · by_cases pair : c = '\r' ∧ t.head? = some '\n'
    · -- the two characters end a line together
      obtain ⟨rfl, first⟩ := pair
      obtain ⟨t, rfl⟩ := List.head?_eq_some_iff.mp first
      obtain ⟨u, rfl⟩ := List.head?_eq_some_iff.mp (head ▸ first)
      have newline : ∀ w : Text, endings ('\n' :: w) = ['\n'] :: endings w := fun w =>
        endings_cons_of_break (by decide) fun eq => absurd eq.1 (by decide)
      rw [newline, newline, List.cons.injEq] at h
      exact congrArg (['\r', '\n'] :: ·) h.2
    · rw [endings_cons_of_break breaks pair, endings_cons_of_break breaks (head ▸ pair), h]
  · have empty : t = [] ↔ u = [] := by
      rw [← List.head?_eq_none_iff, head, List.head?_eq_none_iff]
    simp only [endings_cons_of_not breaks, h, empty]

/-! ## Texts that are joined and cut -/

/-- A part of a text that is cut at a character holds characters of the text, and not this one. -/
theorem of_mem_splitOn {a : Char} {part : Text} (h : part ∈ t.splitOn a) : a ∉ part ∧ part ⊆ t := by
  induction t generalizing part with
  | nil =>
    rw [List.splitOn_nil, List.mem_singleton] at h
    simp [h]
  | cons c t ih =>
    rw [List.splitOn_cons_eq_if_modifyHead] at h
    split_ifs at h with here
    · -- the text is cut here, in front of the parts of the rest
      rcases List.mem_cons.mp h with rfl | h
      · simp
      · obtain ⟨noCut, inside⟩ := ih h
        exact ⟨noCut, List.subset_cons_of_subset c inside⟩
    · have parts : t.splitOn a ≠ [] := List.splitOn_ne_nil a t
      obtain ⟨first, others, eq⟩ := List.exists_cons_of_ne_nil parts
      rw [eq, List.modifyHead_cons] at h
      rcases List.mem_cons.mp h with rfl | h
      · obtain ⟨noCut, inside⟩ := ih (eq ▸ List.mem_cons_self)
        have other : a ≠ c := by
          rintro rfl
          simp at here
        exact ⟨by simp [other, noCut], List.cons_subset_cons c inside⟩
      · obtain ⟨noCut, inside⟩ := ih (eq ▸ List.mem_cons_of_mem _ h)
        exact ⟨noCut, List.subset_cons_of_subset c inside⟩

theorem joined_cons_cons (sep t u : Text) (ts : List Text) :
    joined sep (t :: u :: ts) = t ++ sep ++ joined sep (u :: ts) :=
  rfl

theorem joined_eq_intercalate (sep : Text) (ts : List Text) :
    joined sep ts = sep.intercalate ts := by
  induction ts with
  | nil => rfl
  | cons t ts ih =>
    cases ts with
    | nil => simp [joined, List.intercalate]
    | cons u ts =>
      rw [joined_cons_cons, ih]
      simp [List.intercalate]

/-- Texts that are joined by a character that none of them holds fall apart at it again. -/
theorem splitOn_joined {a : Char} {ts : List Text} (h : ∀ t ∈ ts, a ∉ t) (ne : ts ≠ []) :
    (joined [a] ts).splitOn a = ts := by
  rw [joined_eq_intercalate]
  exact List.splitOn_intercalate a h ne

/-- The characters of joined texts. -/
theorem mem_joined {sep : Text} {ts : List Text} {c : Char} (h : c ∉ sep) :
    c ∈ joined sep ts ↔ ∃ t ∈ ts, c ∈ t := by
  induction ts with
  | nil => simp [joined]
  | cons t ts ih =>
    cases ts with
    | nil => simp [joined]
    | cons u ts =>
      rw [joined_cons_cons, List.mem_append, List.mem_append, ih]
      simp [h]

/-- Texts in two parts are joined part by part. -/
theorem joined_append {sep : Text} {ts us : List Text} (ht : ts ≠ []) (hu : us ≠ []) :
    joined sep (ts ++ us) = joined sep ts ++ sep ++ joined sep us := by
  induction ts with
  | nil => exact absurd rfl ht
  | cons t ts ih =>
    obtain ⟨u, us, rfl⟩ := List.exists_cons_of_ne_nil hu
    cases ts with
    | nil => rfl
    | cons t' ts =>
      show t ++ sep ++ joined sep (t' :: ts ++ u :: us) = _
      rw [ih (List.cons_ne_nil t' ts), joined_cons_cons]
      simp only [List.append_assoc]

/-! ## The end of a text of lines -/

theorem joined_concat (sep l : Text) (ne : ls ≠ []) :
    joined sep (ls ++ [l]) = joined sep ls ++ sep ++ l :=
  joined_append ne (List.cons_ne_nil l [])

theorem joined_newline_append (ne : ls ≠ []) : joined ['\n'] ls ++ ['\n'] = unlines ls := by
  induction ls with
  | nil => exact absurd rfl ne
  | cons l ls ih =>
    cases ls with
    | nil => simp [joined]
    | cons m ls =>
      calc joined ['\n'] (l :: m :: ls) ++ ['\n']
          = l ++ '\n' :: (joined ['\n'] (m :: ls) ++ ['\n']) := by simp [joined]
        _ = unlines (l :: m :: ls) := by rw [ih (by simp), ← unlines_cons]

/-- Without the line feeds at its end, a text of lines lacks the empty lines at its end. -/
theorem dropEndWhile_joined (h : ∀ l ∈ ls, BreakFree l) :
    dropEndWhile (· = '\n') (joined ['\n'] ls) = joined ['\n'] (ls.rdropWhile List.isEmpty) := by
  -- Induction from the last line: an empty one goes together with the line feed in front of it.
  induction ls using List.reverseRecOn with
  | nil => rfl
  | append_singleton ls l ih =>
    rcases l.eq_nil_or_concat' with rfl | ⟨l, c, rfl⟩
    · rw [List.rdropWhile_concat_pos _ _ _ (by rfl), ← ih fun m hm => h m (by simp [hm])]
      rcases eq_or_ne ls [] with rfl | ne
      · rfl
      · rw [joined_concat _ _ ne, List.append_nil,
          dropEndWhile_append_of_all (u := ['\n']) (by simp)]
    · have hc : ¬decide (c = '\n') := by
        have := (h (l ++ [c]) (by simp)).newline_notMem
        simp only [List.mem_append, List.mem_singleton, not_or] at this
        simpa using Ne.symm this.2
      rw [List.rdropWhile_concat_neg _ _ _ (by simp)]
      rcases eq_or_ne ls [] with rfl | ne
      · exact dropEndWhile_concat (p := (· = '\n')) l hc
      · rw [joined_concat _ _ ne, ← List.append_assoc]
        exact dropEndWhile_concat (p := (· = '\n')) _ hc

end Text

end StyleTokens
