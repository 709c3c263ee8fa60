import StyleTokens.Proofs.Stylesheet.Run

/-!
# Which stylesheets are accepted

The scanner accepts a stylesheet exactly if the comments and strings that it opens are closed and
its braces are nested. Outside of comments and strings it meets three kinds of braces: `{` opens
a block, or a level of the interpolation it stands in, `#{` opens an interpolation, and `}` closes
what was opened last. The stack of open blocks and the counter of the interpolation together count
the braces that are open.

## Main definitions

* `Brace`, `Scanner.braces`: the braces that the scanner meets along a text
* `Nested`, `Nesting`: the words of braces that are allowed inside an interpolation and in a
  stylesheet
* `ClosesTexts`: the comments and strings of a stylesheet are closed

## Main results

* `nesting_iff`: the allowed words are those that never close more than is open and leave nothing
  open
* `Scanner.openBraces_run`: the scanner counts the open braces, and fails where none is to be
  closed
* `scan_accepts_iff`: a stylesheet is accepted exactly if its texts are closed and its braces are
  nested
-/

namespace StyleTokens

/-! ## Words of braces -/

/-- The braces of a stylesheet. -/
inductive Brace where
  /-- `{` -/
  | block
  /-- `#{` -/
  | interpolation
  /-- `}` -/
  | close
  deriving DecidableEq, Repr

/-- The words that may stand inside an interpolation. -/
inductive Nested : List Brace → Prop
  | nil : Nested []
  | block {inner rest : List Brace} : Nested inner → Nested rest →
    Nested (.block :: inner ++ .close :: rest)
  | interpolation {inner rest : List Brace} : Nested inner → Nested rest →
    Nested (.interpolation :: inner ++ .close :: rest)

/-- The words that may stand in a stylesheet. -/
inductive Nesting : List Brace → Prop
  | nil : Nesting []
  | block {inner rest : List Brace} : Nesting inner → Nesting rest →
    Nesting (.block :: inner ++ .close :: rest)
  | interpolation {inner rest : List Brace} : Nested inner → Nesting rest →
    Nesting (.interpolation :: inner ++ .close :: rest)

namespace Brace

variable {v w : List Brace} {m n : Nat}

/-- The number of open braces behind a word, where `n` are open in front of it. There is none if
the word closes more than is open. -/
def openBehind? : Nat → List Brace → Option Nat
  | n, [] => some n
  | 0, .close :: _ => none
  | n + 1, .close :: w => openBehind? n w
  | n, .block :: w => openBehind? (n + 1) w
  | n, .interpolation :: w => openBehind? (n + 1) w

theorem openBehind?_append :
    openBehind? n (v ++ w) = (openBehind? n v).bind (openBehind? · w) := by
  fun_induction openBehind? n v with
  | case1 n => rfl
  | case2 => rfl
  | case3 n v ih => exact ih
  | case4 n v ih => exact ih
  | case5 n v ih => exact ih

/-- A brace that opens and the one that closes it again leave as many open. -/
theorem openBehind?_wrap {inner rest : List Brace} {b : Brace} (opens : b ≠ .close)
    (inside : openBehind? (n + 1) inner = some (n + 1)) :
    openBehind? n (b :: inner ++ .close :: rest) = openBehind? n rest := by
  have first : openBehind? n (b :: (inner ++ .close :: rest)) =
      openBehind? (n + 1) (inner ++ .close :: rest) := by
    cases b with
    | close => exact absurd rfl opens
    | block => rw [openBehind?]
    | interpolation => rw [openBehind?]
  rw [List.cons_append, first, openBehind?_append, inside]
  rfl

theorem openBehind?_nested (h : Nested w) (n : Nat) : openBehind? n w = some n := by
  induction h generalizing n with
  | nil => rw [openBehind?]
  | block _ _ inner rest => rw [openBehind?_wrap (by simp) (inner (n + 1)), rest]
  | interpolation _ _ inner rest => rw [openBehind?_wrap (by simp) (inner (n + 1)), rest]

theorem openBehind?_nesting (h : Nesting w) (n : Nat) : openBehind? n w = some n := by
  induction h generalizing n with
  | nil => rw [openBehind?]
  | block _ _ inner rest => rw [openBehind?_wrap (by simp) (inner (n + 1)), rest]
  | interpolation inner _ rest =>
    rw [openBehind?_wrap (by simp) (openBehind?_nested inner (n + 1)), rest]

/-- A word that closes more than it opens has a brace that closes what was open in front of it,
and what stands before that brace is nested. -/
theorem exists_close (h : openBehind? (n + 1) w = some m) (less : m ≤ n) :
    ∃ inner rest, w = inner ++ .close :: rest ∧ Nested inner ∧ openBehind? n rest = some m := by
  -- Behind the brace that closes an inner one, the rest of the word is shorter.
  induction length : w.length using Nat.strongRecOn generalizing w n with
  | ind k ih =>
    subst length
    have inner_case : ∀ b w', w = b :: w' → openBehind? (n + 2) w' = some m →
        (∀ {inner rest : List Brace}, Nested inner → Nested rest →
          Nested (b :: inner ++ .close :: rest)) →
        ∃ inner rest, w = inner ++ .close :: rest ∧ Nested inner ∧
          openBehind? n rest = some m := by
      rintro b w' rfl behind wrap
      obtain ⟨inner, rest, rfl, nested, back⟩ :=
        ih w'.length (by simp) behind (Nat.le_succ_of_le less) rfl
      obtain ⟨inner', rest', rfl, nested', back'⟩ :=
        ih rest.length (by simp; omega) back less rfl
      exact ⟨b :: inner ++ .close :: inner', rest', by simp, wrap nested nested', back'⟩
    cases w with
    | nil =>
      rw [openBehind?, Option.some.injEq] at h
      omega
    | cons b w =>
      cases b with
      | close => exact ⟨[], w, rfl, .nil, by rwa [openBehind?] at h⟩
      | block =>
        rw [openBehind?] at h
        exact inner_case .block w rfl h .block
      | interpolation =>
        rw [openBehind?] at h
        exact inner_case .interpolation w rfl h .interpolation

end Brace

theorem Nested.nesting {w : List Brace} (h : Nested w) : Nesting w := by
  induction h with
  | nil => exact .nil
  | block _ _ inner rest => exact .block inner rest
  | interpolation inner _ _ rest => exact .interpolation inner rest

/-- **The allowed words** never close more than is open, and leave nothing open. -/
theorem nesting_iff {w : List Brace} : Nesting w ↔ Brace.openBehind? 0 w = some 0 := by
  refine ⟨fun h => Brace.openBehind?_nesting h 0, fun h => ?_⟩
  induction length : w.length using Nat.strongRecOn generalizing w with
  | ind k ih =>
    subst length
    cases w with
    | nil => exact .nil
    | cons b w =>
      cases b with
      | close => simp [Brace.openBehind?] at h
      | block =>
        rw [Brace.openBehind?] at h
        obtain ⟨inner, rest, rfl, nested, back⟩ := Brace.exists_close h le_rfl
        exact .block nested.nesting (ih rest.length (by simp; omega) back rfl)
      | interpolation =>
        rw [Brace.openBehind?] at h
        obtain ⟨inner, rest, rfl, nested, back⟩ := Brace.exists_close h le_rfl
        exact .interpolation nested (ih rest.length (by simp; omega) back rfl)

/-! ## Braces that the scanner meets -/

namespace Scanner

variable {s s' : Scanner} {t : Text} {c : Char}

/-- The brace that a character is on its own. -/
def braceOf? (c : Char) : Option Brace :=
  if c = '{' then some .block else if c = '}' then some .close else none

/-- The brace that ends with a character, outside of comments and strings. -/
def brace? (s : Scanner) (c : Char) : Option Brace :=
  match s.mode with
  | .code | .slash => braceOf? c
  | .hash => if c = '{' then some .interpolation else braceOf? c
  | .blockComment .. | .lineComment | .quoted .. => none

/-- The braces that the scanner meets along a text, up to the place where it fails, if it does. -/
def braces (s : Scanner) : Text → List Brace
  | [] => []
  | c :: t =>
    (s.brace? c).toList ++
      match s.step c with
      | .ok s' => s'.braces t
      | .error _ => []

/-- The number of braces that are open: those of blocks, and those of interpolations. -/
def openBraces (s : Scanner) : Nat :=
  s.openBlocks.length + s.interpolation

theorem openBraces_count : (s.count c).openBraces = s.openBraces := by
  unfold count
  split_ifs <;> rfl

/-- A character that opens neither a comment nor a string nor an interpolation opens or closes a
brace if it is one. -/
theorem openBraces_put : (s.put c).toOption.map openBraces =
    Brace.openBehind? s.openBraces (braceOf? c).toList := by
  rw [← openBraces_count (c := c)]
  generalize counted : s.count c = s₁
  simp only [put, counted]
  by_cases inside : 0 < s₁.interpolation
  · -- every brace counts for the interpolation
    rw [if_pos inside]
    by_cases left : c = '{'
    · simp [left, braceOf?, readInterpolation, openBraces, add, Brace.openBehind?, Except.toOption]
      omega
    by_cases right : c = '}'
    · obtain ⟨n, eq⟩ : ∃ n, s₁.interpolation = n + 1 := ⟨_, (Nat.succ_pred_eq_of_pos inside).symm⟩
      simp [right, braceOf?, readInterpolation, openBraces, add, eq, ← Nat.add_assoc,
        Brace.openBehind?, Except.toOption]
    · simp [left, right, braceOf?, readInterpolation, openBraces, add, Brace.openBehind?,
        Except.toOption]
  rw [if_neg inside]
  have none_open : s₁.interpolation = 0 := Nat.eq_zero_of_not_pos inside
  by_cases ends : c = ';' && s₁.parens = 0
  · rw [if_pos ends]
    simp only [Bool.and_eq_true, decide_eq_true_eq] at ends
    simp [ends.1, braceOf?, openBraces, emit, Brace.openBehind?, Except.toOption]
  rw [if_neg ends]
  by_cases left : c = '{'
  · simp [left, braceOf?, openBlock, openBraces, emit, none_open, Brace.openBehind?,
      Except.toOption]
  rw [if_neg left]
  by_cases right : c = '}'
  · -- a brace is to be closed exactly if a block is open
    rw [if_pos right, closeBlock]
    cases blocks : s₁.openBlocks with
    | nil => simp [right, braceOf?, openBraces, blocks, none_open, Brace.openBehind?,
        Except.toOption]
    | cons _ outer => simp [right, braceOf?, openBraces, emit, blocks, none_open,
        Brace.openBehind?, Except.toOption]
  · rw [if_neg right]
    simp [left, right, braceOf?, openBraces, add, Brace.openBehind?, Except.toOption]

theorem openBraces_code : (s.code c).toOption.map openBraces =
    Brace.openBehind? s.openBraces (braceOf? c).toList := by
  -- what opens a comment, a string or an interpolation, and a line break, are no braces
  have same : ∀ s' : Scanner, s'.openBraces = s.openBraces → c ≠ '{' → c ≠ '}' →
      (Except.ok s' : Except ScanError Scanner).toOption.map openBraces =
        Brace.openBehind? s.openBraces (braceOf? c).toList := by
    intro s' eq left right
    simp [braceOf?, left, right, Brace.openBehind?, Except.toOption, eq]
  unfold code
  split_ifs with slash hash quote newline
  · exact same _ rfl (slash ▸ by decide) (slash ▸ by decide)
  · exact same _ rfl (hash ▸ by decide) (hash ▸ by decide)
  · simp only [Bool.or_eq_true, decide_eq_true_eq] at quote
    refine same _ rfl ?_ ?_
    · rcases quote with rfl | rfl <;> decide
    · rcases quote with rfl | rfl <;> decide
  · exact same _ rfl (newline ▸ by decide) (newline ▸ by decide)
  · exact openBraces_put

/-- **One character opens or closes the brace that it ends**, and the scanner fails exactly if it
closes one where none is open. -/
theorem openBraces_step : (s.step c).toOption.map openBraces =
    Brace.openBehind? s.openBraces (s.brace? c).toList := by
  have same : ∀ s' : Scanner, s'.openBraces = s.openBraces →
      (Except.ok s' : Except ScanError Scanner).toOption.map openBraces =
        Brace.openBehind? s.openBraces [] := by
    intro s' eq
    simp [Brace.openBehind?, Except.toOption, eq]
  unfold step brace?
  cases mode : s.mode with
  | code => exact openBraces_code
  | slash =>
    -- the character that opens a comment is no brace
    dsimp only
    split_ifs with star comment
    · exact star ▸ same _ rfl
    · simp only [Bool.and_eq_true, decide_eq_true_eq] at comment
      exact comment.1 ▸ same _ rfl
    · exact openBraces_code (s := { s.add '/' with mode := .code })
  | hash =>
    dsimp only
    split_ifs with brace
    · have one_more : ({ (s.add '#').add '{' with
          mode := .code, interpolation := s.interpolation + 1 } : Scanner).openBraces =
            s.openBraces + 1 := rfl
      simp [Brace.openBehind?, Except.toOption, one_more]
    · exact openBraces_code (s := { s.add '#' with mode := .code })
  | blockComment start star =>
    dsimp only
    split_ifs <;> exact same _ rfl
  | lineComment =>
    dsimp only
    split_ifs with newline
    · exact newline ▸ same _ rfl
    · exact same _ rfl
  | quoted quote start escaped =>
    dsimp only
    split_ifs <;> exact same _ rfl

/-- **The scanner counts the open braces along a text**, and fails exactly if one is closed where
none is open. -/
theorem openBraces_run : (s.run t).toOption.map openBraces =
    Brace.openBehind? s.openBraces (s.braces t) := by
  induction t generalizing s with
  | nil => rfl
  | cons c t ih =>
    have first := openBraces_step (s := s) (c := c)
    rw [braces, Brace.openBehind?_append, ← first]
    cases next : s.step c with
    | error e =>
      rw [run, List.foldlM_cons, next]
      rfl
    | ok s₁ =>
      rw [run_cons next, ih]
      rfl

/-! ## Comments and strings -/

end Scanner

/-- Whether the end of the text is missing: that of a block comment or of a string. -/
def ScanMode.isOpen : ScanMode → Bool
  | .blockComment .. | .quoted .. => true
  | _ => false

/-- Every block comment and every string that is opened along a stylesheet is closed: where the
scanner is inside of one, it is back in the text of a statement further on. -/
def ClosesTexts (source : Text) : Prop :=
  ∀ u s, u <+: source → Scanner.run {} u = .ok s → s.mode.isOpen →
    ∃ v s', u ++ v <+: source ∧ s.run v = .ok s' ∧ s'.mode = .code

namespace Scanner

variable {s s' : Scanner} {source t : Text} {c : Char}

/-- A comment or a string goes on or is closed. -/
theorem step_of_isOpen (h : s.mode.isOpen) (step : s.step c = .ok s') :
    s'.mode.isOpen ∨ s'.mode = .code := by
  cases step_eq_ok_iff.mp step with
  | code mode =>
    unfold resume at mode
    cases eq : s.mode <;> simp [eq, ScanMode.isOpen] at h mode
  | opensBlockComment mode | opensLineComment mode | opensInterpolation mode
  | closesLineComment mode | inLineComment mode => simp [mode, ScanMode.isOpen] at h
  | inBlockComment | escaped | inString => exact .inl rfl
  | closesBlockComment | closesString => exact .inr rfl

/-- What is open and not open at the end is closed on the way. -/
theorem exists_closing (read : s.run t = .ok s') (inside : s.mode.isOpen)
    (outside : s'.mode.isOpen = false) :
    ∃ v s₁, v <+: t ∧ s.run v = .ok s₁ ∧ s₁.mode = .code := by
  induction t generalizing s with
  | nil =>
    cases read
    rw [outside] at inside
    cases inside
  | cons c t ih =>
    obtain ⟨s₂, step, rest⟩ := run_cons_eq_ok_iff.mp read
    rcases step_of_isOpen inside step with still | closed
    · obtain ⟨v, s₁, front, read₁, code⟩ := ih rest still
      exact ⟨c :: v, s₁, by simpa using front, (run_cons step).trans read₁, code⟩
    · exact ⟨[c], s₂, ⟨t, rfl⟩, run_cons step, closed⟩

/-- A stylesheet that is read to its end closes its texts exactly if none is open there. -/
theorem closesTexts_iff (read : Scanner.run {} source = .ok s) :
    ClosesTexts source ↔ s.mode.isOpen = false := by
  constructor
  · intro closes
    by_contra inside
    obtain ⟨v, s', front, rest, code⟩ :=
      closes source s List.prefix_rfl read (by simpa using inside)
    -- nothing stands behind the last character
    have nil : v = [] := by
      have := front.length_le
      rw [List.length_append] at this
      exact List.length_eq_zero_iff.mp (by omega)
    subst nil
    cases rest
    simp [code, ScanMode.isOpen] at inside
  · rintro outside u s₁ ⟨w, rfl⟩ read₁ inside
    rw [run_append read₁] at read
    obtain ⟨v, s', ⟨w', rfl⟩, rest, code⟩ := exists_closing read inside outside
    exact ⟨v, s', ⟨w', by simp⟩, rest, code⟩

/-- A text may end where no comment, no string and no brace is open. -/
theorem finish_isOk_iff : (∃ statements, s.finish = .ok statements) ↔
    s.mode.isOpen = false ∧ s.openBraces = 0 := by
  -- a slash or a hash that was held back opens nothing
  have braces : ∀ s' : Scanner, s'.openBraces = s.openBraces → s.settle = .ok s' →
      ((∃ statements, s.finish = .ok statements) ↔ s.openBraces = 0) := by
    intro s' eq settled
    rw [← eq, openBraces]
    simp [finish_eq_ok_iff, settled, and_comm]
  unfold settle at braces
  cases mode : s.mode with
  | code => simpa [mode, ScanMode.isOpen] using braces s rfl (by simp [mode])
  | lineComment => simpa [mode, ScanMode.isOpen] using braces s rfl (by simp [mode])
  | slash => simpa [mode, ScanMode.isOpen] using braces (s.add '/') rfl (by simp [mode])
  | hash => simpa [mode, ScanMode.isOpen] using braces (s.add '#') rfl (by simp [mode])
  | blockComment start star => simp [finish, settle, mode, ScanMode.isOpen, bind, Except.bind]
  | quoted quote start escaped => simp [finish, settle, mode, ScanMode.isOpen, bind, Except.bind]

end Scanner

/-- **A stylesheet is accepted exactly if its texts are closed and its braces are nested**: every
block comment and every string that the scanner opens is closed, and the braces that it meets
outside of them are an allowed word. -/
theorem scan_accepts_iff (source : Text) : (∃ statements, scan source = .ok statements) ↔
    ClosesTexts source ∧ Nesting (Scanner.braces {} source) := by
  have counted : (Scanner.run {} source).toOption.map Scanner.openBraces =
      Brace.openBehind? 0 (Scanner.braces {} source) := Scanner.openBraces_run
  rw [nesting_iff, ← counted, scan]
  cases read : Scanner.run {} source with
  | error e => simp [bind, Except.bind, Except.toOption]
  | ok s =>
    change (∃ statements, s.finish = .ok statements) ↔ _
    rw [Scanner.finish_isOk_iff, Scanner.closesTexts_iff read]
    simp [Except.toOption]

/-- Braces in a string and in a comment do not count, and a block closes none of the
interpolation that it stands in. -/
example : Nesting (Scanner.braces {} "a\x7b/*\x7d*/b:#\x7bc\x7b'\x7d'\x7d\x7d;\x7d".toList) :=
  .block (.interpolation (.block .nil .nil) .nil) .nil

end StyleTokens
