import Mathlib.Tactic.MkIffOfInductiveProp
import Mathlib.Tactic.SplitIfs
import StyleTokens.Proofs.Data.Except
import StyleTokens.Proofs.Stylesheet.Statement
import StyleTokens.Stylesheet.Scanner

/-!
# The scanner along a text

The scanner passes over a balanced text, one whose strings, parentheses and interpolations are
closed, in the same way: all its characters become part of the statement, and nothing else
changes. What ends a statement stands behind such a text.

## Main definitions

* `Scanner.addAll`: a text becomes part of the statement
* `Scanner.held`, `Scanner.resume`: a character that is held back, and the scanner behind it
* `Scanner.ReadsApart`: whether what has been read is read apart from the text behind it
* `Scanner.Transition`, `Scanner.PutTransition`: what a character does, by what the scanner is
  inside of
* `Balanced`: the texts whose strings, parentheses and interpolations are closed
* `Scanner.Fresh`: the scanner between two statements

## Main results

* `Scanner.step_resume`: a character that was held back and opens nothing is read as any other
* `Scanner.step_eq_ok_iff`, `Scanner.put_eq_ok_iff`: the scanner reads a character exactly by a
  transition
* `Scanner.run_balanced`: a balanced text becomes part of the statement
* `Scanner.Fresh.reads_statement`, `Scanner.Fresh.reads_block`: the scanner along one statement
  and along one block
-/

namespace StyleTokens

/-! ## Texts that become part of the statement -/

namespace StatementBuffer

variable {buffer : StatementBuffer} {t u : Text} {line : Nat}

/-- The buffer with the characters of a text, all read on the given line. -/
def addAll (buffer : StatementBuffer) (t : Text) (line : Nat) : StatementBuffer :=
  t.foldl (fun b c => b.add c line) buffer

theorem addAll_append : buffer.addAll (t ++ u) line = (buffer.addAll t line).addAll u line :=
  List.foldl_append

@[simp]
theorem text_addAll : (buffer.addAll t line).text = buffer.text ++ t := by
  induction t generalizing buffer with
  | nil => simp [addAll]
  | cons c t ih =>
    have rest := @ih (buffer.add c line)
    simpa [addAll] using rest

theorem line_addAll_of_some {n : Nat} (h : buffer.line = some n) :
    (buffer.addAll t line).line = some n := by
  induction t generalizing buffer with
  | nil => exact h
  | cons c t ih => exact ih (by simp [add, h])

/-- Blanks in front of a statement do not count for its line. -/
theorem line_addAll_of_blank (h : buffer.line = none) (ht : ∀ c ∈ t, isBlank c) :
    (buffer.addAll t line).line = none := by
  induction t generalizing buffer with
  | nil => exact h
  | cons c t ih =>
    rw [List.forall_mem_cons] at ht
    exact ih (by simp [add, h, ht.1]) ht.2

/-- The first character that is no blank gives the statement its line. -/
theorem line_addAll_cons {c : Char} (h : buffer.line = none) (hc : ¬isBlank c) :
    (buffer.addAll (c :: t) line).line = some line := by
  have known : (buffer.add c line).line = some line := by simp [add, h, hc]
  rw [addAll, List.foldl_cons]
  exact line_addAll_of_some known

end StatementBuffer

namespace Scanner

variable {s s' : Scanner} {t u rest : Text} {c : Char}

/-- A text becomes part of the statement. -/
def addAll (s : Scanner) (t : Text) : Scanner :=
  { s with buffer := s.buffer.addAll t s.line }

theorem addAll_cons : s.addAll (c :: t) = (s.add c).addAll t := rfl

theorem addAll_append : s.addAll (t ++ u) = (s.addAll t).addAll u := by
  simp [addAll, StatementBuffer.addAll_append]

@[simp]
theorem run_nil : s.run [] = .ok s := rfl

theorem run_cons (h : s.step c = .ok s') : s.run (c :: t) = s'.run t := by
  rw [run, List.foldlM_cons, h]
  rfl

theorem run_append (h : s.run t = .ok s') : s.run (t ++ u) = s'.run u := by
  rw [run, List.foldlM_append]
  change (s.run t >>= fun s => s.run u) = _
  rw [h]
  rfl

theorem run_cons_eq_ok_iff :
    s.run (c :: t) = .ok s' ↔ ∃ s₁, s.step c = .ok s₁ ∧ s₁.run t = .ok s' := by
  rw [run, List.foldlM_cons]
  exact bind_eq_ok_iff

/-- What reads a text reads its parts one after the other. -/
theorem run_append_eq_ok_iff :
    s.run (t ++ u) = .ok s' ↔ ∃ s₁, s.run t = .ok s₁ ∧ s₁.run u = .ok s' := by
  induction t generalizing s with
  | nil => simp
  | cons c t ih =>
    rw [List.cons_append, run_cons_eq_ok_iff]
    simp only [ih, run_cons_eq_ok_iff]
    constructor
    · rintro ⟨s₁, next, s₂, front, back⟩
      exact ⟨s₂, ⟨s₁, next, front⟩, back⟩
    · rintro ⟨s₂, ⟨s₁, next, front⟩, back⟩
      exact ⟨s₁, next, s₂, front, back⟩

/-- Characters that become part of the statement one by one become part of it together. -/
theorem run_eq_addAll (h : ∀ s' : Scanner, s'.mode = s.mode → ∀ c ∈ t, s'.step c = .ok (s'.add c)) :
    s.run t = .ok (s.addAll t) := by
  induction t generalizing s with
  | nil => rfl
  | cons c t ih =>
    rw [run_cons (h s rfl c List.mem_cons_self),
      ih (s := s.add c) fun s' mode d hd => h s' mode d (List.mem_cons_of_mem c hd)]
    rfl

/-! ## One character -/

theorem step_eq_code (hm : s.mode = .code) : s.step c = s.code c := by
  simp only [step, hm]

/-- The characters that mean nothing to the scanner on their own. -/
def isPlain (c : Char) : Bool :=
  !List.contains ['"', '\x27', '(', ')', '{', '}', ';', '\n'] c

theorem readInterpolation_of_ne (left : c ≠ '{') (right : c ≠ '}') :
    s.readInterpolation c = s.add c := by
  rw [readInterpolation, if_neg left, if_neg right]
  rfl

theorem count_of_ne (left : c ≠ '(') (right : c ≠ ')') : s.count c = s := by
  simp [count, left, right]

/-- What does not end a statement becomes part of it. -/
theorem put_eq_add (left : c ≠ '{') (right : c ≠ '}')
    (stays : c = ';' → 0 < (s.count c).parens ∨ 0 < (s.count c).interpolation) :
    s.put c = .ok ((s.count c).add c) := by
  simp only [put, left, right, if_false, readInterpolation_of_ne left right]
  split_ifs with inside ends
  · rfl
  · simp only [Bool.and_eq_true, decide_eq_true_eq] at ends
    rcases stays ends.1 with h | h <;> omega
  · rfl

theorem step_plain (hm : s.mode = .code) (hc : isPlain c) (slash : c ≠ '/') (hash : c ≠ '#') :
    s.step c = .ok (s.add c) := by
  simp only [isPlain, List.contains_cons, Bool.not_eq_true', Bool.or_eq_false_iff,
    beq_eq_false_iff_ne] at hc
  obtain ⟨double, single, left, right, opens, closes, semicolon, newline, _⟩ := hc
  have counted := count_of_ne (s := s) left right
  rw [step_eq_code hm, code, if_neg slash, if_neg hash, if_neg (by simp [double, single]),
    if_neg newline, put_eq_add opens closes (fun h => absurd h semicolon), counted]

theorem step_newline (hm : s.mode = .code) :
    s.step '\n' = .ok { s.add '\n' with line := s.line + 1 } := by
  rw [step_eq_code hm]
  rfl

/-- A character of a block comment that does not close it. -/
theorem step_blockComment {start : Nat} {star : Bool} (hm : s.mode = .blockComment start star)
    (stays : star → c ≠ '/') : s.step c = .ok { s with
      mode := .blockComment start (c = '*')
      line := if c = '\n' then s.line + 1 else s.line } := by
  have open_ : (star && decide (c = '/')) = false := by simpa using stays
  simp only [step, hm, open_, Bool.false_eq_true, if_false]

/-! ## What is held back -/

/-- The character that is held back. -/
def held (s : Scanner) : Text :=
  match s.mode with
  | .slash => ['/']
  | .hash => ['#']
  | _ => []

/-- The scanner with the character that was held back in the statement. -/
def resume (s : Scanner) : Scanner :=
  match s.mode with
  | .slash | .hash => { s.addAll s.held with mode := .code }
  | _ => s

/-- What has been read and the text behind it are read apart: a character that is held back opens
nothing together with the text, and a line comment is at its end. Block comments and strings have
to be closed. -/
def ReadsApart (s : Scanner) (t : Text) : Prop :=
  match s.mode with
  | .code => True
  | .slash => t.head? ≠ some '*' ∧ (t.head? = some '/' → s.urlParen ≠ 0)
  | .hash => t.head? ≠ some '{'
  | .lineComment => ∀ c ∈ t.head?, c = '\n'
  | .blockComment .. | .quoted .. => False

/-- A character that was held back and opens nothing is read as any other. -/
theorem step_resume (apart : s.ReadsApart (c :: t)) : s.step c = s.resume.step c := by
  unfold ReadsApart at apart
  unfold resume held
  cases mode : s.mode with
  | slash =>
    simp only [mode, List.head?_cons, ne_eq, Option.some.injEq] at apart
    obtain ⟨star, slash⟩ := apart
    have plain : (decide (c = '/') && decide (s.urlParen = 0)) = false := by
      simpa using slash
    simp only [step, mode, if_neg star, plain, Bool.false_eq_true, if_false]
    rfl
  | hash =>
    simp only [mode, List.head?_cons, ne_eq, Option.some.injEq] at apart
    simp only [step, mode, if_neg apart]
    rfl
  | code | blockComment | lineComment | quoted => rfl

theorem run_resume (apart : s.ReadsApart (c :: t)) : s.run (c :: t) = s.resume.run (c :: t) := by
  rw [run, run, List.foldlM_cons, List.foldlM_cons, step_resume apart]

theorem mode_resume (apart : s.ReadsApart t) (h : s.mode ≠ .lineComment) :
    s.resume.mode = .code := by
  unfold ReadsApart at apart
  unfold resume
  cases mode : s.mode with
  | code => exact mode
  | slash | hash => rfl
  | lineComment => exact absurd mode h
  | blockComment | quoted => simp [mode] at apart

@[simp]
theorem line_resume : s.resume.line = s.line := by
  unfold resume
  split <;> rfl

@[simp]
theorem urlParen_resume : s.resume.urlParen = s.urlParen := by
  unfold resume
  split <;> rfl

/-- Behind a character that was held back, the scanner is in the text of a statement. -/
theorem resume_eq (h : s.resume.mode = .code) :
    s.resume = { s.addAll s.held with mode := .code } := by
  unfold resume at h ⊢
  cases mode : s.mode with
  | code =>
    simp only [held, mode]
    rw [← mode]
    rfl
  | slash | hash => rfl
  | blockComment | lineComment | quoted => simp [mode] at h

/-! ## What one character does -/

/-- What a character does that opens neither a comment nor a string nor an interpolation, to the
scanner that has counted it. -/
inductive PutTransition (s : Scanner) (c : Char) : Scanner → Prop
  | interpolates (inside : 0 < s.interpolation) : PutTransition s c (s.readInterpolation c)
  | ends (outside : ¬0 < s.interpolation) (semicolon : c = ';') (parens : s.parens = 0) :
    PutTransition s c (s.emit false)
  | opens (outside : ¬0 < s.interpolation) (brace : c = '{') : PutTransition s c s.openBlock
  | closes {openedAt : Nat} {outer : List Nat} (outside : ¬0 < s.interpolation)
    (brace : c = '}') (blocks : s.openBlocks = openedAt :: outer) : PutTransition s c
      { s.emit false with openBlocks := outer, parens := 0, urlParen := 0 }
  | adds (outside : ¬0 < s.interpolation) (stays : c = ';' → s.parens ≠ 0) (left : c ≠ '{')
    (right : c ≠ '}') : PutTransition s c (s.add c)

/-- A character that opens nothing is read exactly by such a transition. -/
theorem put_eq_ok_iff : s.put c = .ok s' ↔ (s.count c).PutTransition c s' := by
  simp only [put]
  generalize s.count c = s
  constructor
  · intro h
    split_ifs at h with inside ends opens closes
    · cases h
      exact .interpolates inside
    · cases h
      simp only [Bool.and_eq_true, decide_eq_true_eq] at ends
      exact .ends inside ends.1 ends.2
    · cases h
      exact .opens inside opens
    · unfold closeBlock at h
      cases blocks : s.openBlocks with
      | nil => simp [blocks] at h
      | cons openedAt outer =>
        simp only [blocks] at h
        cases h
        exact .closes inside closes blocks
    · cases h
      exact .adds inside (by simpa using ends) opens closes
  · intro h
    cases h with
    | interpolates inside => simp [inside]
    | ends outside semicolon parens => simp [outside, semicolon, parens]
    | opens outside brace => simp [outside, brace]
    | closes outside brace blocks => simp [outside, brace, closeBlock, blocks]
    | adds outside stays left right =>
      have open_ : (decide (c = ';') && decide (s.parens = 0)) = false := by simpa using stays
      simp [outside, open_, left, right]

/-- What a character does, by what the scanner is inside of. Proofs about one character split
into these cases. -/
inductive Transition (s : Scanner) (c : Char) : Scanner → Prop
  /-- It is read in the text of a statement, behind what was held back. -/
  | code {s' : Scanner} (mode : s.resume.mode = .code) (apart : s.ReadsApart [c])
    (read : s.resume.code c = .ok s') : Transition s c s'
  | opensBlockComment (mode : s.mode = .slash) (star : c = '*') :
    Transition s c { s with mode := .blockComment s.line false }
  | opensLineComment (mode : s.mode = .slash) (slash : c = '/') (url : s.urlParen = 0) :
    Transition s c { s with mode := .lineComment }
  | opensInterpolation (mode : s.mode = .hash) (brace : c = '{') :
    Transition s c { (s.add '#').add '{' with
      mode := .code, interpolation := s.interpolation + 1 }
  | closesBlockComment {start : Nat} (mode : s.mode = .blockComment start true)
    (slash : c = '/') : Transition s c { s with mode := .code }
  | inBlockComment {start : Nat} {star : Bool} (mode : s.mode = .blockComment start star)
    (stays : star → c ≠ '/') : Transition s c { s with
      mode := .blockComment start (c = '*')
      line := if c = '\n' then s.line + 1 else s.line }
  /-- The break that ends a line comment is read as part of the statement. -/
  | closesLineComment (mode : s.mode = .lineComment) (newline : c = '\n') :
    Transition s c { s.add '\n' with mode := .code, line := s.line + 1 }
  | inLineComment (mode : s.mode = .lineComment) (newline : c ≠ '\n') : Transition s c s
  /-- Behind a backslash, any character is part of the string. -/
  | escaped {quote : Char} {start : Nat} (mode : s.mode = .quoted quote start true) :
    Transition s c { s.add c with mode := .quoted quote start false }
  | closesString {quote : Char} {start : Nat} (mode : s.mode = .quoted quote start false)
    (closes : c = quote) : Transition s c { s.add c with mode := .code }
  | inString {quote : Char} {start : Nat} (mode : s.mode = .quoted quote start false)
    (stays : c ≠ quote) : Transition s c { s.add c with
      mode := .quoted quote start (c = '\\')
      line := if c = '\n' then s.line + 1 else s.line }

theorem Transition.of_step (h : s.step c = .ok s') : s.Transition c s' := by
  unfold step at h
  cases mode : s.mode with
  | code =>
    simp only [mode] at h
    have resumed : s.resume = s := by simp only [resume, mode]
    exact .code (by rw [resumed, mode]) (by simp only [ReadsApart, mode]) (by rw [resumed, h])
  | slash =>
    have resumed : s.resume = { s.add '/' with mode := .code } := by
      simp only [resume, held, mode]
      rfl
    simp only [mode] at h
    split_ifs at h with star comment
    · cases h
      exact .opensBlockComment mode star
    · cases h
      simp only [Bool.and_eq_true, decide_eq_true_eq] at comment
      exact .opensLineComment mode comment.1 comment.2
    · refine .code (by rw [resumed]) ?_ (resumed ▸ h)
      simpa [ReadsApart, mode, star] using comment
  | hash =>
    have resumed : s.resume = { s.add '#' with mode := .code } := by
      simp only [resume, held, mode]
      rfl
    simp only [mode] at h
    split_ifs at h with brace
    · cases h
      exact .opensInterpolation mode brace
    · exact .code (by rw [resumed]) (by simpa [ReadsApart, mode] using brace) (resumed ▸ h)
  | blockComment start star =>
    simp only [mode] at h
    by_cases closes : (star && decide (c = '/')) = true
    · rw [if_pos closes] at h
      cases h
      simp only [Bool.and_eq_true, decide_eq_true_eq] at closes
      obtain ⟨rfl, slash⟩ := closes
      exact .closesBlockComment mode slash
    · rw [if_neg closes] at h
      cases h
      exact .inBlockComment mode (by simpa using closes)
  | lineComment =>
    simp only [mode] at h
    split_ifs at h with newline
    · subst newline
      obtain rfl := Except.ok.inj h
      exact .closesLineComment mode rfl
    · cases h
      exact .inLineComment mode newline
  | quoted quote start escaped =>
    cases escaped with
    | true =>
      simp only [mode, if_true] at h
      cases h
      exact .escaped mode
    | false =>
      simp only [mode, Bool.false_eq_true, if_false] at h
      by_cases closes : c = quote
      · rw [if_pos closes] at h
        cases h
        exact .closesString mode closes
      · rw [if_neg closes] at h
        cases h
        exact .inString mode closes

theorem Transition.step_eq (h : s.Transition c s') : s.step c = .ok s' := by
  cases h with
  | code mode apart read => rw [step_resume apart, step_eq_code mode, read]
  | opensBlockComment mode star => simp [step, mode, star]
  | opensLineComment mode slash url => simp [step, mode, slash, url]
  | opensInterpolation mode brace => simp [step, mode, brace]
  | closesBlockComment mode slash => simp [step, mode, slash]
  | inBlockComment mode stays => exact step_blockComment mode stays
  | closesLineComment mode newline =>
    simp only [step, mode, newline, if_true]
    rfl
  | inLineComment mode newline => simp [step, mode, newline]
  | escaped mode => simp [step, mode]
  | closesString mode closes => simp [step, mode, closes]
  | inString mode stays => simp [step, mode, stays]

/-- **The scanner reads a character exactly by a transition.** -/
theorem step_eq_ok_iff : s.step c = .ok s' ↔ s.Transition c s' :=
  ⟨Transition.of_step, Transition.step_eq⟩

/-- Behind a slash, the scanner holds the slash back. -/
theorem step_slash (hm : s.mode = .code) : s.step '/' = .ok { s with mode := .slash } := by
  rw [step_eq_code hm]
  rfl

/-- Behind a slash, a character that opens no comment is read as if the slash were plain. -/
theorem run_slash (hm : s.mode = .code) (slash : c = '/' → s.urlParen ≠ 0) (star : c ≠ '*') :
    s.run ('/' :: c :: rest) = (s.add '/').run (c :: rest) := by
  have apart : ({ s with mode := .slash } : Scanner).ReadsApart (c :: rest) := by
    simpa [ReadsApart, star] using slash
  have plain : ({ s with mode := .slash } : Scanner).resume = s.add '/' := by
    change { s.add '/' with mode := .code } = s.add '/'
    rw [← hm]
    rfl
  rw [run_cons (step_slash hm), run_resume apart, plain]

/-- Behind a hash, a character that opens no interpolation is read as if the hash were plain. -/
theorem run_hash (hm : s.mode = .code) (brace : c ≠ '{') :
    s.run ('#' :: c :: rest) = (s.add '#').run (c :: rest) := by
  have opened : s.step '#' = .ok { s with mode := .hash } := by
    rw [step_eq_code hm]
    rfl
  have apart : ({ s with mode := .hash } : Scanner).ReadsApart (c :: rest) := by
    simp [ReadsApart, brace]
  have plain : ({ s with mode := .hash } : Scanner).resume = s.add '#' := by
    change { s.add '#' with mode := .code } = s.add '#'
    rw [← hm]
    rfl
  rw [run_cons opened, run_resume apart, plain]

/-! ## What ends a statement -/

/-- Between parentheses and inside an interpolation, a semicolon ends nothing. -/
theorem step_semicolon (hm : s.mode = .code) (inside : 0 < s.parens ∨ 0 < s.interpolation) :
    s.step ';' = .ok (s.add ';') := by
  rw [step_eq_code hm, ← count_of_ne (s := s) (c := ';') (by decide) (by decide)]
  exact put_eq_add (by decide) (by decide) fun _ => inside

theorem step_open (hm : s.mode = .code) : s.step '(' = .ok ((s.count '(').add '(') := by
  rw [step_eq_code hm]
  exact put_eq_add (by decide) (by decide) nofun

theorem step_close (hm : s.mode = .code) : s.step ')' = .ok ((s.count ')').add ')') := by
  rw [step_eq_code hm]
  exact put_eq_add (by decide) (by decide) nofun

/-- A closing parenthesis takes back what the opening one did. -/
theorem count_close (h : s.urlParen ≤ s.parens) (t : Text) :
    ((s.count '(').addAll t).count ')' = s.addAll t := by
  have close : (')' : Char) ≠ '(' := by decide
  simp only [count, if_true, if_neg close, addAll, decide_true, Bool.true_and, Nat.zero_lt_succ,
    Nat.add_sub_cancel]
  split_ifs with url now now
  · simp only [Bool.and_eq_true, decide_eq_true_eq] at url
    rw [url.1]
  · exact absurd rfl now
  · omega
  · rfl

/-- Outside of them, it ends the statement. -/
theorem step_end (hm : s.mode = .code) (hp : s.parens = 0) (hi : s.interpolation = 0) :
    s.step ';' = .ok (s.emit false) := by
  rw [step_eq_code hm]
  simp [code, put, count, hp, hi]

theorem step_openBlock (hm : s.mode = .code) (hi : s.interpolation = 0) :
    s.step '{' = .ok s.openBlock := by
  rw [step_eq_code hm]
  simp [code, put, count, hi]

theorem step_closeBlock (hm : s.mode = .code) (hi : s.interpolation = 0) :
    s.step '}' = s.closeBlock := by
  rw [step_eq_code hm]
  simp [code, put, count, hi]

/-- The inside of a string becomes part of the statement up to its quote. -/
theorem run_quoted {q : Char} {start : Nat} (hm : s.mode = .quoted q start false) {body : Text}
    (h : ∀ c ∈ body, c ≠ '\n' ∧ c ≠ '\\' ∧ c ≠ q) :
    s.run (body ++ q :: rest) = { s.addAll (body ++ [q]) with mode := .code }.run rest := by
  induction body generalizing s with
  | nil =>
    refine run_cons ?_
    simp only [step, hm, Bool.false_eq_true, if_false, if_true]
    rfl
  | cons c body ih =>
    rw [List.forall_mem_cons] at h
    obtain ⟨⟨newline, backslash, quote⟩, hb⟩ := h
    have next : s.step c = .ok (s.add c) := by
      simp only [step, hm, Bool.false_eq_true, if_false, quote, newline, backslash, decide_false]
      rw [← hm]
      rfl
    rw [List.cons_append, run_cons next, ih (s := s.add c) hm hb]
    rfl

end Scanner

/-! ## Balanced texts -/

/-- Whether a character and the text behind it open a comment or an interpolation. -/
def Opens (c : Char) (t : Text) : Prop :=
  c = '/' ∧ (t.head? = some '/' ∨ t.head? = some '*') ∨ c = '#' ∧ t.head? = some '{'

instance (c : Char) (t : Text) : Decidable (Opens c t) :=
  inferInstanceAs (Decidable (_ ∨ _))

/-- The texts on one line whose strings, parentheses and interpolations are closed. A semicolon
stands only inside of parentheses and interpolations, or where `semicolons` allows it. -/
inductive Balanced : (semicolons : Bool) → Text → Prop
  | nil {semicolons : Bool} : Balanced semicolons []
  /-- A character that means nothing to the scanner. -/
  | plain {semicolons : Bool} {c : Char} {t : Text} : Scanner.isPlain c → ¬Opens c t →
    Balanced semicolons t → Balanced semicolons (c :: t)
  | semicolon {t : Text} : Balanced true t → Balanced true (';' :: t)
  /-- A string without escapes. -/
  | quoted {semicolons : Bool} {q : Char} {body t : Text} : q = '"' ∨ q = '\x27' →
    (∀ c ∈ body, c ≠ '\n' ∧ c ≠ '\\' ∧ c ≠ q) → Balanced semicolons t →
    Balanced semicolons (q :: body ++ q :: t)
  /-- A text in parentheses. -/
  | parens {semicolons : Bool} {body t : Text} : Balanced true body → Balanced semicolons t →
    Balanced semicolons ('(' :: body ++ ')' :: t)
  | interpolation {semicolons : Bool} {body t : Text} : Balanced true body →
    Balanced semicolons t → Balanced semicolons ('#' :: '{' :: body ++ '}' :: t)

/-- Characters that can open nothing may stand in front of a balanced text. -/
theorem Balanced.append_left {semicolons : Bool} {p t : Text} (ht : Balanced semicolons t)
    (hp : ∀ c ∈ p, Scanner.isPlain c ∧ c ≠ '/' ∧ c ≠ '#') : Balanced semicolons (p ++ t) := by
  induction p with
  | nil => exact ht
  | cons c p ih =>
    rw [List.forall_mem_cons] at hp
    obtain ⟨⟨plain, slash, hash⟩, hp⟩ := hp
    exact .plain plain (by simp [Opens, slash, hash]) (ih hp)

/-- A semicolon between parentheses, and a brace in a string inside an interpolation. -/
example : Balanced false "url(a;b)#\x7b'\x7d'\x7d".toList := by
  have inside : Balanced true "a;b".toList :=
    .append_left (p := ['a']) (.semicolon (.append_left (p := ['b']) .nil (by decide))) (by decide)
  have string : Balanced true ('\x27' :: ['}'] ++ '\x27' :: []) :=
    .quoted (.inr rfl) (by decide) .nil
  exact .append_left (p := "url".toList) (.parens inside (.interpolation string .nil)) (by decide)

namespace Scanner

variable {s s' : Scanner} {t u rest : Text} {c : Char}

/-- A plain character becomes part of the statement, whatever stands behind it. -/
theorem run_plain (hm : s.mode = .code) (hc : isPlain c) (closed : ¬Opens c (t ++ u))
    (more : t ++ u ≠ []) : s.run (c :: t ++ u) = (s.add c).run (t ++ u) := by
  obtain ⟨d, w, eq⟩ := List.exists_cons_of_ne_nil more
  rw [List.cons_append, eq]
  rw [eq] at closed
  simp only [Opens, List.head?_cons, Option.some.injEq, not_or, not_and] at closed
  by_cases slash : c = '/'
  · subst slash
    exact run_slash hm (fun eq => absurd eq (closed.1 rfl).1) (closed.1 rfl).2
  by_cases hash : c = '#'
  · subst hash
    exact run_hash hm (closed.2 rfl)
  exact run_cons (step_plain hm hc slash hash)

/-- A string becomes part of the statement. -/
theorem run_string (hm : s.mode = .code) {q : Char} {body : Text} (hq : q = '"' ∨ q = '\x27')
    (hb : ∀ c ∈ body, c ≠ '\n' ∧ c ≠ '\\' ∧ c ≠ q) :
    s.run (q :: body ++ q :: rest) = (s.addAll (q :: body ++ [q])).run rest := by
  have opened : s.step q = .ok { s.add q with mode := .quoted q s.line false } := by
    rw [step_eq_code hm]
    rcases hq with rfl | rfl <;> rfl
  have restored : { ({ s.add q with mode := .quoted q s.line false } : Scanner).addAll
      (body ++ [q]) with mode := .code } = s.addAll (q :: body ++ [q]) := by
    rw [← hm]
    rfl
  rw [List.cons_append, run_cons opened, run_quoted rfl hb, restored]

/-- A text in parentheses becomes part of the statement, if what stands inside does. -/
theorem run_parens (hm : s.mode = .code) (url : s.urlParen ≤ s.parens) {body : Text}
    (within : ∀ s' : Scanner, s'.mode = .code → 0 < s'.parens → s'.urlParen ≤ s'.parens →
      s'.run (body ++ ')' :: rest) = (s'.addAll body).run (')' :: rest)) :
    s.run ('(' :: body ++ ')' :: rest) = (s.addAll ('(' :: body ++ [')'])).run rest := by
  have mode : (s.count '(').mode = .code := by simpa [count] using hm
  have counted : (s.count '(').parens = s.parens + 1 := by simp [count]
  -- a `url(` that opens here is counted as a parenthesis as well
  have bounded : (s.count '(').urlParen ≤ (s.count '(').parens := by
    simp only [count, if_true]
    split_ifs <;> omega
  have closed : (((s.count '(').add '(').addAll body).step ')' =
      .ok (s.addAll ('(' :: body ++ [')'])) := by
    rw [step_close (s := ((s.count '(').add '(').addAll body) mode, ← addAll_cons,
      count_close url, addAll_append]
    rfl
  rw [List.cons_append, run_cons (step_open hm),
    within ((s.count '(').add '(') mode (by simp [add, counted]) bounded, run_cons closed]

/-- An interpolation becomes part of the statement, if what stands inside does. -/
theorem run_interpolation (hm : s.mode = .code) {body : Text}
    (within : ∀ s' : Scanner, s'.mode = .code → 0 < s'.interpolation → s'.parens = s.parens →
      s'.urlParen = s.urlParen →
      s'.run (body ++ '}' :: rest) = (s'.addAll body).run ('}' :: rest)) :
    s.run ('#' :: '{' :: body ++ '}' :: rest) =
      (s.addAll ('#' :: '{' :: body ++ ['}'])).run rest := by
  -- The hash sign is held back until the brace shows that an interpolation starts.
  let s' : Scanner := { s.addAll ['#', '{'] with interpolation := s.interpolation + 1 }
  have hash : s.step '#' = .ok { s with mode := .hash } := by
    rw [step_eq_code hm]
    rfl
  have brace : { s with mode := .hash }.step '{' = .ok s' := by
    simp only [step, if_true]
    rw [← hm]
    rfl
  have closed : (s'.addAll body).step '}' = .ok (s.addAll ('#' :: '{' :: body ++ ['}'])) := by
    rw [step_eq_code (s := s'.addAll body) hm, addAll_append]
    rfl
  rw [List.cons_append, List.cons_append, run_cons hash, run_cons brace,
    within s' hm (Nat.succ_pos _) rfl rfl, run_cons closed]

/-- **A balanced text becomes part of the statement**, and nothing else changes. The character
behind it must not open anything together with the last one of the text. -/
theorem run_balanced {semicolons : Bool} (h : Balanced semicolons t) (hm : s.mode = .code)
    (inside : semicolons → 0 < s.parens ∨ 0 < s.interpolation) (url : s.urlParen ≤ s.parens)
    (hc : c ≠ '/' ∧ c ≠ '*' ∧ c ≠ '{') :
    s.run (t ++ c :: rest) = (s.addAll t).run (c :: rest) := by
  -- Induction on the parts of the text. The state is generalized, as the inside of parentheses
  -- and interpolations is read one level deeper, where a semicolon ends nothing.
  induction h generalizing s c rest with
  | nil => rfl
  | @plain _ d t hd closed ht ih =>
    -- only the last character of the text can see the character behind it
    have closed' : ¬Opens d (t ++ c :: rest) := by
      cases t with
      | nil => simpa [Opens] using ⟨fun _ => ⟨hc.1, hc.2.1⟩, fun _ => hc.2.2⟩
      | cons e t => simpa [Opens] using closed
    rw [run_plain hm hd closed' (by simp), ih (s := s.add d) hm inside url hc]
    rfl
  | @semicolon t ht ih =>
    rw [List.cons_append, run_cons (step_semicolon hm (inside rfl)),
      ih (s := s.add ';') hm inside url hc]
    rfl
  | @quoted _ q body t hq hb ht ih =>
    have split : q :: body ++ q :: t = (q :: body ++ [q]) ++ t := by simp
    rw [List.append_assoc]
    show s.run (q :: body ++ q :: (t ++ c :: rest)) = _
    rw [run_string hm hq hb,
      ih (s := s.addAll (q :: body ++ [q])) hm inside url hc, ← addAll_append, split]
  | @parens _ body t hb ht ihb iht =>
    have split : '(' :: body ++ ')' :: t = ('(' :: body ++ [')']) ++ t := by simp
    rw [List.append_assoc]
    show s.run ('(' :: body ++ ')' :: (t ++ c :: rest)) = _
    rw [run_parens hm url fun s' mode open_ bounded =>
        ihb mode (fun _ => .inl open_) bounded (by decide),
      iht (s := s.addAll ('(' :: body ++ [')'])) hm inside url hc, ← addAll_append, split]
  | @interpolation _ body t hb ht ihb iht =>
    have split : '#' :: '{' :: body ++ '}' :: t = ('#' :: '{' :: body ++ ['}']) ++ t := by simp
    rw [List.append_assoc]
    show s.run ('#' :: '{' :: body ++ '}' :: (t ++ c :: rest)) = _
    rw [run_interpolation hm fun s' mode open_ parens paren =>
        ihb mode (fun _ => .inr open_) (by omega) (by decide),
      iht (s := s.addAll ('#' :: '{' :: body ++ ['}'])) hm inside url hc, ← addAll_append, split]

/-! ## Whole statements -/

/-- The scanner between two statements: it has read nothing but blanks of the next one. -/
@[mk_iff]
structure Fresh (s : Scanner) : Prop where
  mode : s.mode = .code
  blank : ∀ c ∈ s.buffer.text, isBlank c
  line : s.buffer.line = none
  parens : s.parens = 0
  urlParen : s.urlParen = 0
  interpolation : s.interpolation = 0

instance : DecidablePred Fresh := fun s => decidable_of_iff' _ (fresh_iff s)

theorem fresh_initial : ({} : Scanner).Fresh :=
  ⟨rfl, nofun, rfl, rfl, rfl, rfl⟩

/-- It is between two statements on any line. -/
theorem Fresh.withLine (hs : s.Fresh) (n : Nat) : ({ s with line := n } : Scanner).Fresh :=
  ⟨hs.mode, hs.blank, hs.line, hs.parens, hs.urlParen, hs.interpolation⟩

/-- Blanks in front of a statement leave the scanner between two statements. -/
theorem Fresh.addAll (hs : s.Fresh) (ht : ∀ c ∈ t, isBlank c) : (s.addAll t).Fresh where
  mode := hs.mode
  blank := by
    intro c hc
    rw [Scanner.addAll, StatementBuffer.text_addAll, List.mem_append] at hc
    exact hc.elim (hs.blank c) (ht c)
  line := StatementBuffer.line_addAll_of_blank hs.line ht
  parens := hs.parens
  urlParen := hs.urlParen
  interpolation := hs.interpolation

/-- Between two statements there is none to end. -/
theorem Fresh.found_emit (hs : s.Fresh) (opensBlock : Bool) :
    (s.emit opensBlock).found = s.found := by
  rw [emit, Text.trim_eq_nil hs.blank]
  exact List.append_nil _

/-- From a scanner between two statements, the text is read as the given statements. It leaves
the scanner between two statements and as many lines further, inside the same blocks. -/
def Reads (s : Scanner) (t : Text) (lines : Nat) (statements : List Statement) : Prop :=
  ∃ s', s.run t = .ok s' ∧ s'.Fresh ∧ s'.line = s.line + lines ∧ s'.openBlocks = s.openBlocks ∧
    s'.found = s.found ++ statements

theorem Fresh.reads_nil (hs : s.Fresh) : s.Reads [] 0 [] :=
  ⟨s, rfl, hs, rfl, rfl, (List.append_nil _).symm⟩

/-- What is read in two parts is read as a whole. -/
theorem Reads.append {m n : Nat} {xs ys : List Statement} (h : s.Reads t m xs)
    (next : ∀ s' : Scanner, s'.Fresh → s'.line = s.line + m → s'.openBlocks = s.openBlocks →
      s'.Reads u n ys) : s.Reads (t ++ u) (m + n) (xs ++ ys) := by
  obtain ⟨s₁, run₁, fresh₁, line₁, blocks₁, found₁⟩ := h
  obtain ⟨s₂, run₂, fresh₂, line₂, blocks₂, found₂⟩ := next s₁ fresh₁ line₁ blocks₁
  refine ⟨s₂, (run_append run₁).trans run₂, fresh₂, ?_, blocks₂.trans blocks₁, ?_⟩
  · omega
  · rw [found₂, found₁, List.append_assoc]

theorem Fresh.reads_newline (hs : s.Fresh) : s.Reads ['\n'] 1 [] := by
  have blank : (s.addAll ['\n']).Fresh := hs.addAll (by decide)
  exact ⟨{ s.add '\n' with line := s.line + 1 }, run_cons (step_newline hs.mode),
    blank.withLine _, rfl, rfl, (List.append_nil _).symm⟩

/-- The statement that a text spells out behind the blanks that were read. -/
def spelled (s : Scanner) (t : Text) (opensBlock : Bool) : List Statement :=
  (Statement.ofText (Text.trim (s.buffer.text ++ t)) ((s.buffer.addAll t s.line).line.getD 0)
    opensBlock).toList

theorem emit_addAll (opensBlock : Bool) : (s.addAll t).emit opensBlock =
    { s with buffer := {}, found := s.found ++ s.spelled t opensBlock } := by
  simp [emit, addAll, spelled]

/-- The first character that is no blank is on the current line, and so is the statement. -/
theorem Fresh.spelled_cons (hs : s.Fresh) {opensBlock : Bool} (ht : ∀ c ∈ t, isBlank c)
    (hc : ¬isBlank c) : s.spelled (t ++ c :: u) opensBlock =
      (Statement.ofText (Text.trim (s.buffer.text ++ (t ++ c :: u))) s.line opensBlock).toList := by
  have blank : (s.buffer.addAll t s.line).line = none :=
    StatementBuffer.line_addAll_of_blank hs.line ht
  rw [spelled, StatementBuffer.addAll_append, StatementBuffer.line_addAll_cons blank hc]
  rfl

/-- A written declaration is read behind blanks. -/
theorem Fresh.spelled_declaration (hs : s.Fresh) {p v : Text} (ht : ∀ c ∈ t, isBlank c)
    (ne : p ≠ []) (hp : ∀ c ∈ p, ¬isBlank c ∧ c ≠ ':') (at_ : p.head? ≠ some '@') :
    s.spelled (t ++ (p ++ ':' :: v)) false = [.declaration p (Text.trim v) s.line] := by
  have blank : ∀ c ∈ s.buffer.text ++ t, isBlank c := by
    intro c hc
    exact (List.mem_append.mp hc).elim (hs.blank c) (ht c)
  have read := Statement.ofText_declaration (v := v) (n := s.line) blank ne hp at_
  obtain ⟨c, p, rfl⟩ := List.exists_cons_of_ne_nil ne
  rw [List.cons_append, hs.spelled_cons ht (hp c (by simp)).1, ← List.cons_append,
    ← List.append_assoc, read]
  rfl

/-- A written at-rule is read. -/
theorem Fresh.spelled_atRule (hs : s.Fresh) {name params : Text} {opensBlock : Bool}
    (ne : name ≠ []) (hn : ∀ c ∈ name, Statement.isKeywordChar c) :
    s.spelled ('@' :: name ++ ' ' :: params) opensBlock =
      [.atRule name (Text.trim params) s.line opensBlock] := by
  have read : Statement.ofText (Text.trim (s.buffer.text ++ '@' :: (name ++ ' ' :: params)))
      s.line opensBlock = some (.atRule name (Text.trim params) s.line opensBlock) :=
    Statement.ofText_atRule hs.blank ne hn
  have here : s.spelled ([] ++ '@' :: (name ++ ' ' :: params)) opensBlock = _ :=
    hs.spelled_cons nofun (by decide)
  rw [List.nil_append, read] at here
  exact here

/-- A selector is passed over. -/
theorem Fresh.spelled_selector (hs : s.Fresh) {selector : Text}
    (at_ : selector.head? ≠ some '@') (start : ∀ c ∈ selector.head?, ¬isBlank c) :
    s.spelled (selector ++ [' ']) true = [] := by
  rw [spelled, Statement.ofText_selector hs.blank at_ start]
  rfl

/-- **A balanced text in front of a semicolon** is a statement. -/
theorem Fresh.reads_statement (hs : s.Fresh) (ht : Balanced false t) :
    s.Reads (t ++ [';']) 0 (s.spelled t false) := by
  have ends : (s.addAll t).step ';' = .ok ((s.addAll t).emit false) :=
    step_end hs.mode hs.parens hs.interpolation
  refine ⟨(s.addAll t).emit false, ?_, ?_, rfl, rfl, ?_⟩
  · rw [run_balanced ht hs.mode nofun (by simp [hs.urlParen]) (by decide), run_cons ends]
    rfl
  · exact ⟨hs.mode, nofun, rfl, hs.parens, hs.urlParen, hs.interpolation⟩
  · rw [emit_addAll]

/-- **A block**: its header may be a statement, and what stands inside is read after it. -/
theorem Fresh.reads_block (hs : s.Fresh) (ht : Balanced false t) {n : Nat} {ys : List Statement}
    (inside : ∀ s' : Scanner, s'.Fresh → s'.line = s.line → s'.Reads u n ys) :
    s.Reads (t ++ [' ', '{'] ++ u ++ ['}']) n (s.spelled (t ++ [' ']) true ++ ys) := by
  let s₁ : Scanner := (s.addAll (t ++ [' '])).openBlock
  have opened : s.run (t ++ [' ', '{']) = .ok s₁ := by
    have blank : (s.addAll t).step ' ' = .ok (s.addAll (t ++ [' '])) := by
      rw [step_plain (s := s.addAll t) hs.mode (by decide) (by decide) (by decide), addAll_append]
      rfl
    have brace : (s.addAll (t ++ [' '])).step '{' = .ok s₁ :=
      step_openBlock hs.mode hs.interpolation
    rw [run_balanced ht hs.mode nofun (by simp [hs.urlParen]) (by decide), run_cons blank,
      run_cons brace, run_nil]
  have fresh₁ : s₁.Fresh := ⟨hs.mode, nofun, rfl, rfl, rfl, hs.interpolation⟩
  obtain ⟨s₂, run₂, fresh₂, line₂, blocks₂, found₂⟩ := inside s₁ fresh₁ rfl
  -- the brace closes the block that the header opened, and the blanks in front of it are dropped
  have closes : s₂.step '}' =
      .ok { s₂.emit false with openBlocks := s.openBlocks, parens := 0, urlParen := 0 } := by
    have blocks : s₂.openBlocks = s.line :: s.openBlocks := blocks₂
    rw [step_closeBlock fresh₂.mode fresh₂.interpolation, closeBlock, blocks]
  refine ⟨{ s₂.emit false with openBlocks := s.openBlocks, parens := 0, urlParen := 0 }, ?_, ?_,
    line₂, rfl, ?_⟩
  · rw [run_append ((run_append opened).trans run₂), run_cons closes]
    rfl
  · exact ⟨fresh₂.mode, nofun, rfl, rfl, rfl, fresh₂.interpolation⟩
  · change (s₂.emit false).found = _
    have found₁ : s₁.found = s.found ++ s.spelled (t ++ [' ']) true := by
      simp [s₁, openBlock, emit_addAll]
    rw [fresh₂.found_emit, found₂, found₁, List.append_assoc]

/-- A block whose braces end their lines. -/
theorem Fresh.reads_blockLines (hs : s.Fresh) (ht : Balanced false t) {n : Nat}
    {ys : List Statement}
    (inside : ∀ s' : Scanner, s'.Fresh → s'.line = s.line + 1 → s'.Reads u n ys) :
    s.Reads (t ++ [' ', '{', '\n'] ++ u ++ ['}', '\n']) (n + 2)
      (s.spelled (t ++ [' ']) true ++ ys) := by
  have body : ∀ s' : Scanner, s'.Fresh → s'.line = s.line → s'.Reads ('\n' :: u) (1 + n) ys := by
    intro s' fresh line_eq
    refine fresh.reads_newline.append fun s'' fresh' line_eq' _ => inside s'' fresh' ?_
    omega
  have block := (hs.reads_block ht body).append fun s' fresh _ _ => fresh.reads_newline
  have lines : 1 + n + 1 = n + 2 := by omega
  rw [List.append_nil, lines] at block
  simpa using block

/-- A text that is read as a whole stylesheet gives its statements. -/
theorem Reads.scan_eq {n : Nat} {statements : List Statement}
    (h : ({} : Scanner).Reads t n statements) : scan t = .ok statements := by
  obtain ⟨s, run_eq, fresh, -, blocks, found⟩ := h
  rw [scan, run_eq]
  change s.finish = _
  have settled : s.settle = .ok s := by rw [settle, fresh.mode]
  rw [finish, settled]
  change (if 0 < s.interpolation then _ else _) = _
  rw [fresh.interpolation, if_neg (Nat.lt_irrefl 0), blocks, fresh.found_emit, found]
  rfl

/-- **A text may end** where no comment and no string, no interpolation and no block is open. -/
theorem finish_eq_ok_iff {statements : List Statement} : s.finish = .ok statements ↔
    ∃ u, s.settle = .ok u ∧ u.interpolation = 0 ∧ u.openBlocks = [] ∧
      (u.emit false).found = statements := by
  unfold finish
  cases settled : s.settle with
  | error e => simp [bind, Except.bind]
  | ok u =>
    simp only [bind, Except.bind, Except.ok.injEq, exists_eq_left']
    split_ifs with inside
    · simp only [false_iff, not_and]
      omega
    · cases blocks : u.openBlocks with
      | nil => simp [Nat.eq_zero_of_not_pos inside]
      | cons _ outer => simp

end Scanner

theorem exists_finish {source : Text} {statements : List Statement}
    (h : scan source = .ok statements) :
    ∃ s, Scanner.run {} source = .ok s ∧ s.finish = .ok statements :=
  bind_eq_ok_iff.mp h

/-- Behind the first text, the scanner reads the second one. -/
theorem scan_append {a b : Text} {s : Scanner} (read : Scanner.run {} a = .ok s) :
    scan (a ++ b) = s.run b >>= Scanner.finish := by
  rw [scan, Scanner.run_append read]

end StyleTokens
