import StyleTokens.Proofs.Stylesheet.Alike
import StyleTokens.Proofs.Stylesheet.Extent

/-!
# Comments

A comment leaves nothing behind but the number of its lines. Wherever it stands between two
characters that the scanner reads apart, the text behind it is read as if it were not there: inside
of a statement, of parentheses or of an interpolation, and between the letters of `url`. Braces,
quotes and declarations in it do not matter.

## Main definitions

* `statements?`: the statements of an accepted stylesheet, line numbers aside

## Main results

* `Scanner.run_blockComment`, `Scanner.run_lineComment`: the scanner along a comment
* `scan_comment`: a comment changes no statement
-/

namespace StyleTokens

/-- The statements of a stylesheet without their line numbers, if it is accepted. -/
def statements? (source : Text) : Option (List Statement) :=
  (scan source).toOption.map (List.map Statement.unplaced)

namespace Scanner

variable {s s' : Scanner} {u v body : Text} {c : Char}

/-! ## Behind a character that is held back -/

/-- At the end of a text, a character that is held back belongs to the statement. -/
theorem finish_resume : s.resume.finish = s.finish := by
  unfold resume held
  cases mode : s.mode with
  | slash | hash =>
    simp only [finish, settle, mode]
    rfl
  | code | blockComment | lineComment | quoted => rfl

/-- A text that is read apart is read behind the character that was held back. -/
theorem run_finish_resume (apart : s.ReadsApart v) :
    (s.run v >>= finish) = s.resume.run v >>= finish := by
  cases v with
  | nil => exact finish_resume.symm
  | cons c v => rw [run_resume apart]

/-- What is held back is the character that was read last. -/
theorem eq_of_held (sound : s.Sound) (read : s.step c = .ok s') {d : Char} (held : s'.held = [d]) :
    c = d := by
  cases (step_reading sound read).effect with
  | reads w eq =>
    rw [held] at eq
    exact (List.singleton_inj.mp (List.append_inj_right' eq rfl)).symm
  | passes comment nothing => cases nothing.symm.trans held
  | ends opensBlock ender fresh => cases (held_of_code fresh.mode).symm.trans held

theorem getLast?_of_mode_slash (read : run {} u = .ok s) (hm : s.mode = .slash) :
    u.getLast? = some '/' := by
  rcases u.eq_nil_or_concat' with rfl | ⟨u, c, rfl⟩
  · cases read
    cases hm
  · obtain ⟨s₁, front, last⟩ := run_append_eq_ok_iff.mp read
    obtain ⟨s₂, step, nothing⟩ := run_cons_eq_ok_iff.mp last
    cases nothing
    have held : s.held = ['/'] := by simp only [Scanner.held, hm]
    rw [List.getLast?_concat, eq_of_held (run_sound fresh_initial.sound front) step held]

/-! ## Along a comment -/

/-- The inside of a block comment counts for the line only. -/
theorem run_commentBody {start : Nat} {star : Bool} (hm : s.mode = .blockComment start star)
    (first : star → body.head? ≠ some '/') (inside : ¬"*/".toList <:+: body) :
    s.run (body ++ "*/".toList) =
      .ok { s with mode := .code, line := s.line + body.count '\n' } := by
  induction body generalizing s star with
  | nil =>
    have opens : s.step '*' = .ok { s with mode := .blockComment start true } := by
      simp [step, hm]
    have closes : ({ s with mode := .blockComment start true } : Scanner).step '/' =
        .ok { s with mode := .code } := rfl
    exact (run_cons opens).trans (run_cons closes)
  | cons c body ih =>
    have stays : star → c ≠ '/' := by simpa using first
    -- a slash behind a star would close the comment
    have first' : decide (c = '*') → body.head? ≠ some '/' := by
      intro star slash
      obtain ⟨rest, rfl⟩ := List.head?_eq_some_iff.mp slash
      rw [of_decide_eq_true star] at inside
      exact inside ⟨[], rest, rfl⟩
    have inside' : ¬"*/".toList <:+: body := fun closed =>
      inside (closed.trans (List.suffix_cons c body).isInfix)
    rw [List.cons_append, run_cons (step_blockComment hm stays), ih rfl first' inside']
    simp only [List.count_cons, beq_iff_eq]
    congr 2
    split_ifs <;> omega

/-- **A block comment** leaves nothing behind but its lines. -/
theorem run_blockComment (apart : s.ReadsApart ['/']) (inside : ¬"*/".toList <:+: body) :
    s.run ("/*".toList ++ body ++ "*/".toList) =
      .ok { s.resume with line := s.line + body.count '\n' } := by
  have mode : s.resume.mode = .code := by
    refine mode_resume apart fun line => ?_
    simp [ReadsApart, line] at apart
  have star : ({ s.resume with mode := .slash } : Scanner).step '*' =
      .ok { s.resume with mode := .blockComment s.resume.line false } := rfl
  have opened : ({ s.resume with mode := .blockComment s.resume.line false } : Scanner).run
      (body ++ "*/".toList) = _ := run_commentBody rfl (by simp) inside
  have slash : s.step '/' = .ok { s.resume with mode := .slash } :=
    (step_resume apart).trans (step_slash mode)
  change s.run ('/' :: '*' :: (body ++ "*/".toList)) = _
  rw [run_cons slash, run_cons star, opened, ← mode, line_resume]

/-- **A line comment** is open up to the end of the line. -/
theorem run_lineComment (apart : s.ReadsApart ['/']) (outside : s.urlParen = 0)
    (inside : '\n' ∉ body) :
    s.run ("//".toList ++ body) = .ok { s.resume with mode := .lineComment } := by
  have mode : s.resume.mode = .code := by
    refine mode_resume apart fun line => ?_
    simp [ReadsApart, line] at apart
  have slash : s.step '/' = .ok { s.resume with mode := .slash } :=
    (step_resume apart).trans (step_slash mode)
  have opened : ({ s.resume with mode := .slash } : Scanner).step '/' =
      .ok { s.resume with mode := .lineComment } := by
    simp [step, outside]
  have along : ∀ {u : Scanner} {t : Text}, u.mode = .lineComment → '\n' ∉ t →
      u.run t = .ok u := by
    intro u t mode free
    induction t with
    | nil => rfl
    | cons c t ih =>
      simp only [List.mem_cons, not_or] at free
      have next : u.step c = .ok u := by simp [step, mode, Ne.symm free.1]
      rw [run_cons next, ih free.2]
  change s.run ('/' :: '/' :: body) = _
  rw [run_cons slash, run_cons opened, along rfl inside]

/-- Behind a line comment, the end of the line is read as without it. -/
theorem run_finish_lineComment (hm : s.mode = .code) (ends : ∀ c ∈ v.head?, c = '\n') :
    (({ s with mode := .lineComment } : Scanner).run v >>= finish) = s.run v >>= finish := by
  cases v with
  | nil =>
    have settled : s.settle = .ok s := by simp only [settle, hm]
    simp only [run_nil, bind, Except.bind, finish, settled]
    rfl
  | cons c v =>
    obtain rfl := ends c rfl
    have same : ({ s with mode := .code } : Scanner) = s := by rw [← hm]
    have newline : ({ s with mode := .lineComment } : Scanner).step '\n' = s.step '\n' := by
      rw [step_eq_code hm]
      change ({ s with mode := .code } : Scanner).code '\n' = _
      rw [same]
    rw [run, run, List.foldlM_cons, List.foldlM_cons, newline]

end Scanner

section

variable {u v : Text} {s : Scanner}

/-- **A comment changes no statement**, wherever it is put between two characters that are read
apart: behind a block comment, the text is accepted as without it, with the same statements, line
numbers aside; and a line comment at the end of a line changes nothing at all. -/
theorem scan_comment (read : Scanner.run {} u = .ok s) (apart : s.ReadsApart v)
    (slash : u.getLast? ≠ some '/') (behind : s.mode ≠ .lineComment) :
    (∀ c, ¬"*/".toList <:+: c →
      statements? (u ++ ("/*".toList ++ c ++ "*/".toList) ++ v) = statements? (u ++ v)) ∧
    (∀ c, '\n' ∉ c → v = [] ∨ v.head? = some '\n' → s.urlParen = 0 →
      scan (u ++ ("//".toList ++ c) ++ v) = scan (u ++ v)) := by
  have mode := Scanner.mode_resume apart behind
  have opens : s.ReadsApart ['/'] := by
    unfold Scanner.ReadsApart at apart ⊢
    cases held : s.mode with
    | code => trivial
    | slash => exact absurd (Scanner.getLast?_of_mode_slash read held) slash
    | hash => simp
    | lineComment => exact absurd held behind
    | blockComment | quoted => simp [held] at apart
  have plain : scan (u ++ v) = s.resume.run v >>= Scanner.finish :=
    (scan_append read).trans (Scanner.run_finish_resume apart)
  constructor
  · intro c inside
    have alike : Scanner.Alike s.resume.found s.resume.found
        { s.resume with line := s.line + c.count '\n' } s.resume :=
      (Scanner.Alike.refl s.resume).withMode rfl _ _
    have commented : Scanner.run {} (u ++ ("/*".toList ++ c ++ "*/".toList)) = _ :=
      (Scanner.run_append read).trans (Scanner.run_blockComment opens inside)
    rw [statements?, statements?, scan_append commented, plain]
    exact alike.statements_eq v
  · intro c inside ends outside
    have commented : Scanner.run {} (u ++ ("//".toList ++ c)) = _ :=
      (Scanner.run_append read).trans (Scanner.run_lineComment opens outside inside)
    rw [scan_append commented, plain]
    refine Scanner.run_finish_lineComment mode fun d hd => ?_
    rcases ends with rfl | newline
    · cases hd
    · exact Option.some.inj (hd.symm.trans newline)

/-- Comments behind a hash that is held back, with a brace, a quote and a star in them. -/
theorem scan_comment_hash :
    (∃ s, Scanner.run {} "a\x7bb:#".toList = .ok s ∧ s.ReadsApart "\nc;\x7d".toList ∧
      "a\x7bb:#".toList.getLast? ≠ some '/' ∧ s.mode ≠ .lineComment ∧ s.urlParen = 0) ∧
    ¬"*/".toList <:+: "\x7b\n/*".toList ∧ '\n' ∉ "*/\x7d'".toList ∧
    statements? ("a\x7bb:#".toList ++ ("/*".toList ++ "\x7b\n/*".toList ++ "*/".toList) ++
      "\nc;\x7d".toList) = some [.declaration "b".toList "#\nc".toList 0] ∧
    scan ("a\x7bb:#".toList ++ ("//".toList ++ "*/\x7d'".toList) ++ "\nc;\x7d".toList) =
      .ok [.declaration "b".toList "#\nc".toList 1] := by
  let s : Scanner := { mode := .hash, buffer := ⟨[':', 'b'], some 1⟩, openBlocks := [1] }
  have read : Scanner.run {} "a\x7bb:#".toList = .ok s := by decide +kernel
  have apart : s.ReadsApart "\nc;\x7d".toList := by simp [Scanner.ReadsApart, s]
  have slash : "a\x7bb:#".toList.getLast? ≠ some '/' := by decide
  have behind : s.mode ≠ .lineComment := by simp [s]
  have block : ¬"*/".toList <:+: "\x7b\n/*".toList := by decide
  have line : '\n' ∉ "*/\x7d'".toList := by decide
  have comments := scan_comment read apart slash behind
  have plain : scan ("a\x7bb:#".toList ++ "\nc;\x7d".toList) =
      .ok [.declaration "b".toList "#\nc".toList 1] := by decide +kernel
  refine ⟨⟨s, read, apart, slash, behind, rfl⟩, block, line, ?_, ?_⟩
  · rw [comments.1 _ block, statements?, plain]
    rfl
  · rw [comments.2 _ line (.inr rfl) rfl, plain]

end

end StyleTokens
