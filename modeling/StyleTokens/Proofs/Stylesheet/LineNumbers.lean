import StyleTokens.Proofs.Stylesheet.Extent

/-!
# Line numbers

A statement has the line of its first character that is no blank and stands outside of comments.
The scanner counts every line feed on its way there, in code, in comments and in strings, but for
those behind a backslash in a string: each of them shifts the numbers of all statements behind it
by one.

## Main definitions

* `Scanner.escapedBreaks`: the line feeds of a text that stand behind a backslash in a string
* `Scanner.ReadsNext`: the statement that the scanner reads next
* `StartsAt`: a statement starts at a position of a stylesheet

## Main results

* `Scanner.line_run`: the scanner counts the line feeds that are not escaped
* `Scanner.ReadsNext.line_eq`: a statement has the line on which the scanner stands in front of it
* `line_of_scan`: the line number of every statement
-/

namespace StyleTokens

/-- What a text spells has the line that is given. -/
theorem Statement.line_ofText {t : Text} {n : Nat} {opensBlock : Bool} {x : Statement}
    (h : ofText t n opensBlock = some x) : x.line = n := by
  unfold ofText at h
  split at h
  · cases h
  · unfold atRule? at h
    dsimp only at h
    split_ifs at h
    cases h
    rfl
  · unfold declaration? at h
    dsimp only at h
    split_ifs at h
    cases h
    rfl

namespace Scanner

variable {s s' s₁ : Scanner} {t u d rest : Text} {c : Char} {n : Nat} {x : Statement}

/-! ## Counting lines -/

/-- The line feeds of a text that stand behind a backslash in a string. -/
def escapedBreaks (s : Scanner) : Text → Nat
  | [] => 0
  | c :: t =>
    match s.step c with
    | .error _ => 0
    | .ok s' => (if c = '\n' ∧ s.escapes then 1 else 0) + escapedBreaks s' t

/-- **The scanner counts the line feeds** that do not stand behind a backslash in a string. -/
theorem line_run (sound : s.Sound) (h : s.run t = .ok s') :
    s'.line + s.escapedBreaks t = s.line + t.count '\n' := by
  induction t generalizing s with
  | nil =>
    cases h
    rfl
  | cons c t ih =>
    obtain ⟨s₁, step, rest⟩ := run_cons_eq_ok_iff.mp h
    obtain ⟨sound₁, line, -⟩ := step_reading sound step
    have counted := ih sound₁ rest
    rw [escapedBreaks, step, List.count_cons]
    by_cases newline : c = '\n'
    · cases escaped : s.escapes with
      | false =>
        simp only [newline, escaped, beq_self_eq_true, Bool.false_eq_true, not_false_eq_true,
          and_true, and_false, if_true, if_false] at line ⊢
        omega
      | true =>
        simp only [newline, escaped, beq_self_eq_true, not_true_eq_false, and_true, and_false,
          if_true, if_false] at line ⊢
        omega
    · simp only [newline, false_and, if_false, beq_iff_eq] at line ⊢
      omega

/-! ## Along a statement -/

theorem Inside.not_fresh (h : s.Inside (c :: t)) (step : s.step c = .ok s₁) : ¬s₁.Fresh :=
  h [c] s₁ (by simp) ⟨t, rfl⟩ (run_cons step)

theorem Inside.behind (h : s.Inside (u ++ t)) (read : s.run u = .ok s₁) : s₁.Inside t := by
  rintro v s' ne ⟨w, rfl⟩ read'
  exact h (u ++ v) s' (by simp [ne]) ⟨w, by simp⟩ ((run_append read).trans read')

/-- Nothing is found inside of a statement. -/
theorem Inside.found_eq (sound : s.Sound) (h : s.Inside t) (read : s.run t = .ok s') :
    s'.found = s.found := by
  induction t generalizing s with
  | nil =>
    cases read
    rfl
  | cons c t ih =>
    obtain ⟨s₁, step, rest⟩ := run_cons_eq_ok_iff.mp read
    have moves := step_moves sound step
    have same := moves.cases.resolve_right fun ended => h.not_fresh step ended.1
    exact (ih moves.sound (h.tail step) rest).trans same.1

/-- Inside of a statement, its line is known from its first character on. -/
theorem Inside.line_eq (sound : s.Sound) (h : s.Inside t) (known : s.buffer.line = some n)
    (read : s.run t = .ok s') : s'.buffer.line = some n := by
  induction t generalizing s with
  | nil =>
    cases read
    exact known
  | cons c t ih =>
    obtain ⟨s₁, step, rest⟩ := run_cons_eq_ok_iff.mp read
    obtain ⟨sound₁, -, effect⟩ := step_reading sound step
    refine ih sound₁ (h.tail step) ?_ rest
    cases effect with
    | reads w _ buffer =>
      rw [buffer]
      exact StatementBuffer.line_addAll_of_some known
    | passes _ _ buffer => rw [buffer, known]
    | ends _ _ fresh => exact absurd fresh (h.not_fresh step)

/-- Whether a character and the text behind it open a comment. -/
def OpensComment (c : Char) (t : Text) : Prop :=
  c = '/' ∧ (t.head? = some '*' ∨ t.head? = some '/')

instance (c : Char) (t : Text) : Decidable (OpensComment c t) :=
  inferInstanceAs (Decidable (_ ∧ _))

theorem buffer_resume : s.resume.buffer = s.buffer.addAll s.held s.line := by
  unfold resume held
  cases s.mode <;> rfl

theorem line_buffer_resume (known : s.buffer.line = some n) : s.resume.buffer.line = some n := by
  rw [buffer_resume]
  exact StatementBuffer.line_addAll_of_some known

theorem length_held_le : s.held.length ≤ 1 := by
  unfold held
  split <;> decide

theorem not_inComment_of_held (h : s.held ≠ []) : ¬s.inComment := by
  unfold held at h
  unfold inComment
  cases mode : s.mode with
  | slash | hash => simp
  | code | blockComment | lineComment | quoted => exact absurd (by simp only [mode]) h

/-- A statement whose first character is held back gets its line with the second one. -/
theorem Inside.line_of_held (sound : s.Sound) (inside : s.Inside t) (held : s.held = [c])
    (none : s.buffer.line = none) (code : ¬OpensComment c t) (read : s.run t = .ok s') :
    s'.resume.buffer.line = some s.line := by
  have first : ¬isBlank c := not_isBlank_of_mem_held (s := s) (by simp [held])
  cases t with
  | nil =>
    cases read
    rw [buffer_resume, held]
    exact StatementBuffer.line_addAll_cons none first
  | cons e t =>
    obtain ⟨s₁, step, rest⟩ := run_cons_eq_ok_iff.mp read
    obtain ⟨sound₁, -, effect⟩ := step_reading sound step
    cases effect with
    | ends _ _ fresh => exact absurd fresh (inside.not_fresh step)
    | passes comment =>
      exfalso
      rcases comment with comment | ⟨slash, opens⟩
      · exact not_inComment_of_held (by simp [held]) comment
      · have eq : s.held = ['/'] := by simp only [Scanner.held, slash]
        rw [held, List.singleton_inj] at eq
        exact code ⟨eq, by simpa using opens⟩
    | reads w held₁ buffer =>
      refine line_buffer_resume ((inside.tail step).line_eq sound₁ ?_ rest)
      rw [held] at held₁
      cases w with
      | nil =>
        -- two characters are never held back
        have two : s₁.held = [c, e] := held₁
        have short := length_held_le (s := s₁)
        rw [two] at short
        exact absurd short (by simp)
      | cons d w =>
        obtain ⟨rfl, -⟩ := List.cons.inj held₁
        rw [buffer]
        exact StatementBuffer.line_addAll_cons none first

/-- **A statement has the line** of its first character. -/
theorem Fresh.line_inside (fresh : s.Fresh) (first : ¬isBlank c) (code : ¬OpensComment c t)
    (inside : s.Inside (c :: t)) (read : s.run (c :: t) = .ok s') :
    s'.resume.buffer.line = some s.line := by
  obtain ⟨s₁, step, rest⟩ := run_cons_eq_ok_iff.mp read
  obtain ⟨sound₁, line, effect⟩ := step_reading fresh.sound step
  have newline : c ≠ '\n' := by
    rintro rfl
    exact first (by decide)
  rw [if_neg fun eq => newline eq.1] at line
  cases effect with
  | ends _ _ fresh₁ => exact absurd fresh₁ (inside.not_fresh step)
  | passes comment =>
    rw [inComment, fresh.mode] at comment
    rcases comment with comment | ⟨comment, -⟩ <;> cases comment
  | reads w held buffer =>
    rw [held_of_code fresh.mode, List.nil_append] at held
    -- the character is held back, or part of the statement
    rcases List.append_eq_singleton_iff.mp held with ⟨rfl, held₁⟩ | ⟨rfl, -⟩
    · rw [← line]
      exact (inside.tail step).line_of_held sound₁ held₁ (buffer ▸ fresh.line) code rest
    · refine line_buffer_resume ((inside.tail step).line_eq sound₁ ?_ rest)
      rw [buffer]
      exact StatementBuffer.line_addAll_cons fresh.line first

/-! ## Comments between two statements -/

/-- The scanner is inside of a comment that stands between two statements. -/
structure Commenting (s : Scanner) : Prop where
  comment : s.inComment
  fresh : ({ s with mode := .code } : Scanner).Fresh

/-- A comment between two statements goes on, or the scanner is between them again. -/
theorem Commenting.step (h : s.Commenting) (step : s.step c = .ok s') :
    s'.Fresh ∨ s'.Commenting := by
  have fresh := h.fresh
  have comment := h.comment
  cases step_eq_ok_iff.mp step with
  | code mode => simp [(outside_of_resume mode).2.1] at comment
  | opensBlockComment mode | opensLineComment mode | opensInterpolation mode
  | escaped mode | closesString mode | inString mode => simp [inComment, mode] at comment
  | closesBlockComment => exact .inl fresh
  | inBlockComment => exact .inr ⟨rfl, fresh.withLine _⟩
  | closesLineComment =>
    -- the break is a blank in front of the next statement
    have blank : ∀ d ∈ ['\n'], isBlank d := by decide
    exact .inl ((fresh.addAll blank).withLine _)
  | inLineComment => exact .inr h

theorem Commenting.run (h : s.Commenting) (inside : s.Inside t) (read : s.run t = .ok s') :
    s'.Commenting := by
  induction t generalizing s with
  | nil =>
    cases read
    exact h
  | cons c t ih =>
    obtain ⟨s₁, step, rest⟩ := run_cons_eq_ok_iff.mp read
    exact ih ((h.step step).resolve_left (inside.not_fresh step)) (inside.tail step) rest

/-- A slash and a star, or two slashes, open a comment between two statements. -/
theorem Fresh.commenting (fresh : s.Fresh) (hc : c = '*' ∨ c = '/') :
    ∃ s₁, s.run ['/', c] = .ok s₁ ∧ s₁.Commenting := by
  have mode : ∀ m, ({ s with mode := m } : Scanner).inComment →
      ({ s with mode := m } : Scanner).Commenting := fun m comment =>
    ⟨comment, rfl, fresh.blank, fresh.line, fresh.parens, fresh.urlParen, fresh.interpolation⟩
  rcases hc with rfl | rfl
  · exact ⟨_, run_cons (step_slash fresh.mode), mode (.blockComment s.line false) rfl⟩
  · have second : ({ s with mode := .slash } : Scanner).step '/' =
        .ok { s with mode := .lineComment } := by
      simp [Scanner.step, fresh.urlParen]
    exact ⟨_, (run_cons (step_slash fresh.mode)).trans (run_cons second), mode .lineComment rfl⟩

/-- Where only a comment was read, there is no statement to end. -/
theorem Commenting.found_emit (h : s.Commenting) (opensBlock : Bool) :
    (s.resume.emit opensBlock).found = s.found := by
  have same : s.resume = s := by
    have comment := h.comment
    unfold inComment at comment
    unfold resume
    cases mode : s.mode with
    | blockComment | lineComment => rfl
    | code | slash | hash | quoted => simp [mode] at comment
  rw [same]
  exact h.fresh.found_emit opensBlock

/-! ## The statement that is read next -/

/-- The statement that the scanner reads next from a text. It ends within the text, or with it. -/
def ReadsNext (s : Scanner) (t : Text) (x : Statement) : Prop :=
  (∃ d s', d <+: t ∧ s.IsNext d s' ∧ s'.found = s.found ++ [x]) ∨
    s.Inside t ∧ (s.run t >>= finish) = .ok (s.found ++ [x])

theorem ReadsNext.of_next? (fresh : s.Fresh) (h : s.next? t = some (d, s'))
    (found : s'.found = s.found ++ [x]) : s.ReadsNext t x :=
  let ⟨front, next⟩ := next?_eq_some fresh.sound h
  .inl ⟨d, s', front, next, found⟩

/-- What is held back at the end of a text belongs to the statement. -/
theorem found_emit_of_settle {v : Scanner} (settled : s.settle = .ok v) (opensBlock : Bool) :
    (v.emit opensBlock).found = (s.resume.emit opensBlock).found := by
  unfold settle at settled
  unfold resume held
  cases mode : s.mode with
  | code | lineComment | slash | hash =>
    simp only [mode, Except.ok.injEq] at settled
    subst settled
    rfl
  | blockComment | quoted => simp [mode] at settled

/-- What ends a statement finds it in what was read. -/
theorem ReadsNext.exists_emit (fresh : s.Fresh) (h : s.ReadsNext t x) :
    ∃ body rest s', t = body ++ rest ∧ s.run body = .ok s' ∧ s.Inside body ∧
      (∀ e ∈ rest.head?, e ≠ '*' ∧ e ≠ '/') ∧
      ∃ opensBlock, (s'.resume.emit opensBlock).found = s.found ++ [x] := by
  rcases h with ⟨d, s₁, ⟨w, rfl⟩, next, found⟩ | ⟨inside, found⟩
  · -- its last character ends it
    rcases d.eq_nil_or_concat' with rfl | ⟨body, e, rfl⟩
    · cases next.run_eq
      simp at found
    obtain ⟨s', read, last⟩ := run_append_eq_ok_iff.mp next.run_eq
    obtain ⟨_, step, ⟨⟩⟩ := run_cons_eq_ok_iff.mp last
    have inside := next.inside body [e] rfl (by simp)
    have same := inside.found_eq fresh.sound read
    have stays : s₁.found ≠ s'.found := by
      rw [found, same]
      simp
    cases (step_reading (run_sound fresh.sound read) step).effect with
    | reads _ _ _ found' => exact absurd found' stays
    | passes _ _ _ found' => exact absurd found' stays
    | ends opensBlock ender _ found' =>
      refine ⟨body, e :: w, s', by simp, read, inside, ?_, opensBlock, found'.symm.trans found⟩
      simp only [List.head?_cons, Option.mem_def, Option.some.injEq, forall_eq']
      rcases ender with rfl | rfl | rfl <;> decide
  · obtain ⟨s', read, ended⟩ := bind_eq_ok_iff.mp found
    obtain ⟨v, settled, -, -, emitted⟩ := finish_eq_ok_iff.mp ended
    exact ⟨t, [], s', by simp, read, inside, by simp, false,
      (found_emit_of_settle settled false).symm.trans emitted⟩

/-- **What is read starts** with a character that is no blank and opens no comment. -/
theorem ReadsNext.exists_first (fresh : s.Fresh) (h : s.ReadsNext t x) :
    ∃ c body rest s', t = c :: (body ++ rest) ∧ ¬isBlank c ∧ ¬OpensComment c (body ++ rest) ∧
      s.run (c :: body) = .ok s' ∧ s.Inside (c :: body) ∧
      ∃ opensBlock, (s'.resume.emit opensBlock).found = s.found ++ [x] := by
  obtain ⟨body, rest, s', rfl, read, inside, plain, opensBlock, found⟩ := h.exists_emit fresh
  have nonempty : s.found ≠ s.found ++ [x] := by simp
  cases body with
  | nil =>
    cases read
    rw [resume_of_code fresh.mode, fresh.found_emit] at found
    exact absurd found nonempty
  | cons c body =>
    refine ⟨c, body, rest, s', rfl, fun blank => ?_, ?_, read, inside, opensBlock, found⟩
    · obtain ⟨s₁, first, idles⟩ := fresh.run_blanks (t := [c]) (by simpa using blank)
      exact inside [c] s₁ (by simp) ⟨body, rfl⟩ first idles.right
    · rintro ⟨rfl, second⟩
      cases body with
      | nil =>
        rcases second with second | second
        · exact (plain '*' second).1 rfl
        · exact (plain '/' second).2 rfl
      | cons e body =>
        -- all of what was read would be a comment
        obtain ⟨s₁, opened, commenting⟩ := fresh.commenting (c := e) (by simpa using second)
        have split : (['/', e] : Text) ++ body = '/' :: e :: body := rfl
        have behind : s₁.Inside body := Inside.behind (split ▸ inside) opened
        have read' : s₁.run body = .ok s' := by
          rw [← run_append opened, split, read]
        have commenting' := commenting.run behind read'
        rw [commenting'.found_emit, inside.found_eq fresh.sound read] at found
        exact absurd found nonempty

theorem line_of_emit {opensBlock : Bool} (h : (s.emit opensBlock).found = s.found ++ [x])
    (known : s.buffer.line = some n) : x.line = n := by
  have spelled := List.append_cancel_left h
  rw [known] at spelled
  exact Statement.line_ofText (Option.toList_eq_singleton_iff.mp spelled)

/-- **A statement has the line** on which the scanner stands in front of it. -/
theorem ReadsNext.line_eq (fresh : s.Fresh) (h : s.ReadsNext t x) : x.line = s.line := by
  obtain ⟨c, body, rest, s', rfl, first, code, read, inside, opensBlock, found⟩ :=
    h.exists_first fresh
  have code' : ¬OpensComment c body := by
    rintro ⟨slash, second⟩
    refine code ⟨slash, ?_⟩
    cases body with
    | nil => simp at second
    | cons e body => exact second
  have emitted : (s'.resume.emit opensBlock).found = s'.resume.found ++ [x] := by
    rw [found, found_resume, inside.found_eq fresh.sound read]
  exact line_of_emit emitted (fresh.line_inside first code' inside read)

end Scanner

/-! ## Positions of statements -/

variable {source : Text} {xs : List Statement} {x : Statement} {k m n : Nat}

/-- The statement that comes behind `k` others starts behind the first `n` characters of the
stylesheet: there the scanner is between two statements, and the next character is no blank and
opens no comment. -/
def StartsAt (source : Text) (k n : Nat) (x : Statement) : Prop :=
  ∃ s c t, Scanner.run {} (source.take n) = .ok s ∧ s.Fresh ∧ s.found.length = k ∧
    source.drop n = c :: t ∧ ¬isBlank c ∧ ¬Scanner.OpensComment c t ∧
    s.ReadsNext (source.drop n) x

theorem startsAt_append {a t : Text} {s : Scanner} (read : Scanner.run {} a = .ok s)
    (fresh : s.Fresh) (next : s.ReadsNext t x) : StartsAt (a ++ t) s.found.length a.length x := by
  obtain ⟨c, body, rest, -, rfl, first, code, -⟩ := next.exists_first fresh
  refine ⟨s, c, body ++ rest, ?_, fresh, rfl, List.drop_left, first, code, ?_⟩
  · rw [List.take_left, read]
  · rwa [List.drop_left]

/-- What is found last is new, or was found before. -/
theorem getElem?_append_toList {found : List Statement} {new : Option Statement}
    (h : (found ++ new.toList)[k]? = some x) :
    found[k]? = some x ∨ new = some x ∧ k = found.length := by
  rcases Nat.lt_or_ge k found.length with before | behind
  · exact .inl (List.getElem?_append_left before ▸ h)
  · right
    rw [List.getElem?_append_right behind] at h
    cases new with
    | none => cases h
    | some y =>
      obtain ⟨index, -⟩ := List.getElem?_eq_some_iff.mp h
      have zero : k - found.length = 0 := by simpa using index
      rw [zero] at h
      exact ⟨h, by omega⟩

/-- A statement that is found in a text starts at a position of it. -/
theorem exists_startsAt_of_run {t : Text} {s' : Scanner} (read : Scanner.run {} t = .ok s')
    (hx : s'.found[k]? = some x) (rest : Text) : ∃ n, StartsAt (t ++ rest) k n x := by
  induction t using List.reverseRecOn generalizing s' rest with
  | nil =>
    cases read
    cases hx
  | append_singleton t c ih =>
    obtain ⟨s, front, last⟩ := Scanner.run_append_eq_ok_iff.mp read
    obtain ⟨_, step, ⟨⟩⟩ := Scanner.run_cons_eq_ok_iff.mp last
    rw [List.append_assoc]
    have sound := Scanner.run_sound Scanner.fresh_initial.sound front
    rcases (Scanner.step_moves sound step).cases with same | ⟨fresh', ⟨new, found⟩, -⟩
    · exact ih front (same.1 ▸ hx) _
    rw [found] at hx
    rcases getElem?_append_toList hx with before | ⟨rfl, rfl⟩
    · exact ih front before _
    -- the character ends the statement, and it started at the last place between two statements
    obtain ⟨a, body, s₁, rfl, start, fresh, inside, stays, same⟩ :=
      Scanner.exists_inside Scanner.fresh_initial front
    have next := Scanner.next?_append stays inside step fresh' rest
    rw [← List.singleton_append (l := rest), ← List.append_assoc] at next
    have starts := startsAt_append start fresh (.of_next? fresh next (same ▸ found))
    rw [same]
    exact ⟨a.length, by simpa using starts⟩

/-- **Every statement starts at a position** of the stylesheet. -/
theorem exists_startsAt (h : scan source = .ok xs) (hx : xs[k]? = some x) :
    ∃ n, StartsAt source k n x := by
  obtain ⟨s, read, finished⟩ := exists_finish h
  obtain ⟨u, settled, -, -, found⟩ := Scanner.finish_eq_ok_iff.mp finished
  obtain ⟨new, eq⟩ : ∃ new : Option Statement, xs = s.found ++ new.toList :=
    ⟨_, found.symm.trans ((Scanner.found_emit_of_settle settled false).trans
      (congrArg (· ++ _) Scanner.found_resume))⟩
  rw [eq] at hx
  rcases getElem?_append_toList hx with before | ⟨last, rfl⟩
  · obtain ⟨n, starts⟩ := exists_startsAt_of_run read before []
    exact ⟨n, by simpa using starts⟩
  · -- the statement is open at the end
    obtain ⟨a, body, s₁, rfl, start, fresh, inside, stays, same⟩ :=
      Scanner.exists_inside Scanner.fresh_initial read
    have ended : (s₁.run body >>= Scanner.finish) = .ok (s₁.found ++ [x]) := by
      rw [inside]
      refine finished.trans ?_
      rw [eq, last, same]
      rfl
    rw [same]
    exact ⟨a.length, startsAt_append start fresh (.inr ⟨stays, ended⟩)⟩

/-- It starts at no other position. -/
theorem StartsAt.le (h : StartsAt source k n x) {y : Statement} (h' : StartsAt source k m y) :
    m ≤ n := by
  obtain ⟨s, _, _, read, -, count, -, -, -, next⟩ := h
  obtain ⟨s', c, t, read', fresh', count', tail, -⟩ := h'
  by_contra less
  -- the text between the two positions
  obtain ⟨u, take_eq, front⟩ : ∃ u, source.take m = source.take n ++ u ∧ u <+: source.drop n := by
    refine ⟨(source.drop n).take (m - n), ?_, List.take_prefix _ _⟩
    rw [← List.take_add]
    congr 1
    omega
  have ne : u ≠ [] := by
    rintro rfl
    have shorter := congrArg List.length take_eq
    have behind := congrArg List.length tail
    simp only [List.append_nil, List.length_take, List.length_drop, List.length_cons]
      at shorter behind
    omega
  have between : s.run u = .ok s' := by
    rw [take_eq, Scanner.run_append read] at read'
    exact read'
  rcases next with ⟨d, s₁, front', isNext, found⟩ | ⟨inside, -⟩
  · by_cases ended : d <+: u
    · -- the statement was found before the second position
      obtain ⟨w, rfl⟩ := ended
      obtain ⟨_, first, rest⟩ := Scanner.run_append_eq_ok_iff.mp between
      obtain rfl := Except.ok.inj (isNext.run_eq.symm.trans first)
      have length := (Scanner.run_found isNext.fresh.sound rest).length_le
      rw [found, List.length_append, List.length_singleton] at length
      omega
    · obtain ⟨w, rfl⟩ := (List.prefix_or_prefix_of_prefix front' front).resolve_left ended
      have more : w ≠ [] := by
        rintro rfl
        exact ended (by simp)
      exact isNext.inside u w rfl more u s' ne List.prefix_rfl between fresh'
  · exact inside u s' ne front between fresh'

/-- **The line number of a statement** is one more than the number of line feeds in front of its
first character, if those that stand behind a backslash in a string are not counted. -/
theorem StartsAt.line_eq (h : StartsAt source k n x) :
    x.line + Scanner.escapedBreaks {} (source.take n) = 1 + (source.take n).count '\n' := by
  obtain ⟨s, -, -, read, fresh, -, -, -, -, next⟩ := h
  rw [next.line_eq fresh]
  exact Scanner.line_run Scanner.fresh_initial.sound read

/-- **Line numbers.** Every statement of an accepted stylesheet starts at one position. Its line
number is one more than the number of line feeds in front of that position, but for those that
stand behind a backslash in a string. -/
theorem line_of_scan (h : scan source = .ok xs) (k : Nat) (hk : k < xs.length) :
    ∃ n, (∀ m, StartsAt source k m xs[k] ↔ m = n) ∧
      xs[k].line + Scanner.escapedBreaks {} (source.take n) =
        1 + (source.take n).count '\n' := by
  obtain ⟨n, starts⟩ := exists_startsAt h (List.getElem?_eq_getElem hk)
  refine ⟨n, fun m => ⟨fun h' => ?_, fun eq => eq ▸ starts⟩, starts.line_eq⟩
  exact Nat.le_antisymm (starts.le h') (h'.le starts)

/-- A stylesheet with two declarations on two lines. A backslash stands in front of the line feed
between them, inside of a string. -/
def escapedSheet : Text :=
  "a \x7b b: \x22x\\\ny\x22; c: d; \x7d".toList

/-- The statements that the scanner finds there. -/
def escapedStatements : List Statement :=
  [.declaration ['b'] "\x22x\\\ny\x22".toList 1, .declaration ['c'] ['d'] 1]

/-- The second declaration stands behind a line feed that was not counted. -/
theorem line_of_scan_escapedSheet :
    scan escapedSheet = .ok escapedStatements ∧ 1 < escapedStatements.length ∧
    ∃ n, (∀ m, StartsAt escapedSheet 1 m escapedStatements[1] ↔ m = n) ∧
      escapedStatements[1].line + Scanner.escapedBreaks {} (escapedSheet.take n) =
        1 + (escapedSheet.take n).count '\n' := by
  have read : scan escapedSheet = .ok escapedStatements := by decide +kernel
  exact ⟨read, by decide, line_of_scan read 1 (by decide)⟩

/-- It has the line number 1, but starts on the second line. -/
theorem line_of_scan_shifted :
    scan escapedSheet = .ok escapedStatements ∧
    StartsAt escapedSheet 1 15 (.declaration ['c'] ['d'] 1) ∧
    1 + (escapedSheet.take 15).count '\n' = 2 := by
  let s : Scanner :=
    { buffer := ⟨[' '], none⟩, openBlocks := [1], found := escapedStatements.take 1 }
  have fresh : s.Fresh := by decide
  have read : Scanner.run {} (escapedSheet.take 15) = .ok s := by decide +kernel
  have next : s.next? (escapedSheet.drop 15) = some ("c: d;".toList,
      { openBlocks := [1], found := escapedStatements }) := by decide +kernel
  have tail : escapedSheet.drop 15 = 'c' :: ": d; \x7d".toList := by decide +kernel
  exact ⟨by decide +kernel, ⟨s, 'c', _, read, fresh, rfl, tail, by decide, by decide,
    .of_next? fresh next rfl⟩, by decide +kernel⟩

end StyleTokens
