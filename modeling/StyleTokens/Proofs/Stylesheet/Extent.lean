import StyleTokens.Proofs.Stylesheet.Run

/-!
# Where a statement stands

The scanner is between two statements again as soon as it has read a statement to its end. So the
places where it is between two statements cut a stylesheet into statements, and a declaration
stands where such a part gives one.

## Main definitions

* `Scanner.Reading`: what a character does
* `Scanner.next?`: the text up to the next place between two statements
* `Statement.declares`: the declarations of a property
* `declarationAt?`: the declaration of a property at a position of a stylesheet

## Main results

* `Scanner.step_reading`: a character is part of a statement or of a comment, or ends a statement
  and leaves the scanner between two statements
* `exists_declarationAt?`: a declaration that is found stands at a position
-/

namespace StyleTokens

theorem isBlank_of_isIndent {c : Char} (h : isIndent c) : isBlank c := by
  simp only [isIndent, Bool.or_eq_true, decide_eq_true_eq] at h
  rcases h with rfl | rfl <;> decide

namespace Scanner

variable {s s' s₁ : Scanner} {t u d rest : Text} {c : Char}

/-- Whether the scanner is inside of a comment or of a string. -/
def inText (s : Scanner) : Bool :=
  match s.mode with
  | .blockComment .. | .lineComment | .quoted .. => true
  | _ => false

/-- Whether the scanner is inside of a comment. -/
def inComment (s : Scanner) : Bool :=
  match s.mode with
  | .blockComment .. | .lineComment => true
  | _ => false

/-- Whether the scanner is behind a backslash in a string. -/
def escapes (s : Scanner) : Bool :=
  match s.mode with
  | .quoted _ _ escaped => escaped
  | _ => false

theorem held_of_code (hm : s.mode = .code) : s.held = [] := by
  simp only [held, hm]

theorem resume_of_code (hm : s.mode = .code) : s.resume = s := by
  simp only [resume, hm]

theorem held_of_quoted {quote : Char} {start : Nat} {escaped : Bool}
    (hm : s.mode = .quoted quote start escaped) : s.held = [] := by
  simp only [held, hm]

/-- Behind what was held back, the scanner is in the text of a statement, and was before. -/
theorem outside_of_resume (h : s.resume.mode = .code) :
    s.inText = false ∧ s.inComment = false ∧ s.escapes = false := by
  unfold resume at h
  unfold inText inComment escapes
  cases mode : s.mode with
  | code | slash | hash => exact ⟨rfl, rfl, rfl⟩
  | blockComment | lineComment | quoted => simp [mode] at h

theorem resume_of_held (h : s.held = []) : s.resume = s := by
  unfold held at h
  unfold resume
  cases mode : s.mode with
  | slash | hash => simp [mode] at h
  | code | blockComment | lineComment | quoted => rfl

theorem not_isBlank_of_mem_held {d : Char} (hd : d ∈ s.held) : ¬isBlank d := by
  unfold held at hd
  cases mode : s.mode with
  | slash =>
    obtain rfl : d = '/' := by simpa [mode] using hd
    decide
  | hash =>
    obtain rfl : d = '#' := by simpa [mode] using hd
    decide
  | code | blockComment | lineComment | quoted => simp [mode] at hd

theorem escapes_of_code (hm : s.mode = .code) : s.escapes = false := by
  simp only [escapes, hm]

/-! ## What one character does -/

/-- What holds of every scanner that has read a text: an address is inside of its parentheses,
and a string inside of its quotes. -/
structure Sound (s : Scanner) : Prop where
  url : s.urlParen ≤ s.parens
  quote : ∀ q start escaped, s.mode = .quoted q start escaped → q = '"' ∨ q = '\x27'

theorem Fresh.sound (h : s.Fresh) : s.Sound where
  url := by rw [h.urlParen]; exact Nat.zero_le _
  quote := by rw [h.mode]; nofun

theorem sound_of_code (hm : s.mode = .code) (url : s.urlParen ≤ s.parens) : s.Sound where
  url := url
  quote := by rw [hm]; nofun

/-- What a character does to the statement being read and to what was found. -/
inductive Effect (s : Scanner) (c : Char) (s' : Scanner) : Prop
  /-- It becomes part of the statement, behind what was held back, or is held back itself. -/
  | reads (w : Text) (held : w ++ s'.held = s.held ++ [c])
    (buffer : s'.buffer = s.buffer.addAll w s.line) (found : s'.found = s.found)
    (openBlocks : s'.openBlocks = s.openBlocks)
  /-- It belongs to a comment. -/
  | passes (comment : s.inComment ∨ s.mode = .slash ∧ (c = '*' ∨ c = '/'))
    (held : s'.held = []) (buffer : s'.buffer = s.buffer) (found : s'.found = s.found)
    (openBlocks : s'.openBlocks = s.openBlocks)
  /-- It ends the statement. A block opens and closes only there, and not by a semicolon. -/
  | ends (opensBlock : Bool) (ender : c = ';' ∨ c = '{' ∨ c = '}') (fresh : s'.Fresh)
    (found : s'.found = (s.resume.emit opensBlock).found)
    (openBlocks : c = ';' → s'.openBlocks = s.openBlocks)

/-- What a character does. -/
structure Reading (s : Scanner) (c : Char) (s' : Scanner) : Prop where
  sound : s'.Sound
  /-- A line feed starts a line, but not behind a backslash in a string. -/
  line : s'.line = if c = '\n' ∧ ¬s.escapes then s.line + 1 else s.line
  effect : s.Effect c s'

theorem count_url (h : s.urlParen ≤ s.parens) : (s.count c).urlParen ≤ (s.count c).parens := by
  unfold count
  split_ifs <;> simp only [Bool.and_eq_true, decide_eq_true_eq] at * <;> omega

theorem count_frame : (s.count c).mode = s.mode ∧ (s.count c).found = s.found ∧
    (s.count c).openBlocks = s.openBlocks ∧ (s.count c).buffer = s.buffer ∧
    (s.count c).line = s.line := by
  unfold count
  split_ifs <;> exact ⟨rfl, rfl, rfl, rfl, rfl⟩

theorem put_reading (hm : s.mode = .code) (url : s.urlParen ≤ s.parens) (newline : c ≠ '\n')
    (h : s.put c = .ok s') : s.Reading c s' := by
  obtain ⟨mode, found, blocks, buffer, line⟩ := count_frame (s := s) (c := c)
  have url' := count_url (c := c) url
  have hm' := mode.trans hm
  have line' : s.line = if c = '\n' ∧ ¬s.escapes then s.line + 1 else s.line :=
    (if_neg fun eq => newline eq.1).symm
  -- a character that is added is not held back
  have adds : ∀ {u : Scanner}, u.mode = .code →
      u.buffer = (s.count c).buffer.add c (s.count c).line →
      u.found = (s.count c).found → u.openBlocks = (s.count c).openBlocks → s.Effect c u := by
    intro u mode_u buffer_u found_u blocks_u
    refine .reads [c] ?_ ?_ (found_u.trans found) (blocks_u.trans blocks)
    · rw [held_of_code mode_u, held_of_code hm, List.append_nil, List.nil_append]
    · rw [buffer_u, buffer, line]
      rfl
  have emits : ∀ opensBlock, ((s.count c).emit opensBlock).found =
      (s.resume.emit opensBlock).found := by
    intro opensBlock
    rw [resume_of_code hm, emit, emit, found, buffer]
  cases put_eq_ok_iff.mp h with
  | interpolates => exact ⟨sound_of_code hm' url', line.trans line', adds hm' rfl rfl rfl⟩
  | ends outside semicolon parens =>
    have fresh : ((s.count c).emit false).Fresh :=
      ⟨hm', fresh_initial.blank, rfl, parens, Nat.eq_zero_of_le_zero (parens ▸ url'),
        Nat.eq_zero_of_not_pos outside⟩
    exact ⟨fresh.sound, line.trans line', .ends false (.inl semicolon) fresh (emits false)
      fun _ => blocks⟩
  | opens outside brace =>
    have fresh : (s.count c).openBlock.Fresh :=
      ⟨hm', fresh_initial.blank, rfl, rfl, rfl, Nat.eq_zero_of_not_pos outside⟩
    exact ⟨fresh.sound, line.trans line', .ends true (.inr (.inl brace)) fresh (emits true)
      fun eq => absurd (eq.symm.trans brace) (by decide)⟩
  | @closes _ outer outside brace =>
    -- the statement before the brace ends as well
    have fresh : ({ (s.count c).emit false with
        openBlocks := outer, parens := 0, urlParen := 0 } : Scanner).Fresh :=
      ⟨hm', fresh_initial.blank, rfl, rfl, rfl, Nat.eq_zero_of_not_pos outside⟩
    exact ⟨fresh.sound, line.trans line', .ends false (.inr (.inr brace)) fresh (emits false)
      fun eq => absurd (eq.symm.trans brace) (by decide)⟩
  | adds => exact ⟨sound_of_code hm' url', line.trans line', adds hm' rfl rfl rfl⟩

theorem code_reading (hm : s.mode = .code) (url : s.urlParen ≤ s.parens) (h : s.code c = .ok s') :
    s.Reading c s' := by
  have nothing := held_of_code hm
  have unescaped := escapes_of_code hm
  unfold code at h
  split_ifs at h with slash hash quote newline
  · cases h
    subst slash
    exact ⟨⟨url, nofun⟩, rfl, .reads [] (by rw [nothing]; rfl) rfl rfl rfl⟩
  · cases h
    subst hash
    exact ⟨⟨url, nofun⟩, rfl, .reads [] (by rw [nothing]; rfl) rfl rfl rfl⟩
  · cases h
    have noBreak : c ≠ '\n' := by
      rintro rfl
      exact absurd quote (by decide)
    refine ⟨⟨url, ?_⟩, (if_neg fun eq => noBreak eq.1).symm,
      .reads [c] (by rw [nothing]; rfl) rfl rfl rfl⟩
    rintro q start escaped ⟨⟩
    simpa using quote
  · cases h
    have hm' : ({ s.add c with line := s.line + 1 } : Scanner).mode = .code := hm
    refine ⟨sound_of_code hm' url, ?_, .reads [c] ?_ rfl rfl rfl⟩
    · rw [if_pos ⟨newline, by simp [unescaped]⟩]
    · rw [nothing, held_of_code hm']
      rfl
  · exact put_reading hm url newline h

theorem found_resume : s.resume.found = s.found := by
  unfold resume
  split <;> rfl

/-- A character that was held back is read as any other, if the next one opens nothing. -/
theorem Reading.of_resume (mode : s.resume.mode = .code) (h : s.resume.Reading c s') :
    s.Reading c s' := by
  have resumed := resume_eq mode
  have unescaped := (outside_of_resume mode).2.2
  have openBlocks : s.resume.openBlocks = s.openBlocks := by
    rw [resumed]
    rfl
  obtain ⟨sound, line, effect⟩ := h
  rw [escapes_of_code mode, line_resume] at line
  refine ⟨sound, by rw [line, unescaped], ?_⟩
  -- nothing is held back any more
  cases effect with
  | reads w held buffer found blocks =>
    refine .reads (s.held ++ w) ?_ ?_ (found.trans found_resume) (blocks.trans openBlocks)
    · rw [List.append_assoc, held, held_of_code mode, List.nil_append]
    · rw [buffer, line_resume, resumed, StatementBuffer.addAll_append]
      rfl
  | passes comment =>
    rw [inComment, mode] at comment
    rcases comment with comment | ⟨comment, -⟩ <;> cases comment
  | ends opensBlock ender fresh found blocks =>
    rw [resume_of_code mode] at found
    exact .ends opensBlock ender fresh found fun eq => (blocks eq).trans openBlocks

/-- **A character is part of a statement or of a comment, or ends a statement.** -/
theorem step_reading (sound : s.Sound) (h : s.step c = .ok s') : s.Reading c s' := by
  have url := sound.url
  -- Only in the text of a statement anything is found.
  cases step_eq_ok_iff.mp h with
  | code mode apart read =>
    have url' : s.resume.urlParen ≤ s.resume.parens := by
      rw [resume_eq mode]
      exact url
    exact .of_resume mode (code_reading mode url' read)
  | opensBlockComment mode star =>
    subst star
    exact ⟨⟨url, by simp⟩, rfl, .passes (.inr ⟨mode, .inl rfl⟩) rfl rfl rfl rfl⟩
  | opensLineComment mode slash =>
    subst slash
    exact ⟨⟨url, by simp⟩, rfl, .passes (.inr ⟨mode, .inr rfl⟩) rfl rfl rfl rfl⟩
  | opensInterpolation mode brace =>
    subst brace
    have held : s.held = ['#'] := by simp only [Scanner.held, mode]
    exact ⟨⟨url, by simp⟩, rfl, .reads ['#', '{'] (by rw [held]; rfl) rfl rfl rfl⟩
  | closesBlockComment mode slash =>
    subst slash
    have comment : s.inComment := by simp only [inComment, mode]
    exact ⟨⟨url, by simp⟩, rfl, .passes (.inl comment) rfl rfl rfl rfl⟩
  | inBlockComment mode stays =>
    have comment : s.inComment := by simp only [inComment, mode]
    exact ⟨⟨url, by simp⟩, by simp [escapes, mode], .passes (.inl comment) rfl rfl rfl rfl⟩
  | closesLineComment mode newline =>
    subst newline
    have held : s.held = [] := by simp only [Scanner.held, mode]
    exact ⟨⟨url, by simp⟩, by simp [escapes, mode],
      .reads ['\n'] (by rw [held]; rfl) rfl rfl rfl⟩
  | inLineComment mode newline =>
    have comment : s.inComment := by simp only [inComment, mode]
    have held : s.held = [] := by simp only [Scanner.held, mode]
    exact ⟨sound, by simp [newline], .passes (.inl comment) held rfl rfl rfl⟩
  | escaped mode =>
    have held := held_of_quoted mode
    refine ⟨⟨url, ?_⟩, by simp [escapes, mode]; rfl, .reads [c] (by rw [held]; rfl) rfl rfl rfl⟩
    rintro q start escaped ⟨⟩
    exact sound.quote _ _ _ mode
  | closesString mode closes =>
    have held := held_of_quoted mode
    -- a quote is no line feed
    have newline : c ≠ '\n' := by
      rintro rfl
      rcases sound.quote _ _ _ mode with rfl | rfl <;> cases closes
    exact ⟨⟨url, by simp⟩, by simp [newline]; rfl, .reads [c] (by rw [held]; rfl) rfl rfl rfl⟩
  | inString mode stays =>
    have held := held_of_quoted mode
    refine ⟨⟨url, ?_⟩, by simp [escapes, mode], .reads [c] (by rw [held]; rfl) rfl rfl rfl⟩
    rintro q start escaped ⟨⟩
    exact sound.quote _ _ _ mode

/-- What a character does: it is part of a statement, or ends one. A block opens and closes only
where a statement ends, and not by a semicolon. -/
structure Moves (s : Scanner) (c : Char) (s' : Scanner) : Prop where
  sound : s'.Sound
  cases : s'.found = s.found ∧ s'.openBlocks = s.openBlocks ∨
    s'.Fresh ∧ (∃ x : Option Statement, s'.found = s.found ++ x.toList) ∧
      (c = ';' → s'.openBlocks = s.openBlocks)

theorem step_moves (sound : s.Sound) (h : s.step c = .ok s') : s.Moves c s' := by
  obtain ⟨sound, -, effect⟩ := step_reading sound h
  refine ⟨sound, ?_⟩
  cases effect with
  | reads w held buffer found blocks => exact .inl ⟨found, blocks⟩
  | passes comment held buffer found blocks => exact .inl ⟨found, blocks⟩
  | ends opensBlock ender fresh found blocks =>
    exact .inr ⟨fresh, ⟨_, found.trans (congrArg (· ++ _) found_resume)⟩, blocks⟩

theorem run_sound (sound : s.Sound) (h : s.run t = .ok s') : s'.Sound := by
  induction t generalizing s with
  | nil =>
    cases h
    exact sound
  | cons c t ih =>
    obtain ⟨s₁, step, rest⟩ := run_cons_eq_ok_iff.mp h
    exact ih (step_moves sound step).sound rest

/-- What is found stays found. -/
theorem run_found (sound : s.Sound) (h : s.run t = .ok s') : s.found <+: s'.found := by
  induction t generalizing s with
  | nil =>
    cases h
    exact List.prefix_rfl
  | cons c t ih =>
    obtain ⟨s₁, step, rest⟩ := run_cons_eq_ok_iff.mp h
    have moves := step_moves sound step
    refine List.IsPrefix.trans ?_ (ih moves.sound rest)
    rcases moves.cases with same | ⟨-, ⟨x, found⟩, -⟩
    · exact same.1 ▸ List.prefix_rfl
    · exact ⟨x.toList, found.symm⟩

theorem finish_found {statements : List Statement} (h : s.finish = .ok statements) :
    s.found <+: statements := by
  obtain ⟨u, settled, -, -, rfl⟩ := finish_eq_ok_iff.mp h
  have same : u.found = s.found := by
    unfold settle at settled
    split at settled <;> cases settled <;> rfl
  exact same ▸ List.prefix_append _ _

/-! ## Blanks between two statements -/

/-- Two scanners that differ in nothing but the blanks they have read. -/
structure Idles (s s' : Scanner) : Prop where
  left : s.Fresh
  right : s'.Fresh
  found : s'.found = s.found
  openBlocks : s'.openBlocks = s.openBlocks

theorem Idles.trans {s₂ : Scanner} (h : s.Idles s₁) (h' : s₁.Idles s₂) : s.Idles s₂ :=
  ⟨h.left, h'.right, h'.found.trans h.found, h'.openBlocks.trans h.openBlocks⟩

theorem newline_or_plain_of_isBlank (h : isBlank c) :
    c = '\n' ∨ isPlain c ∧ c ≠ '/' ∧ c ≠ '#' := by
  by_cases newline : c = '\n'
  · exact .inl newline
  right
  have ne : ∀ d, ¬isBlank d → c ≠ d := fun d hd eq => hd (eq ▸ h)
  have plain : c ∉ ['"', '\x27', '(', ')', '{', '}', ';', '\n'] := by
    simp only [List.mem_cons, List.not_mem_nil, or_false, not_or]
    exact ⟨ne _ (by decide), ne _ (by decide), ne _ (by decide), ne _ (by decide),
      ne _ (by decide), ne _ (by decide), ne _ (by decide), newline⟩
  exact ⟨by simpa [isPlain] using plain, ne _ (by decide), ne _ (by decide)⟩

/-- Between two statements, blanks change nothing. -/
theorem Fresh.run_blanks (hs : s.Fresh) (ht : ∀ c ∈ t, isBlank c) :
    ∃ s', s.run t = .ok s' ∧ s.Idles s' := by
  induction t generalizing s with
  | nil => exact ⟨s, rfl, hs, hs, rfl, rfl⟩
  | cons c t ih =>
    rw [List.forall_mem_cons] at ht
    obtain ⟨s₁, step, idles⟩ : ∃ s₁, s.step c = .ok s₁ ∧ s.Idles s₁ := by
      have fresh : (s.addAll [c]).Fresh := hs.addAll (by simpa using ht.1)
      rcases newline_or_plain_of_isBlank ht.1 with rfl | ⟨plain, slash, hash⟩
      · exact ⟨_, step_newline hs.mode, hs, fresh.withLine _, rfl, rfl⟩
      · exact ⟨_, step_plain hs.mode plain slash hash, hs, fresh, rfl, rfl⟩
    obtain ⟨s', rest, idles'⟩ := ih idles.right ht.2
    exact ⟨s', run_cons step ▸ rest, idles.trans idles'⟩

/-- A character that leaves the scanner between two statements found it there. -/
theorem Fresh.of_add (h : (s.add c).Fresh) : s.Fresh := by
  refine ⟨h.mode, fun d hd => h.blank d ?_, ?_, h.parens, h.urlParen, h.interpolation⟩
  · simp [Scanner.add, hd]
  · have line := h.line
    simp only [Scanner.add, StatementBuffer.add, Option.orElse_eq_orElse] at line
    cases known : s.buffer.line with
    | none => rfl
    | some n => simp [known] at line

/-- Where the scanner is between two statements behind a space or a tab, it was so before. -/
theorem fresh_of_indent (sound : s.Sound) (hc : isIndent c) (step : s.step c = .ok s')
    (fresh : s'.Fresh) : s.Fresh := by
  have plain : isPlain c ∧ c ≠ '/' ∧ c ≠ '#' ∧ c ≠ '*' ∧ c ≠ '{' ∧ c ≠ '\n' ∧ c ≠ '"' ∧
      c ≠ '\x27' := by
    simp only [isIndent, Bool.or_eq_true, decide_eq_true_eq] at hc
    rcases hc with rfl | rfl <;> decide
  obtain ⟨plain, slash, hash, star, brace, newline, double, single⟩ := plain
  cases step_eq_ok_iff.mp step with
  | code mode apart read =>
    rw [← step_eq_code mode, step_plain mode plain slash hash] at read
    obtain rfl := Except.ok.inj read
    -- a character that was held back would be part of the statement now
    have nothing : s.held = [] := by
      refine List.eq_nil_iff_forall_not_mem.mpr fun d hd =>
        not_isBlank_of_mem_held hd (fresh.blank d ?_)
      rw [resume_eq mode]
      simp [Scanner.add, addAll, hd]
    rw [resume_of_held nothing] at fresh
    exact fresh.of_add
  | opensBlockComment mode is => exact absurd is star
  | opensLineComment mode is => exact absurd is slash
  | opensInterpolation mode is => exact absurd is brace
  | closesBlockComment mode is => exact absurd is slash
  | inBlockComment => cases fresh.mode
  | closesLineComment mode is => exact absurd is newline
  | inLineComment mode => cases mode.symm.trans fresh.mode
  | escaped => cases fresh.mode
  | closesString mode is =>
    rcases sound.quote _ _ _ mode with rfl | rfl
    · exact absurd is double
    · exact absurd is single
  | inString => cases fresh.mode

theorem idles_of_indent (sound : s.Sound) (ht : ∀ c ∈ t, isIndent c) (read : s.run t = .ok s')
    (fresh : s'.Fresh) : s.Idles s' := by
  have hs : s.Fresh := by
    -- from the last blank back to the first
    induction t generalizing s with
    | nil =>
      cases read
      exact fresh
    | cons c t ih =>
      rw [List.forall_mem_cons] at ht
      obtain ⟨s₁, step, rest⟩ := run_cons_eq_ok_iff.mp read
      exact fresh_of_indent sound ht.1 step (ih (step_moves sound step).sound ht.2 rest)
  obtain ⟨s₁, read', idles⟩ := hs.run_blanks fun c hc => isBlank_of_isIndent (ht c hc)
  rw [read] at read'
  cases read'
  exact idles

/-! ## The next statement -/

/-- The shortest part of a text behind which the scanner is between two statements, and the
scanner there. -/
def next? (s : Scanner) : Text → Option (Text × Scanner)
  | [] => none
  | c :: t =>
    match s.step c with
    | .error _ => none
    | .ok s' =>
      if s'.Fresh then some ([c], s') else (next? s' t).map fun next => (c :: next.1, next.2)

/-- Along a text, the scanner is never between two statements. -/
def Inside (s : Scanner) (t : Text) : Prop :=
  ∀ u s', u ≠ [] → u <+: t → s.run u = .ok s' → ¬s'.Fresh

/-- The text is read as one statement: the scanner is between two statements behind it, and not
before. -/
structure IsNext (s : Scanner) (d : Text) (s' : Scanner) : Prop where
  run_eq : s.run d = .ok s'
  fresh : s'.Fresh
  inside : ∀ u w, u ++ w = d → w ≠ [] → s.Inside u
  found : ∃ x : Option Statement, s'.found = s.found ++ x.toList
  /-- A semicolon opens and closes no block. -/
  openBlocks : d.getLast? = some ';' → s'.openBlocks = s.openBlocks

theorem inside_nil : s.Inside [] :=
  fun _ _ ne front => absurd (List.prefix_nil.mp front) ne

theorem inside_cons (step : s.step c = .ok s₁) (stale : ¬s₁.Fresh) (h : s₁.Inside t) :
    s.Inside (c :: t) := by
  rintro u s' ne ⟨w, eq⟩ read
  cases u with
  | nil => exact absurd rfl ne
  | cons d u =>
    rw [List.cons_append, List.cons.injEq] at eq
    obtain ⟨rfl, rfl⟩ := eq
    rw [run_cons step] at read
    cases u with
    | nil =>
      cases read
      exact stale
    | cons d u => exact h (d :: u) s' (by simp) ⟨w, rfl⟩ read

theorem Inside.tail (h : s.Inside (c :: t)) (step : s.step c = .ok s₁) : s₁.Inside t := by
  rintro u s' ne ⟨w, rfl⟩ read
  exact h (c :: u) s' (by simp) ⟨w, rfl⟩ (run_cons step ▸ read)

/-- A character behind which the scanner is between two statements ends the statement. -/
theorem isNext_singleton (moves : s.Moves c s') (step : s.step c = .ok s') (fresh : s'.Fresh) :
    s.IsNext [c] s' := by
  refine ⟨run_cons step, fresh, ?_, ?_, ?_⟩
  · intro u w eq ne
    rcases List.append_eq_singleton_iff.mp eq with ⟨rfl, -⟩ | ⟨-, rfl⟩
    · exact inside_nil
    · exact absurd rfl ne
  · rcases moves.cases with same | ended
    · exact ⟨none, by simp [same.1]⟩
    · exact ended.2.1
  · intro last
    rcases moves.cases with same | ended
    · exact same.2
    · exact ended.2.2 (by simpa using last)

/-- A character behind which the statement is open belongs to it, and finds nothing. -/
theorem IsNext.cons (moves : s.Moves c s₁) (step : s.step c = .ok s₁) (stale : ¬s₁.Fresh)
    (next : s₁.IsNext d s') : s.IsNext (c :: d) s' := by
  obtain ⟨found, blocks⟩ := moves.cases.resolve_right fun ended => stale ended.1
  refine ⟨(run_cons step).trans next.run_eq, next.fresh, ?_, found ▸ next.found, ?_⟩
  · intro u w eq ne
    cases u with
    | nil => exact inside_nil
    | cons e u =>
      rw [List.cons_append, List.cons.injEq] at eq
      obtain ⟨rfl, eq⟩ := eq
      exact inside_cons step stale (next.inside u w eq ne)
  · intro last
    refine (next.openBlocks ?_).trans blocks
    cases d with
    | nil =>
      -- the scanner was not between two statements yet
      cases next.run_eq
      exact absurd next.fresh stale
    | cons e d => simpa using last

theorem next?_eq_some (sound : s.Sound) (h : s.next? t = some (d, s')) :
    d <+: t ∧ s.IsNext d s' := by
  induction t generalizing s d with
  | nil => cases h
  | cons c t ih =>
    rw [next?] at h
    cases step : s.step c with
    | error e => simp [step] at h
    | ok s₁ =>
      have moves := step_moves sound step
      simp only [step] at h
      -- The character ends the statement, or the rest of the text does.
      split_ifs at h with fresh
      · simp only [Option.some.injEq, Prod.mk.injEq] at h
        obtain ⟨rfl, rfl⟩ := h
        exact ⟨⟨t, rfl⟩, isNext_singleton moves step fresh⟩
      · obtain ⟨⟨d, s₂⟩, next, eq⟩ := Option.map_eq_some_iff.mp h
        cases eq
        obtain ⟨front, isNext⟩ := ih moves.sound next
        exact ⟨by simpa using front, isNext.cons moves step fresh⟩

/-- A statement starts with no blank. -/
theorem IsNext.not_isIndent (hs : s.Fresh) (next : s.IsNext (c :: t) s') (ne : t ≠ []) :
    ¬isIndent c := by
  intro hc
  have blank : ∀ d ∈ [c], isBlank d := by simpa using isBlank_of_isIndent hc
  obtain ⟨s₁, read, idles⟩ := hs.run_blanks blank
  exact next.inside [c] t rfl ne [c] s₁ (by simp) List.prefix_rfl read idles.right

theorem next?_append (stays : s.Inside t) (read : s.run t = .ok s₁) (step : s₁.step c = .ok s')
    (fresh : s'.Fresh) (rest : Text) : s.next? (t ++ c :: rest) = some (t ++ [c], s') := by
  induction t generalizing s with
  | nil =>
    cases read
    simp [next?, step, fresh]
  | cons d t ih =>
    obtain ⟨s₂, first, read⟩ := run_cons_eq_ok_iff.mp read
    have stale : ¬s₂.Fresh := stays [d] s₂ (by simp) ⟨t, rfl⟩ (run_cons first)
    rw [List.cons_append, next?]
    simp only [first, if_neg stale, ih (stays.tail first) read, Option.map_some]
    rfl

/-- The statement being read started at the last place between two statements, and nothing was
found since. -/
theorem exists_inside (hs : s.Fresh) (h : s.run t = .ok s') : ∃ before body s₁,
    t = before ++ body ∧ s.run before = .ok s₁ ∧ s₁.Fresh ∧ s₁.run body = .ok s' ∧
      s₁.Inside body ∧ s'.found = s₁.found := by
  induction t using List.reverseRecOn generalizing s' with
  | nil =>
    cases h
    exact ⟨[], [], s, rfl, rfl, hs, rfl, inside_nil, rfl⟩
  | append_singleton t c ih =>
    -- Either this is the last place between two statements, or it is the one before the last
    -- character.
    by_cases fresh : s'.Fresh
    · exact ⟨t ++ [c], [], s', by simp, h, fresh, rfl, inside_nil, rfl⟩
    obtain ⟨s₂, front, last⟩ := run_append_eq_ok_iff.mp h
    obtain ⟨before, body, s₁, rfl, start, fresh₁, read, stays, found⟩ := ih front
    obtain ⟨_, step, ⟨⟩⟩ := run_cons_eq_ok_iff.mp last
    have moves := step_moves (run_sound hs.sound front) step
    have same := moves.cases.resolve_right fun ended => fresh ended.1
    refine ⟨before, body ++ [c], s₁, by simp, start, fresh₁, ?_, ?_, same.1.trans found⟩
    · exact run_append_eq_ok_iff.mpr ⟨s₂, read, last⟩
    · intro u s' ne front' read'
      rcases List.prefix_concat_iff.mp front' with rfl | front'
      · rw [run_append read, last] at read'
        cases read'
        exact fresh
      · exact stays u s' ne front' read'

end Scanner

/-! ## Declarations and their positions -/

/-- Whether the statement declares the property. -/
def Statement.declares (property : Text) : Statement → Bool
  | .declaration p _ _ => p == property
  | .atRule .. => false

/-- The declaration of the property that starts behind the first `n` characters of a stylesheet,
with what ends it. -/
def declarationAt? (property source : Text) (n : Nat) : Option Text :=
  match Scanner.run {} (source.take n) with
  | .error _ => none
  | .ok s =>
    if s.Fresh then
      (s.next? (source.drop n)).bind fun next =>
        if (next.2.found.drop s.found.length).any (·.declares property) then some next.1 else none
    else none

/-- A declaration `d` of the property stands behind the text `before`. -/
structure DeclaredAt (property before d : Text) (s s' : Scanner) : Prop where
  run_eq : Scanner.run {} before = .ok s
  fresh : s.Fresh
  next : s.IsNext d s'
  found : ∃ x, x.declares property ∧ s'.found = s.found ++ [x]

variable {property source before d rest : Text} {n : Nat}

theorem declarationAt?_eq_some (h : declarationAt? property source n = some d) :
    ∃ before rest s s', source = before ++ (d ++ rest) ∧ before.length = n ∧
      DeclaredAt property before d s s' := by
  unfold declarationAt? at h
  cases read : Scanner.run {} (source.take n) with
  | error e => simp [read] at h
  | ok s =>
    simp only [read] at h
    split_ifs at h with fresh
    -- every test of the search holds, as it gives a result
    obtain ⟨⟨d', s'⟩, next, h⟩ := Option.bind_eq_some_iff.mp h
    simp only at h
    split_ifs at h with declares
    cases h
    obtain ⟨⟨rest, eq⟩, isNext⟩ := Scanner.next?_eq_some fresh.sound next
    obtain ⟨x, found⟩ := isNext.found
    refine ⟨source.take n, rest, s, s', ?_, ?_, read, fresh, isNext, ?_⟩
    · rw [eq, List.take_append_drop]
    · -- something stands behind the position
      have ne : source.drop n ≠ [] := by
        intro nil
        rw [nil] at next
        cases next
      have := List.length_pos_iff.mpr ne
      rw [List.length_drop] at this
      rw [List.length_take]
      omega
    · rw [found, List.drop_left] at declares
      cases x with
      | none => simp at declares
      | some x => exact ⟨x, by simpa using declares, found⟩

/-- No declaration stands behind the last character. -/
theorem declarationAt?_lt (h : declarationAt? property source n = some d) : n < source.length := by
  obtain ⟨before, rest, s, s', rfl, rfl, declared⟩ := declarationAt?_eq_some h
  have ne : d ≠ [] := by
    rintro rfl
    obtain ⟨x, -, found⟩ := declared.found
    cases declared.next.run_eq
    simp at found
  have := List.length_pos_iff.mpr ne
  simp only [List.length_append]
  omega

theorem declarationAt?_append {s s' : Scanner} (read : Scanner.run {} before = .ok s)
    (fresh : s.Fresh) (next : s.next? (d ++ rest) = some (d, s'))
    (found : (s'.found.drop s.found.length).any (·.declares property)) :
    declarationAt? property (before ++ (d ++ rest)) before.length = some d := by
  rw [declarationAt?, List.take_left, List.drop_left, read]
  simp only [fresh, next, found, if_true, Option.bind_some]

/-- **A declaration that is found stands at a position.** -/
theorem exists_declarationAt? {s s' : Scanner} {c : Char} (read : Scanner.run {} before = .ok s)
    (step : s.step c = .ok s') (found : (s'.found.drop s.found.length).any (·.declares property))
    (rest : Text) : ∃ n d, declarationAt? property (before ++ c :: rest) n = some d ∧
      n + d.length = before.length + 1 := by
  obtain ⟨front, body, s₁, rfl, start, fresh, inside, stays, same⟩ :=
    Scanner.exists_inside Scanner.fresh_initial read
  have sound : s.Sound := Scanner.run_sound Scanner.fresh_initial.sound read
  -- what is found is more than before, so the character ended a statement
  have ended : s'.Fresh := by
    rcases (Scanner.step_moves sound step).cases with stayed | ended
    · rw [stayed.1, List.drop_length] at found
      cases found
    · exact ended.1
  have next : s₁.next? ((body ++ [c]) ++ rest) = some (body ++ [c], s') := by
    simpa using Scanner.next?_append stays inside step ended rest
  refine ⟨front.length, body ++ [c], ?_, by simp; omega⟩
  simpa using declarationAt?_append start fresh next (same ▸ found)

end StyleTokens
