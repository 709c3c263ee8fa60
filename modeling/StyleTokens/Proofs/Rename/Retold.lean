import StyleTokens.Proofs.Rename.Spelling
import StyleTokens.Proofs.Stylesheet.Extent

/-!
# The scanner under new names

A scanner that reads a text with new names does what the scanner on the text with the old names
does: a name is made of characters that mean nothing to the scanner. The two differ in the
statement being read, which is made of the same atoms, and in the statements found. They could
only part where `url(` is told from other parentheses, by the characters in front of them.

## Main definitions

* `Scanner.retold`: the scanner that has read the same atoms under their new names
* `Scanner.Tells`: what holds of the statement being read and of the statements found
* `Scanner.readName`: the scanner behind a name

## Main results

* `Scanner.Tells.step`: one character
* `Scanner.Tells.name`: one name
* `Scanner.Tells.finish`: the end of the text
-/

namespace StyleTokens

open Rename (Atom written Renames StatementCut HeadCut Whole renameToken)

/-! ## Names in the statement being read -/

namespace StatementBuffer

theorem isNameChar_of_toLower {c : Char} (h : c.toLower ∈ "url".toList) : isNameChar c := by
  have letters : ∀ c ∈ "urlURL".toList, isNameChar c := by decide
  exact letters c (mem_of_toLower_mem_url h)

/-- Whether an address opens is settled by the name characters at the end. -/
theorem endsInUrl_takeWhile (latest : List Char) {m n : Option Nat} :
    endsInUrl ⟨latest, m⟩ = endsInUrl ⟨latest.takeWhile isNameChar, n⟩ := by
  have differs : ∀ {l r u : Char}, ¬(isNameChar l ∧ isNameChar r ∧ isNameChar u) →
      ([u, r, l].map Char.toLower == "url".toList) = false := by
    intro l r u other
    rw [beq_eq_false_iff_ne]
    intro eq
    have mem : ∀ {c}, c ∈ [u, r, l] → isNameChar c := by
      intro c hc
      exact isNameChar_of_toLower (eq ▸ List.mem_map_of_mem hc)
    exact other ⟨mem (by simp), mem (by simp), mem (by simp)⟩
  match latest with
  | [] => rfl
  | [l] => by_cases hl : isNameChar l <;> simp [endsInUrl, hl]
  | [l, r] =>
    by_cases hl : isNameChar l <;> by_cases hr : isNameChar r <;> simp [endsInUrl, hl, hr]
  | l :: r :: u :: rest =>
    by_cases all : isNameChar l ∧ isNameChar r ∧ isNameChar u
    · simp [endsInUrl, all.1, all.2.1, all.2.2]
    · have first : endsInUrl ⟨l :: r :: u :: rest, m⟩ = false := differs all
      rw [first]
      by_cases hl : isNameChar l
      · by_cases hr : isNameChar r
        · have hu : ¬isNameChar u := fun hu => all ⟨hl, hr, hu⟩
          simp [endsInUrl, hl, hr, hu]
        · simp [endsInUrl, hl, hr]
      · simp [endsInUrl, hl]

/-- A statement that starts with a name starts on the line of the name. -/
theorem line_addAll_name {buffer : StatementBuffer} {w : Text} {line : Nat} (ne : w ≠ [])
    (chars : ∀ c ∈ w, isNameChar c) :
    (buffer.addAll w line).line = some (buffer.line.getD line) := by
  cases known : buffer.line with
  | some n => exact line_addAll_of_some known
  | none =>
    obtain ⟨c, w, rfl⟩ := List.exists_cons_of_ne_nil ne
    exact line_addAll_cons known (not_isBlank_of_isNameChar (chars c (by simp)))

end StatementBuffer

/-- Whether a parenthesis behind the text opens an address. -/
def opensAddress (t : Text) : Bool :=
  StatementBuffer.endsInUrl ⟨t.reverse, none⟩

namespace Scanner

variable {names : List Text} {m : Text → Text} {s s₁ : Scanner} {B : List Atom}
  {F : List Statement} {c : Char} {t : Text}

/-! ## The statement being read -/

/-- The text of the statement so far, with the character that is held back. -/
def pending (s : Scanner) : Text :=
  s.buffer.text ++ s.held

/-- The scanner is inside of a statement, and holds nothing back. -/
structure Receptive (s : Scanner) : Prop where
  inComment : s.inComment = false
  held : s.held = []

theorem receptive_of_code (h : s.mode = .code) : s.Receptive :=
  ⟨by simp [inComment, h], by simp [held, h]⟩

/-! ## The scanner that reads new names -/

/-- The scanner that has read the atoms of the statement under their new names, and has found
other statements. -/
def retold (m : Text → Text) (B : List Atom) (F : List Statement) (s : Scanner) : Scanner :=
  { s with buffer := ⟨(written m B).reverse, s.buffer.line⟩, found := F }

/-- The statement being read is made of the atoms, and the statements that are found declare the
same tokens under their new names. -/
structure Tells (names : List Text) (m : Text → Text) (B : List Atom) (F : List Statement)
    (s : Scanner) : Prop where
  text : s.buffer.text = written id B
  cut : StatementCut names B
  found : F.filterMap Statement.declared? =
    (s.found.filterMap Statement.declared?).map (renameToken m)

/-- What is asked for when a character becomes part of the statement. -/
structure Allows (names : List Text) (B : List Atom) (c : Char) : Prop where
  apart : ∀ b ∈ B.getLast?, b.Apart (.plain c)
  head : c = ':' → .plain ':' ∉ B → HeadCut names B

/-- A parenthesis opens an address behind the new name if it does so behind the old one. -/
def SameAddress (names : List Text) (m : Text → Text) (t : Text) : Prop :=
  t.rtakeWhile isNameChar ∈ names →
    opensAddress (m (t.rtakeWhile isNameChar)) = opensAddress (t.rtakeWhile isNameChar)

instance : Decidable (SameAddress names m t) :=
  inferInstanceAs (Decidable (_ → _))

theorem retold_add : (s.retold m B F).add c = (s.add c).retold m (B ++ [.plain c]) F := by
  simp [retold, add, StatementBuffer.add]

theorem Tells.add (h : s.Tells names m B F) (allows : Allows names B c) :
    (s.add c).Tells names m (B ++ [.plain c]) F where
  text := by simp [Scanner.add, h.text]
  cut := h.cut.concat nofun allows.apart fun colon => by
    cases colon
    exact allows.head rfl
  found := h.found

theorem retold_resume :
    (s.retold m B F).resume = s.resume.retold m (B ++ s.held.map .plain) F := by
  have same : (s.retold m B F).mode = s.mode := rfl
  unfold resume held
  rw [same]
  cases s.mode with
  | slash => simp only [addAll_cons, retold_add]; rfl
  | hash => simp only [addAll_cons, retold_add]; rfl
  | _ => simp

theorem allows_of_ne (hc : isNameChar c = false) (colon : c ≠ ':') : Allows names B c :=
  ⟨fun b _ _ inName => absurd inName (by simp [Atom.lift, hc]), fun eq => absurd eq colon⟩

theorem Tells.resume (h : s.Tells names m B F) :
    s.resume.Tells names m (B ++ s.held.map .plain) F := by
  unfold Scanner.resume held
  cases s.mode with
  | slash =>
    have added := h.add (c := '/') (allows_of_ne (by decide) (by decide))
    exact ⟨added.text, added.cut, added.found⟩
  | hash =>
    have added := h.add (c := '#') (allows_of_ne (by decide) (by decide))
    exact ⟨added.text, added.cut, added.found⟩
  | _ => simpa using h

theorem Tells.pending (h : s.Tells names m B F) :
    s.pending = written id (B ++ s.held.map .plain) := by
  simp [Scanner.pending, h.text]

theorem retold_emit (opensBlock : Bool) : (s.retold m B F).emit opensBlock =
    (s.emit opensBlock).retold m [] (F ++ (Statement.ofText (Text.trim (written m B))
      (s.buffer.line.getD 0) opensBlock).toList) := by
  simp [retold, emit, StatementBuffer.text]

theorem Tells.emit (hn : Renames names m) (h : s.Tells names m B F) (opensBlock : Bool)
    (whole : ∀ token ∈ (s.emit opensBlock).found.filterMap Statement.declared?,
      Whole names token) :
    (s.emit opensBlock).Tells names m [] (F ++ (Statement.ofText (Text.trim (written m B))
      (s.buffer.line.getD 0) opensBlock).toList) where
  text := rfl
  cut := Rename.statementCut_nil
  found := by
    have one : ∀ x : Option Statement,
        x.toList.filterMap Statement.declared? = (x.bind Statement.declared?).toList := by
      intro x
      cases x with
      | none => rfl
      | some x => cases declared : x.declared? <;> simp [declared]
    have split : (s.emit opensBlock).found.filterMap Statement.declared? =
        s.found.filterMap Statement.declared? ++ ((Statement.ofText (Text.trim (written id B))
          (s.buffer.line.getD 0) opensBlock).bind Statement.declared?).toList := by
      rw [Scanner.emit, List.filterMap_append, one, h.text]
    have declared := Rename.declared?_written hn h.cut (s.buffer.line.getD 0) opensBlock
      fun token found => whole token (by simp [split, found])
    rw [split, List.filterMap_append, h.found, one, declared, List.map_append, Option.toList_map]

/-- Whether an address opens is settled by the atoms of the name at the end. -/
theorem endsInUrl_written {f : Text → Text} (named : Rename.Named f B) (line : Option Nat) :
    StatementBuffer.endsInUrl ⟨(written f B).reverse, line⟩ =
      opensAddress (written f (B.rtakeWhile Atom.inName)) := by
  rw [StatementBuffer.endsInUrl_takeWhile _ (n := none), opensAddress,
    ← Rename.rtakeWhile_written named fun c hc => hc, List.rtakeWhile, List.reverse_reverse]

/-- What stands in front of a parenthesis is one name that is changed, or has none in it. -/
theorem opensAddress_written (hn : Renames names m) (cut : StatementCut names B)
    (call : SameAddress names m (written id B)) :
    opensAddress (written m (B.rtakeWhile Atom.inName)) =
      opensAddress (written id (B.rtakeWhile Atom.inName)) := by
  rw [SameAddress, Rename.rtakeWhile_written (hn.named_id cut) fun c hc => hc] at call
  by_cases named : ∃ old, .name old ∈ B.rtakeWhile Atom.inName
  · obtain ⟨old, here⟩ := named
    have inB := (List.rtakeWhile_suffix Atom.inName B).isInfix
    have one := Rename.eq_singleton_of_isChain cut.apart inB
      (fun a => List.mem_rtakeWhile_imp) here
    have mem := cut.mem old (inB.subset here)
    rw [one] at call ⊢
    simpa using call (by simpa using mem)
  · rw [Rename.written_of_no_names fun old here => named ⟨old, here⟩]

/-- The two scanners count the same parentheses. -/
theorem retold_count (hn : Renames names m) (h : s.Tells names m B F)
    (call : c = '(' → SameAddress names m (written id B)) :
    (s.retold m B F).count c = (s.count c).retold m B F := by
  unfold count
  by_cases opens : c = '('
  · have latest : s.buffer = ⟨(written id B).reverse, s.buffer.line⟩ := by
      rw [← h.text, StatementBuffer.text, List.reverse_reverse]
    have url : StatementBuffer.endsInUrl ⟨(written m B).reverse, s.buffer.line⟩ =
        s.buffer.endsInUrl := by
      rw [latest, endsInUrl_written (hn.named h.cut), endsInUrl_written (hn.named_id h.cut)]
      exact opensAddress_written hn h.cut (call opens)
    rw [if_pos opens, if_pos opens]
    change ({ s.retold m B F with
      parens := s.parens + 1
      urlParen := if s.urlParen = 0 && StatementBuffer.endsInUrl ⟨(written m B).reverse,
        s.buffer.line⟩ then s.parens + 1 else s.urlParen } : Scanner) = _
    rw [url]
    rfl
  · rw [if_neg opens, if_neg opens]
    by_cases closes : (decide (c = ')') && decide (0 < s.parens)) = true
    · rw [if_pos closes]
      exact if_pos closes
    · rw [if_neg closes]
      exact if_neg closes

theorem Tells.count (h : s.Tells names m B F) : (s.count c).Tells names m B F := by
  have frame : (s.count c).buffer = s.buffer ∧ (s.count c).found = s.found := by
    unfold Scanner.count
    split_ifs <;> exact ⟨rfl, rfl⟩
  exact ⟨frame.1 ▸ h.text, h.cut, frame.2 ▸ h.found⟩

/-! ## One character -/

/-- The two scanners take a step together, and a blank becomes part of the statement. -/
def StepsTo (names : List Text) (m : Text → Text) (B : List Atom) (c : Char)
    (s' : Except ScanError Scanner) (s₁ : Scanner) : Prop :=
  ∃ B₁ F₁, s' = .ok (s₁.retold m B₁ F₁) ∧ s₁.Tells names m B₁ F₁ ∧
    (isBlank c → B₁ = B ++ [.plain c] ∧ s₁.Receptive)

/-- Only whole tokens are found. -/
def FindsWhole (names : List Text) (s : Scanner) : Prop :=
  ∀ token ∈ s.found.filterMap Statement.declared?, Whole names token

theorem Tells.put (hn : Renames names m) (h : s.Tells names m B F) (mode : s.mode = .code)
    (allows : Allows names B c) (call : c = '(' → SameAddress names m (written id B))
    (step : s.put c = .ok s₁) (whole : s₁.FindsWhole names) :
    StepsTo names m B c ((s.retold m B F).put c) s₁ := by
  have counted : (s.count c).Tells names m B F := h.count
  have mode' : (s.count c).mode = .code := count_frame.1.trans mode
  rw [put_eq_ok_iff] at step
  simp only [StepsTo, put_eq_ok_iff, retold_count hn h call]
  generalize s.count c = s at counted step mode'
  cases step with
  | interpolates inside =>
    have added := counted.add allows
    have read := PutTransition.interpolates (s := s.retold m B F) (c := c) inside
    rw [readInterpolation, retold_add] at read
    exact ⟨_, F, read, ⟨added.text, added.cut, added.found⟩,
      fun _ => ⟨rfl, receptive_of_code mode'⟩⟩
  | ends outside semicolon parens =>
    have read := PutTransition.ends (s := s.retold m B F) outside semicolon parens
    rw [retold_emit] at read
    exact ⟨[], _, read, counted.emit hn false whole,
      fun blank => absurd (semicolon ▸ blank) (by decide)⟩
  | opens outside brace =>
    have emitted := counted.emit hn true whole
    have read := PutTransition.opens (s := s.retold m B F) outside brace
    rw [openBlock, retold_emit] at read
    exact ⟨[], _, read, ⟨emitted.text, emitted.cut, emitted.found⟩,
      fun blank => absurd (brace ▸ blank) (by decide)⟩
  | closes outside brace blocks =>
    -- as many blocks are open for both
    have emitted := counted.emit hn false whole
    have read := PutTransition.closes (s := s.retold m B F) outside brace blocks
    rw [retold_emit] at read
    exact ⟨[], _, read, ⟨emitted.text, emitted.cut, emitted.found⟩,
      fun blank => absurd (brace ▸ blank) (by decide)⟩
  | adds outside stays left right =>
    have read := PutTransition.adds (s := s.retold m B F) outside stays left right
    rw [retold_add] at read
    exact ⟨_, F, read, counted.add allows, fun _ => ⟨rfl, receptive_of_code mode'⟩⟩

theorem Tells.code (hn : Renames names m) (h : s.Tells names m B F) (mode : s.mode = .code)
    (allows : Allows names B c) (call : c = '(' → SameAddress names m (written id B))
    (step : s.code c = .ok s₁) (whole : s₁.FindsWhole names) :
    StepsTo names m B c ((s.retold m B F).code c) s₁ := by
  unfold Scanner.code at step ⊢
  by_cases slash : c = '/'
  · subst slash
    cases step
    exact ⟨B, F, rfl, ⟨h.text, h.cut, h.found⟩, fun blank => absurd blank (by decide)⟩
  rw [if_neg slash] at step ⊢
  by_cases hash : c = '#'
  · subst hash
    cases step
    exact ⟨B, F, rfl, ⟨h.text, h.cut, h.found⟩, fun blank => absurd blank (by decide)⟩
  rw [if_neg hash] at step ⊢
  have added := h.add allows
  split_ifs at step ⊢ with quote newline
  · cases step
    refine ⟨_, F, ?_, ⟨added.text, added.cut, added.found⟩, fun _ => ⟨rfl, rfl, rfl⟩⟩
    rw [retold_add]
    rfl
  · cases step
    refine ⟨_, F, ?_, ⟨added.text, added.cut, added.found⟩,
      fun _ => ⟨rfl, receptive_of_code mode⟩⟩
    rw [retold_add]
    rfl
  · exact h.put hn mode allows call step whole

/-- Where nothing is held back, a character becomes part of both statements. -/
theorem Tells.add_of_held (h : s.Tells names m B F) (held : s.held = [])
    (allows : Allows names (B ++ s.held.map .plain) c) :
    (s.add c).Tells names m (B ++ s.held.map .plain ++ [.plain c]) F ∧
      (s.retold m B F).add c = (s.add c).retold m (B ++ s.held.map .plain ++ [.plain c]) F := by
  rw [held, List.map_nil, List.append_nil] at allows ⊢
  exact ⟨h.add allows, retold_add⟩

/-- **One character** takes the two scanners on together. -/
theorem Tells.step (hn : Renames names m) (h : s.Tells names m B F)
    (allows : s.inComment = false → Allows names (B ++ s.held.map .plain) c)
    (call : c = '(' → s.inText = false → SameAddress names m s.pending)
    (step : s.step c = .ok s₁) (whole : s₁.FindsWhole names) :
    ∃ B₁ F₁, (s.retold m B F).step c = .ok (s₁.retold m B₁ F₁) ∧ s₁.Tells names m B₁ F₁ ∧
      (s.inComment = false → isBlank c →
        B₁ = B ++ s.held.map .plain ++ [.plain c] ∧ s₁.Receptive) := by
  -- both scanners are inside of the same, and of the same address, so the case is the same
  simp only [step_eq_ok_iff] at step ⊢
  cases step with
  | code mode apart read =>
    obtain ⟨inText, inComment, -⟩ := outside_of_resume mode
    -- the character that was held back is read, and then this one
    have called : c = '(' → SameAddress names m (written id (B ++ s.held.map .plain)) :=
      fun paren => h.pending ▸ call paren inText
    obtain ⟨B₁, F₁, read', tells, blank⟩ :=
      h.resume.code hn mode (allows inComment) called read whole
    rw [← retold_resume] at read'
    exact ⟨B₁, F₁, .code (retold_resume ▸ mode) apart read', tells, fun _ => blank⟩
  | opensBlockComment mode star =>
    exact ⟨B, F, .opensBlockComment mode star, ⟨h.text, h.cut, h.found⟩,
      fun _ blank => absurd (star ▸ blank) (by decide)⟩
  | opensLineComment mode slash url =>
    exact ⟨B, F, .opensLineComment mode slash url, ⟨h.text, h.cut, h.found⟩,
      fun _ blank => absurd (slash ▸ blank) (by decide)⟩
  | opensInterpolation mode brace =>
    have added := (h.add (c := '#') (allows_of_ne (by decide) (by decide))).add (c := '{')
      (allows_of_ne (by decide) (by decide))
    refine ⟨_, F, ?_, ⟨added.text, added.cut, added.found⟩,
      fun _ blank => absurd (brace ▸ blank) (by decide)⟩
    have opened := Transition.opensInterpolation (s := s.retold m B F) mode brace
    rw [retold_add, retold_add] at opened
    exact opened
  | closesBlockComment mode slash =>
    exact ⟨B, F, .closesBlockComment mode slash, ⟨h.text, h.cut, h.found⟩,
      fun inside => by simp [inComment, mode] at inside⟩
  | inBlockComment mode stays =>
    exact ⟨B, F, .inBlockComment mode stays, ⟨h.text, h.cut, h.found⟩,
      fun inside => by simp [inComment, mode] at inside⟩
  | closesLineComment mode newline =>
    have added := h.add (c := '\n') (allows_of_ne (by decide) (by decide))
    refine ⟨_, F, ?_, ⟨added.text, added.cut, added.found⟩,
      fun inside => by simp [inComment, mode] at inside⟩
    have closed := Transition.closesLineComment (s := s.retold m B F) mode newline
    rw [retold_add] at closed
    exact closed
  | inLineComment mode newline =>
    exact ⟨B, F, .inLineComment mode newline, h, fun inside => by simp [inComment, mode] at inside⟩
  | escaped mode =>
    obtain ⟨added, same⟩ := h.add_of_held (held_of_quoted mode) (allows (by simp [inComment, mode]))
    have read := Transition.escaped (s := s.retold m B F) (c := c) mode
    rw [same] at read
    exact ⟨_, F, read, ⟨added.text, added.cut, added.found⟩, fun _ _ => ⟨rfl, rfl, rfl⟩⟩
  | closesString mode closes =>
    obtain ⟨added, same⟩ := h.add_of_held (held_of_quoted mode) (allows (by simp [inComment, mode]))
    have read := Transition.closesString (s := s.retold m B F) mode closes
    rw [same] at read
    exact ⟨_, F, read, ⟨added.text, added.cut, added.found⟩, fun _ _ => ⟨rfl, rfl, rfl⟩⟩
  | inString mode stays =>
    obtain ⟨added, same⟩ := h.add_of_held (held_of_quoted mode) (allows (by simp [inComment, mode]))
    have read := Transition.inString (s := s.retold m B F) mode stays
    rw [same] at read
    exact ⟨_, F, read, ⟨added.text, added.cut, added.found⟩, fun _ _ => ⟨rfl, rfl, rfl⟩⟩

/-! ## One name -/

variable {w w' : Text} {a : Atom}

theorem isPlain_of_isNameChar (hc : isNameChar c) : isPlain c ∧ c ≠ '/' ∧ c ≠ '#' := by
  have ne : ∀ d, isNameChar d = false → c ≠ d := fun d hd => Rename.isNameChar_ne hc hd
  have plain : c ∉ ['"', '\x27', '(', ')', '{', '}', ';', '\n'] := by
    simp only [List.mem_cons, List.not_mem_nil, or_false, not_or]
    exact ⟨ne _ (by decide), ne _ (by decide), ne _ (by decide), ne _ (by decide),
      ne _ (by decide), ne _ (by decide), ne _ (by decide), ne _ (by decide)⟩
  exact ⟨by simpa [isPlain] using plain, ne _ (by decide), ne _ (by decide)⟩

theorem run_eq_self (h : ∀ c ∈ w, s.step c = .ok s) : s.run w = .ok s := by
  induction w with
  | nil => rfl
  | cons c w ih =>
    rw [run_cons (h c (by simp)), ih fun d hd => h d (List.mem_cons_of_mem c hd)]

/-- The scanner behind a name. -/
def readName (s : Scanner) (w : Text) : Scanner :=
  match s.mode with
  | .code | .slash | .hash => s.resume.addAll w
  | .blockComment start _ => { s with mode := .blockComment start false }
  | .lineComment => s
  | .quoted quote start _ => { s.addAll w with mode := .quoted quote start false }

theorem step_name_code (hc : isNameChar c) (mode : s.mode = .code) : s.step c = .ok (s.add c) := by
  obtain ⟨plain, slash, hash⟩ := isPlain_of_isNameChar hc
  exact step_plain mode plain slash hash

/-- A character that was held back is no matter for a name. -/
theorem step_name_resume (hc : isNameChar c) (mode : s.mode = .slash ∨ s.mode = .hash) :
    s.step c = s.resume.step c := by
  have other : ∀ d, isNameChar d = false → c ≠ d := fun d hd => Rename.isNameChar_ne hc hd
  refine step_resume (t := []) ?_
  rcases mode with mode | mode
  · simp [ReadsApart, mode, other '*' (by decide), other '/' (by decide)]
  · simp [ReadsApart, mode, other '{' (by decide)]

theorem step_name_blockComment (hc : isNameChar c) {start : Nat} {star : Bool}
    (mode : s.mode = .blockComment start star) :
    s.step c = .ok { s with mode := .blockComment start false } := by
  have slash : c ≠ '/' := Rename.isNameChar_ne hc (by decide)
  have star' : c ≠ '*' := Rename.isNameChar_ne hc (by decide)
  have newline : c ≠ '\n' := Rename.isNameChar_ne hc (by decide)
  rw [step_blockComment mode fun _ => slash, if_neg newline, decide_eq_false star']

theorem step_name_lineComment (hc : isNameChar c) (mode : s.mode = .lineComment) :
    s.step c = .ok s :=
  Transition.step_eq (.inLineComment mode (Rename.isNameChar_ne hc (by decide)))

theorem step_name_quoted (hc : isNameChar c) {quote : Char} {start : Nat} {escaped : Bool}
    (mode : s.mode = .quoted quote start escaped) (hq : quote = '"' ∨ quote = '\x27') :
    s.step c = .ok { s.add c with mode := .quoted quote start false } := by
  have backslash : c ≠ '\\' := Rename.isNameChar_ne hc (by decide)
  have newline : c ≠ '\n' := Rename.isNameChar_ne hc (by decide)
  have quotes : c ≠ quote := by
    rcases hq with rfl | rfl
    · exact Rename.isNameChar_ne hc (by decide)
    · exact Rename.isNameChar_ne hc (by decide)
  cases escaped with
  | true => exact Transition.step_eq (.escaped mode)
  | false =>
    rw [Transition.step_eq (.inString mode quotes), if_neg newline, decide_eq_false backslash]
    rfl

/-- **A name** becomes part of the statement, or stands in a comment. -/
theorem run_name (sound : s.Sound) (ne : w ≠ []) (chars : ∀ c ∈ w, isNameChar c) :
    s.run w = .ok (s.readName w) := by
  have code : ∀ s' : Scanner, s'.mode = .code → s'.run w = .ok (s'.addAll w) := by
    intro s' mode
    exact run_eq_addAll fun s'' same c hc => step_name_code (chars c hc) (same.trans mode)
  -- the first character settles the mode in which the others are read
  obtain ⟨c, w, rfl⟩ := List.exists_cons_of_ne_nil ne
  rw [List.forall_mem_cons] at chars
  obtain ⟨hc, hw⟩ := chars
  have resumed : s.mode = .slash ∨ s.mode = .hash →
      s.run (c :: w) = .ok (s.resume.addAll (c :: w)) := by
    intro mode
    have mode' : s.resume.mode = .code := by rcases mode with mode | mode <;> simp [resume, mode]
    rw [← code _ mode', run, run, List.foldlM_cons, List.foldlM_cons, step_name_resume hc mode]
  unfold readName
  cases mode : s.mode with
  | code =>
    simp only [resume, mode]
    exact code s mode
  | slash => exact resumed (.inl mode)
  | hash => exact resumed (.inr mode)
  | blockComment start star =>
    rw [run_cons (step_name_blockComment hc mode)]
    exact run_eq_self fun d hd => step_name_blockComment (hw d hd) rfl
  | lineComment =>
    rw [run_cons (step_name_lineComment hc mode)]
    exact run_eq_self fun d hd => step_name_lineComment (hw d hd) mode
  | quoted quote start escaped =>
    have hq := sound.quote quote start escaped mode
    rw [run_cons (step_name_quoted hc mode hq), run_eq_addAll]
    · rfl
    · intro s' mode' d hd
      change s'.mode = .quoted quote start false at mode'
      rw [step_name_quoted (hw d hd) mode' hq, ← mode']
      rfl

theorem inComment_readName : (s.readName w).inComment = s.inComment := by
  unfold readName inComment resume
  cases mode : s.mode <;> simp [addAll, mode]

theorem receptive_readName (h : s.inComment = false) : (s.readName w).Receptive := by
  refine ⟨inComment_readName.trans h, ?_⟩
  unfold readName
  cases mode : s.mode with
  | code | slash | hash => simp [held, resume, addAll, mode]
  | blockComment | lineComment => simp [inComment, mode] at h
  | quoted => rfl

theorem Sound.retold (h : s.Sound) : (s.retold m B F).Sound :=
  ⟨h.url, h.quote⟩

/-- An atom that is part of a name. -/
structure IsWord (names : List Text) (a : Atom) : Prop where
  inName : a.inName
  mem : ∀ old, a = .name old → old ∈ names

/-- Under its old name and under its new one, it has name characters only. -/
theorem IsWord.written (hn : Renames names m) (h : IsWord names a) :
    (a.written id ≠ [] ∧ ∀ c ∈ a.written id, isNameChar c) ∧
      a.written m ≠ [] ∧ ∀ c ∈ a.written m, isNameChar c := by
  cases a with
  | plain c =>
    have plain : [c] ≠ [] ∧ ∀ d ∈ [c], isNameChar d := by simpa [Atom.lift] using h.inName
    exact ⟨plain, plain⟩
  | name old =>
    have old' := hn.old old (h.mem old rfl)
    have new := hn.new old (h.mem old rfl)
    exact ⟨⟨old'.ne_nil, old'.chars⟩, new.ne_nil, new.chars⟩

theorem retold_addAll (hn : Renames names m) (h : IsWord names a) :
    (s.retold m B F).addAll (a.written m) = (s.addAll (a.written id)).retold m (B ++ [a]) F := by
  obtain ⟨⟨ne, chars⟩, ne', chars'⟩ := h.written hn
  have text : ∀ b : StatementBuffer, b = ⟨b.text.reverse, b.line⟩ := by
    intro b
    rw [StatementBuffer.text, List.reverse_reverse]
  simp only [retold, addAll]
  congr 1
  rw [text (StatementBuffer.addAll _ _ _), StatementBuffer.text_addAll,
    StatementBuffer.line_addAll_name ne chars, StatementBuffer.line_addAll_name ne' chars']
  simp [StatementBuffer.text, written]

/-- What the statement has behind an atom that is part of a name. -/
def behindName (s : Scanner) (B : List Atom) (a : Atom) : List Atom :=
  if s.inComment then B else B ++ s.held.map .plain ++ [a]

theorem retold_readName (hn : Renames names m) (h : IsWord names a) :
    (s.retold m B F).readName (a.written m) =
      (s.readName (a.written id)).retold m (s.behindName B a) F := by
  have same : (s.retold m B F).mode = s.mode := rfl
  unfold readName behindName inComment
  rw [same]
  cases mode : s.mode with
  | code | slash | hash => simp [retold_resume, retold_addAll hn h]
  | blockComment start star => rfl
  | lineComment => rfl
  | quoted quote start escaped =>
    simp only [retold_addAll hn h, held, mode, Bool.false_eq_true, if_false, List.map_nil,
      List.append_nil]
    rfl

/-- **One name** takes the two scanners on together. -/
theorem Tells.name (h : s.Tells names m B F) (word : IsWord names a)
    (apart : s.inComment = false → ∀ b ∈ (B ++ s.held.map Atom.plain).getLast?, b.Apart a) :
    (s.readName (a.written id)).Tells names m (s.behindName B a) F := by
  have colon : a ≠ .plain ':' := by
    rintro rfl
    exact absurd word.inName (by decide)
  have added : s.inComment = false → (s.resume.addAll (a.written id)).Tells names m
      (B ++ s.held.map .plain ++ [a]) F := by
    intro inside
    have resumed := h.resume
    refine ⟨?_, resumed.cut.concat word.mem (apart inside) fun eq => absurd eq colon, resumed.found⟩
    simp [Scanner.addAll, resumed.text, written]
  unfold behindName
  cases mode : s.mode with
  | code | slash | hash =>
    have inside : s.inComment = false := by simp [inComment, mode]
    have tells := added inside
    simpa [readName, mode, inside] using tells
  | blockComment start star =>
    simp only [readName, inComment, mode]
    exact ⟨h.text, h.cut, h.found⟩
  | lineComment =>
    simp only [readName, inComment, mode]
    exact h
  | quoted quote start escaped =>
    have inside : s.inComment = false := by simp [inComment, mode]
    have tells := added inside
    simp only [Scanner.resume, mode] at tells
    simp only [readName, inside, mode]
    exact ⟨tells.text, tells.cut, tells.found⟩

/-! ## The end of the text -/

/-- **At the end of the text**, both have found the same tokens. -/
theorem Tells.finish (hn : Renames names m) (h : s.Tells names m B F) {statements : List Statement}
    (ok : s.finish = .ok statements)
    (whole : ∀ token ∈ statements.filterMap Statement.declared?, Whole names token) :
    ∃ statements', (s.retold m B F).finish = .ok statements' ∧
      statements'.filterMap Statement.declared? =
        (statements.filterMap Statement.declared?).map (renameToken m) := by
  obtain ⟨u, settled, inside, blocks, rfl⟩ := finish_eq_ok_iff.mp ok
  -- a character that is held back becomes part of the last statement
  obtain ⟨B₁, settled', tells⟩ : ∃ B₁, (s.retold m B F).settle = .ok (u.retold m B₁ F) ∧
      u.Tells names m B₁ F := by
    have same : (s.retold m B F).mode = s.mode := rfl
    unfold settle at settled ⊢
    rw [same]
    cases mode : s.mode with
    | code | lineComment =>
      simp only [mode, Except.ok.injEq] at settled
      exact ⟨B, settled ▸ rfl, settled ▸ h⟩
    | slash =>
      simp only [mode, Except.ok.injEq] at settled
      exact ⟨_, settled ▸ congrArg _ retold_add,
        settled ▸ h.add (allows_of_ne (by decide) (by decide))⟩
    | hash =>
      simp only [mode, Except.ok.injEq] at settled
      exact ⟨_, settled ▸ congrArg _ retold_add,
        settled ▸ h.add (allows_of_ne (by decide) (by decide))⟩
    | blockComment | quoted => simp [mode] at settled
  have emitted := tells.emit hn false whole
  have found : ((u.retold m B₁ F).emit false).found = _ :=
    congrArg Scanner.found (retold_emit false)
  exact ⟨_, finish_eq_ok_iff.mpr ⟨_, settled', inside, blocks, found⟩, emitted.found⟩

end Scanner

end StyleTokens
