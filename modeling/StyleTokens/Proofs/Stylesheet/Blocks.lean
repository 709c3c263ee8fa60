import StyleTokens.Proofs.Stylesheet.Alike
import StyleTokens.Proofs.Stylesheet.Sheet

/-!
# One block of a stylesheet

Inside of a block the scanner reads a stylesheet as if it stood alone: what it does next does not
depend on the blocks around it, as long as it closes none of them. Where the stylesheet may end,
a line break and the closing brace of the block end all that is still open, a line comment, a
declaration without its semicolon and an address in parentheses. So the scanner goes on behind the
block as it does at the beginning of a text.

## Main definitions

* `Scanner.within`: the scanner inside of some more blocks

## Main results

* `Scanner.run_within`: inside of a block, a text is read as on its own
* `Scanner.run_closing`: the end of a block
* `scan_block`: the statements of a block and of what stands behind it
-/

namespace StyleTokens

namespace Scanner

variable {s s' u : Scanner} {outer : List Nat} {c : Char} {h t : Text} {statements : List Statement}

/-! ## Inside of a block -/

/-- The scanner inside of some more blocks. -/
def within (s : Scanner) (outer : List Nat) : Scanner :=
  { s with openBlocks := s.openBlocks ++ outer }

theorem count_within : (s.within outer).count c = (s.count c).within outer := by
  unfold count
  by_cases left : c = '('
  · rw [if_pos left, if_pos left]
    rfl
  rw [if_neg left, if_neg left]
  by_cases right : c = ')' && 0 < s.parens
  · rw [if_pos right]
    exact if_pos right
  · rw [if_neg right]
    exact if_neg right

theorem put_within (read : s.put c = .ok s') :
    (s.within outer).put c = .ok (s'.within outer) := by
  rw [put_eq_ok_iff] at read ⊢
  rw [count_within]
  cases read with
  | interpolates inside => exact .interpolates inside
  | ends outside semicolon parens => exact .ends outside semicolon parens
  | opens outside brace => exact .opens outside brace
  | closes outside brace blocks =>
    -- a brace closes the innermost block
    exact .closes outside brace (congrArg (· ++ outer) blocks)
  | adds outside stays left right => exact .adds outside stays left right

theorem code_within (read : s.code c = .ok s') :
    (s.within outer).code c = .ok (s'.within outer) := by
  unfold code at read ⊢
  split_ifs at read ⊢ with slash hash quote newline
  · cases read
    rfl
  · cases read
    rfl
  · cases read
    rfl
  · cases read
    rfl
  · exact put_within read

theorem resume_within : (s.within outer).resume = s.resume.within outer := by
  have same : (s.within outer).mode = s.mode := rfl
  unfold resume held
  rw [same]
  cases s.mode <;> rfl

/-- **Inside of a block, a character is read as outside of it**, where it may stand there. -/
theorem step_within (read : s.step c = .ok s') :
    (s.within outer).step c = .ok (s'.within outer) := by
  rw [step_eq_ok_iff] at read ⊢
  cases read with
  | code mode apart read =>
    exact .code (resume_within ▸ mode) apart (resume_within ▸ code_within read)
  | opensBlockComment mode star => exact .opensBlockComment mode star
  | opensLineComment mode slash url => exact .opensLineComment mode slash url
  | opensInterpolation mode brace => exact .opensInterpolation mode brace
  | closesBlockComment mode slash => exact .closesBlockComment mode slash
  | inBlockComment mode stays => exact .inBlockComment mode stays
  | closesLineComment mode newline => exact .closesLineComment mode newline
  | inLineComment mode newline => exact .inLineComment mode newline
  | escaped mode => exact .escaped mode
  | closesString mode closes => exact .closesString mode closes
  | inString mode stays => exact .inString mode stays

/-- Inside of a block, a text is read as on its own. -/
theorem run_within (read : s.run t = .ok s') :
    (s.within outer).run t = .ok (s'.within outer) := by
  induction t generalizing s with
  | nil =>
    cases read
    rfl
  | cons c t ih =>
    obtain ⟨s₁, first, rest⟩ := run_cons_eq_ok_iff.mp read
    rw [run_cons (step_within first), ih rest]

/-! ## The header and the end of a block -/

/-- Behind its header, the scanner is inside of a block as at the beginning of a text. -/
theorem run_header (inert : ∀ c ∈ h, isInert c) (at_ : (Text.trim h).head? ≠ some '@') :
    run {} (h ++ ['{']) = .ok (({} : Scanner).within [1]) := by
  have header : run {} h = .ok (({} : Scanner).addAll h) := by
    apply run_eq_addAll
    intro s' mode c hc
    have inert := inert c hc
    simp only [isInert, Bool.and_eq_true, decide_eq_true_eq] at inert
    exact step_plain mode inert.1.1 inert.1.2 inert.2
  have empty : ({} : StatementBuffer).text = [] := rfl
  rw [run_append header, run_cons (step_openBlock rfl rfl)]
  simp [openBlock, emit, addAll, within, empty, Statement.ofText_header at_]

/-- A line break ends a line comment, and a character that was held back opens nothing. -/
theorem step_newline_of_settle (settled : s.settle = .ok u) :
    s.step '\n' = .ok { u.add '\n' with mode := .code, line := u.line + 1 } := by
  unfold settle at settled
  cases mode : s.mode with
  | code =>
    simp only [mode, Except.ok.injEq] at settled
    rw [step_newline mode, ← settled, ← mode]
    rfl
  | lineComment | slash | hash =>
    simp only [mode, Except.ok.injEq] at settled
    rw [step, mode, ← settled]
    rfl
  | blockComment | quoted => simp [mode] at settled

/-- **The end of a block** ends all that the text before it has left open. -/
theorem run_closing {line : Nat} (settled : s.settle = .ok u) (inside : u.interpolation = 0)
    (blocks : u.openBlocks = []) : (s.within [line]).run ['\n', '}'] =
      .ok { line := u.line + 1, found := (u.emit false).found } := by
  -- the scanner behind the line break
  let v : Scanner := { u.add '\n' with mode := .code, line := u.line + 1 }
  have newline : (s.within [line]).step '\n' = .ok (v.within [line]) :=
    step_within (step_newline_of_settle settled)
  have found : (v.emit false).found = (u.emit false).found := by
    have text : Text.trim (u.add '\n').buffer.text = Text.trim u.buffer.text := by
      rw [Scanner.add, StatementBuffer.text_add]
      exact Text.trim_append_blanks _ (by decide)
    have first : (u.add '\n').buffer.line = u.buffer.line := by
      simp [Scanner.add, StatementBuffer.add, isBlank]
    simp only [emit, v, text, first]
    rfl
  have closes : (v.within [line]).step '}' =
      .ok { line := u.line + 1, found := (u.emit false).found } := by
    have mode : (v.within [line]).mode = .code := rfl
    have outside : (v.within [line]).interpolation = 0 := inside
    have opened : (v.within [line]).openBlocks = [line] := by simp [within, v, add, blocks]
    rw [step_closeBlock mode outside, closeBlock, opened, ← found]
    simp [within, emit, v, add, inside]
  rw [run_cons newline, run_cons closes, run_nil]

end Scanner

section

variable {h s t : Text} {inside : List Statement}

/-- Behind a block, the scanner goes on with nothing but a line and the statements of the block. -/
theorem exists_scan_block_eq (accepted : scan s = .ok inside) (inert : ∀ c ∈ h, isInert c)
    (at_ : (Text.trim h).head? ≠ some '@') (t : Text) :
    ∃ line, scan (h ++ '{' :: (s ++ '\n' :: '}' :: t)) =
      Scanner.run { line := line, found := inside } t >>= Scanner.finish := by
  obtain ⟨v, read, finish⟩ := exists_finish accepted
  obtain ⟨u, settled, outside, blocks, rfl⟩ := Scanner.finish_eq_ok_iff.mp finish
  have block : Scanner.run {} (h ++ ['{'] ++ (s ++ ['\n', '}'])) =
      .ok { line := u.line + 1, found := (u.emit false).found } := by
    rw [Scanner.run_append (Scanner.run_header inert at_),
      Scanner.run_append (Scanner.run_within read), Scanner.run_closing settled outside blocks]
  have split : h ++ '{' :: (s ++ '\n' :: '}' :: t) = h ++ ['{'] ++ (s ++ ['\n', '}']) ++ t := by
    simp
  exact ⟨u.line + 1, by rw [split, scan_append block]⟩

/-- **A block is read on its own**: a text goes on behind it as if nothing stood in front, and the
statements are those of the block and then those of what stands behind it, line numbers aside. -/
theorem scan_block (accepted : scan s = .ok inside) (inert : ∀ c ∈ h, isInert c)
    (at_ : (Text.trim h).head? ≠ some '@') :
    ((∃ all, scan (h ++ '{' :: (s ++ '\n' :: '}' :: t)) = .ok all) ↔
      ∃ behind, scan t = .ok behind) ∧
    ∀ all behind, scan (h ++ '{' :: (s ++ '\n' :: '}' :: t)) = .ok all → scan t = .ok behind →
      all.map Statement.unplaced = (inside ++ behind).map Statement.unplaced := by
  obtain ⟨line, whole⟩ := exists_scan_block_eq accepted inert at_ t
  have alike : Scanner.Alike [] inside {} { line := line, found := inside } :=
    ⟨rfl, ⟨[], [], [], rfl, rfl, nofun, nofun⟩, rfl, rfl, rfl, rfl, [], rfl, by simp⟩
  have forth : ∀ behind, scan t = .ok behind →
      ∃ all, scan (h ++ '{' :: (s ++ '\n' :: '}' :: t)) = .ok all ∧
        all.map Statement.unplaced = (inside ++ behind).map Statement.unplaced := by
    intro behind accepted
    obtain ⟨all, ok, new, eq, eq'⟩ := alike.run_finish accepted
    rw [List.map_nil, List.nil_append] at eq
    exact ⟨all, whole.trans ok, by rw [eq', List.map_append, eq]⟩
  refine ⟨⟨?_, ?_⟩, ?_⟩
  · rintro ⟨all, ok⟩
    obtain ⟨behind, accepted, -⟩ := alike.symm.run_finish (whole.symm.trans ok)
    exact ⟨behind, accepted⟩
  · rintro ⟨behind, accepted⟩
    obtain ⟨all, ok, -⟩ := forth behind accepted
    exact ⟨all, ok⟩
  · intro all behind ok accepted
    obtain ⟨all', ok', eq⟩ := forth behind accepted
    rw [ok, Except.ok.injEq] at ok'
    rw [ok', eq]

/-- An address that is left open in a block. -/
theorem scan_block_address :
    scan "--a:url(b;//c".toList = .ok [.declaration "--a".toList "url(b;//c".toList 1] ∧
    (∀ c ∈ "d:e ".toList, isInert c) ∧ (Text.trim "d:e ".toList).head? ≠ some '@' ∧
    scan ("d:e ".toList ++ '{' :: ("--a:url(b;//c".toList ++ '\n' :: '}' :: ";f:g//h".toList)) =
      .ok [.declaration "--a".toList "url(b;//c".toList 1,
        .declaration "f".toList "g".toList 2] ∧
    ∃ behind, scan ";f:g//h".toList = .ok behind := by
  have accepted : scan "--a:url(b;//c".toList =
      .ok [.declaration "--a".toList "url(b;//c".toList 1] := by decide +kernel
  have inert : ∀ c ∈ "d:e ".toList, isInert c := by decide
  have at_ : (Text.trim "d:e ".toList).head? ≠ some '@' := by decide
  have whole : scan ("d:e ".toList ++ '{' :: ("--a:url(b;//c".toList ++
      '\n' :: '}' :: ";f:g//h".toList)) = .ok [.declaration "--a".toList "url(b;//c".toList 1,
        .declaration "f".toList "g".toList 2] := by decide +kernel
  exact ⟨accepted, inert, at_, whole, (scan_block accepted inert at_).1.mp ⟨_, whole⟩⟩

end

end StyleTokens
