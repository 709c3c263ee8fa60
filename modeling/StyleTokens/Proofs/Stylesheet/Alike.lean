import StyleTokens.Proofs.Stylesheet.Run

/-!
# Scanners that go on alike

What the scanner does next depends on little of what it has read: not on the numbers of the lines,
not on the blanks in front of the statement, and not on the statements found before. Two scanners
that differ in nothing else go on alike along every text: they fail together, and they find the
same statements, line numbers aside.

## Main definitions

* `Statement.unplaced`: a statement without its line number
* `Scanner.Alike`: two scanners that go on alike

## Main results

* `Scanner.Alike.step`: two scanners that are alike stay so by every character
* `Scanner.Alike.finish`: at the end they have found the same statements
-/

namespace StyleTokens

/-! ## Statements without their lines -/

namespace Statement

variable {t : Text} {opensBlock : Bool}

/-- The statement without its line number. -/
def unplaced : Statement → Statement
  | .declaration property value _ => .declaration property value 0
  | .atRule name params _ opensBlock => .atRule name params 0 opensBlock

/-- What a text spells does not depend on its line. -/
theorem unplaced_ofText (m n : Nat) :
    (ofText t m opensBlock).map unplaced = (ofText t n opensBlock).map unplaced := by
  unfold ofText
  split
  · rfl
  · unfold atRule?
    dsimp only
    split_ifs <;> rfl
  · unfold declaration?
    dsimp only
    split_ifs <;> rfl

end Statement

/-! ## Statements being read -/

/-- What the scanner is inside of, without the line on which it was opened. -/
def ScanMode.unplaced : ScanMode → ScanMode
  | .blockComment _ star => .blockComment 0 star
  | .quoted quote _ escaped => .quoted quote 0 escaped
  | mode => mode

namespace StatementBuffer

variable {a b : StatementBuffer} {c : Char}

/-- Two buffers with the same characters behind the blanks in front of them. -/
def Alike (a b : StatementBuffer) : Prop :=
  ∃ shared x y, a.latest = shared ++ x ∧ b.latest = shared ++ y ∧
    (∀ c ∈ x, isBlank c) ∧ ∀ c ∈ y, isBlank c

/-- Two buffers of blanks are alike. -/
theorem alike_of_blank (ha : ∀ c ∈ a.text, isBlank c) (hb : ∀ c ∈ b.text, isBlank c) :
    a.Alike b :=
  ⟨[], a.latest, b.latest, rfl, rfl, fun c hc => ha c (List.mem_reverse.mpr hc),
    fun c hc => hb c (List.mem_reverse.mpr hc)⟩

theorem Alike.add (h : a.Alike b) (c : Char) (m n : Nat) : (a.add c m).Alike (b.add c n) := by
  obtain ⟨shared, x, y, ha, hb, hx, hy⟩ := h
  refine ⟨c :: shared, x, y, ?_, ?_, hx, hy⟩
  · simp [StatementBuffer.add, ha]
  · simp [StatementBuffer.add, hb]

theorem Alike.trim_eq (h : a.Alike b) : Text.trim a.text = Text.trim b.text := by
  obtain ⟨shared, x, y, ha, hb, hx, hy⟩ := h
  rw [text, text, ha, hb, List.reverse_append, List.reverse_append,
    Text.trim_blanks_append _ (by simpa using hx), Text.trim_blanks_append _ (by simpa using hy)]

/-- The buffer of which a statement remains that is all blank holds blanks only. -/
theorem Alike.blank (h : a.Alike b) (ha : ∀ c ∈ a.text, isBlank c) : ∀ c ∈ b.text, isBlank c := by
  obtain ⟨shared, x, y, eqa, eqb, -, hy⟩ := h
  intro c hc
  rw [text, List.mem_reverse, eqb, List.mem_append] at hc
  refine hc.elim (fun hc => ha c ?_) (hy c)
  rw [text, List.mem_reverse, eqa, List.mem_append]
  exact .inl hc

theorem toLower_ne_of_isBlank (h : isBlank c) : c.toLower ∉ "url".toList := by
  have visible : ∀ c ∈ "urlURL".toList, ¬isBlank c := by decide
  exact fun mem => visible c (mem_of_toLower_mem_url mem) h

/-- Blanks in front of a statement are no part of an address. -/
theorem endsInUrl_append {shared x : Text} (h : ∀ c ∈ x, isBlank c) {m n : Option Nat} :
    endsInUrl ⟨shared ++ x, m⟩ = endsInUrl ⟨shared, n⟩ := by
  have blank : ∀ {c d e : Char}, isBlank c ∨ isBlank d ∨ isBlank e →
      ([c, d, e].map Char.toLower == "url".toList) = false := by
    intro c d e hb
    rw [beq_eq_false_iff_ne]
    intro eq
    have mem : ∀ {f}, f ∈ [c, d, e] → f.toLower ∈ "url".toList := by
      intro f hf
      exact eq ▸ List.mem_map_of_mem hf
    rcases hb with hb | hb | hb
    · exact toLower_ne_of_isBlank hb (mem (by simp))
    · exact toLower_ne_of_isBlank hb (mem (by simp))
    · exact toLower_ne_of_isBlank hb (mem (by simp))
  -- Three characters in front decide. With fewer of them, a blank is among the last three, or there
  -- are no three.
  match shared, x with
  | _ :: _ :: _ :: _, _ => rfl
  | [], [] | [], [_] | [], [_, _] | [_], [] | [_], [_] | [_, _], [] => rfl
  | [], c :: _ :: _ :: _ => exact blank (.inr (.inr (h c (by simp))))
  | [_], c :: _ :: _ => exact blank (.inr (.inl (h c (by simp))))
  | [_, _], c :: _ => exact blank (.inl (h c (by simp)))

theorem Alike.endsInUrl_eq (h : a.Alike b) : a.endsInUrl = b.endsInUrl := by
  obtain ⟨shared, x, y, ha, hb, hx, hy⟩ := h
  obtain ⟨_, m⟩ := a
  obtain ⟨_, n⟩ := b
  subst ha hb
  rw [endsInUrl_append hx (n := none), endsInUrl_append hy (n := none)]

end StatementBuffer

namespace Scanner

variable {s s' : Scanner} {f f' : List Statement} {c : Char}

/-! ## One character -/

/-- Two scanners that go on alike. Since the lists `f` and `f'` were found, they have found the
same statements. -/
structure Alike (f f' : List Statement) (s s' : Scanner) : Prop where
  mode : s.mode.unplaced = s'.mode.unplaced
  buffer : s.buffer.Alike s'.buffer
  openBlocks : s.openBlocks.length = s'.openBlocks.length
  interpolation : s.interpolation = s'.interpolation
  parens : s.parens = s'.parens
  urlParen : s.urlParen = s'.urlParen
  found : ∃ new, s.found.map Statement.unplaced = f.map Statement.unplaced ++ new ∧
    s'.found.map Statement.unplaced = f'.map Statement.unplaced ++ new

/-- Two scanners that go on alike, or fail together. -/
def AlikeResult (f f' : List Statement) : (r r' : Except ScanError Scanner) → Prop
  | .ok s, .ok s' => Alike f f' s s'
  | .error _, .error _ => True
  | _, _ => False

namespace Alike

theorem symm (h : Alike f f' s s') : Alike f' f s' s := by
  obtain ⟨shared, x, y, hs, hs', hx, hy⟩ := h.buffer
  obtain ⟨new, found, found'⟩ := h.found
  exact ⟨h.mode.symm, ⟨shared, y, x, hs', hs, hy, hx⟩, h.openBlocks.symm, h.interpolation.symm,
    h.parens.symm, h.urlParen.symm, new, found', found⟩

theorem withMode (h : Alike f f' s s') {m m' : ScanMode} (eq : m.unplaced = m'.unplaced)
    (n n' : Nat) : Alike f f' { s with mode := m, line := n } { s' with mode := m', line := n' } :=
  ⟨eq, h.buffer, h.openBlocks, h.interpolation, h.parens, h.urlParen, h.found⟩

theorem add (h : Alike f f' s s') (c : Char) : Alike f f' (s.add c) (s'.add c) :=
  ⟨h.mode, h.buffer.add c _ _, h.openBlocks, h.interpolation, h.parens, h.urlParen, h.found⟩

theorem count (h : Alike f f' s s') (c : Char) : Alike f f' (s.count c) (s'.count c) := by
  unfold Scanner.count
  rw [h.parens, h.urlParen, h.buffer.endsInUrl_eq]
  by_cases left : c = '('
  · rw [if_pos left, if_pos left]
    exact ⟨h.mode, h.buffer, h.openBlocks, h.interpolation, rfl, rfl, h.found⟩
  rw [if_neg left, if_neg left]
  by_cases right : c = ')' && 0 < s'.parens
  · rw [if_pos right, if_pos right]
    exact ⟨h.mode, h.buffer, h.openBlocks, h.interpolation, rfl, rfl, h.found⟩
  · rw [if_neg right, if_neg right]
    exact h

theorem emit (h : Alike f f' s s') (opensBlock : Bool) :
    Alike f f' (s.emit opensBlock) (s'.emit opensBlock) := by
  refine ⟨h.mode, ⟨[], [], [], rfl, rfl, nofun, nofun⟩, h.openBlocks, h.interpolation, h.parens,
    h.urlParen, ?_⟩
  obtain ⟨new, found, found'⟩ := h.found
  simp only [Scanner.emit, List.map_append, found, found', ← Option.toList_map, h.buffer.trim_eq]
  rw [Statement.unplaced_ofText (s.buffer.line.getD 0) (s'.buffer.line.getD 0)]
  exact ⟨_, List.append_assoc .., List.append_assoc ..⟩

theorem put (h : Alike f f' s s') (c : Char) : AlikeResult f f' (s.put c) (s'.put c) := by
  have counted := h.count c
  unfold Scanner.put
  dsimp only
  rw [counted.interpolation, counted.parens]
  -- The branches are those of the definition, and the two scanners take the same one.
  by_cases inside : 0 < (s'.count c).interpolation
  · rw [if_pos inside, if_pos inside]
    have added := counted.add c
    refine ⟨added.mode, added.buffer, added.openBlocks, ?_, added.parens, added.urlParen,
      added.found⟩
    simp only [readInterpolation, counted.interpolation]
  rw [if_neg inside, if_neg inside]
  by_cases ends : c = ';' && (s'.count c).parens = 0
  · rw [if_pos ends, if_pos ends]
    exact counted.emit false
  rw [if_neg ends, if_neg ends]
  by_cases opens : c = '{'
  · rw [if_pos opens, if_pos opens]
    have ended := counted.emit true
    exact ⟨ended.mode, ended.buffer, congrArg (· + 1) ended.openBlocks, ended.interpolation, rfl,
      rfl, ended.found⟩
  rw [if_neg opens, if_neg opens]
  by_cases closes : c = '}'
  · rw [if_pos closes, if_pos closes]
    have ended := counted.emit false
    -- as many blocks are open, so a brace closes one of both or of none
    unfold closeBlock
    have blocks := counted.openBlocks
    cases eq : (s.count c).openBlocks with
    | nil =>
      cases eq' : (s'.count c).openBlocks with
      | nil => trivial
      | cons _ outer' => simp [eq, eq'] at blocks
    | cons _ outer =>
      cases eq' : (s'.count c).openBlocks with
      | nil => simp [eq, eq'] at blocks
      | cons _ outer' =>
        simp only [eq, eq', List.length_cons, Nat.add_right_cancel_iff] at blocks
        exact ⟨ended.mode, ended.buffer, blocks, ended.interpolation, rfl, rfl, ended.found⟩
  · rw [if_neg closes, if_neg closes]
    exact counted.add c

theorem code (h : Alike f f' s s') (c : Char) : AlikeResult f f' (s.code c) (s'.code c) := by
  unfold Scanner.code
  by_cases slash : c = '/'
  · rw [if_pos slash, if_pos slash]
    exact h.withMode (by rfl) _ _
  rw [if_neg slash, if_neg slash]
  by_cases hash : c = '#'
  · rw [if_pos hash, if_pos hash]
    exact h.withMode (by rfl) _ _
  rw [if_neg hash, if_neg hash]
  by_cases quote : c = '"' || c = '\x27'
  · rw [if_pos quote, if_pos quote]
    exact (h.add c).withMode (by rfl) _ _
  rw [if_neg quote, if_neg quote]
  by_cases newline : c = '\n'
  · rw [if_pos newline, if_pos newline]
    exact (h.add c).withMode h.mode _ _
  · rw [if_neg newline, if_neg newline]
    exact h.put c

/-- **Two scanners that are alike stay so by every character**, or fail together. -/
theorem step (h : Alike f f' s s') (c : Char) : AlikeResult f f' (s.step c) (s'.step c) := by
  have mode := h.mode
  unfold Scanner.step
  -- Only the line on which a comment or a string was opened may differ.
  cases eq : s.mode <;> cases eq' : s'.mode <;>
    simp only [eq, eq', ScanMode.unplaced, reduceCtorEq, ScanMode.blockComment.injEq,
      ScanMode.quoted.injEq, true_and] at mode ⊢
  case code.code => exact h.code c
  case slash.slash =>
    by_cases star : c = '*'
    · rw [if_pos star, if_pos star]
      exact h.withMode (by rfl) _ _
    rw [if_neg star, if_neg star]
    by_cases comment : c = '/' && s.urlParen = 0
    · rw [if_pos comment, if_pos (h.urlParen ▸ comment)]
      exact h.withMode (by rfl) _ _
    · rw [if_neg comment, if_neg (h.urlParen ▸ comment)]
      -- the slash that was held back opens no comment
      exact ((h.add '/').withMode (by rfl) _ _).code c
  case hash.hash =>
    by_cases brace : c = '{'
    · rw [if_pos brace, if_pos brace]
      have added := (h.add '#').add '{'
      exact ⟨rfl, added.buffer, added.openBlocks, congrArg (· + 1) h.interpolation, added.parens,
        added.urlParen, added.found⟩
    · rw [if_neg brace, if_neg brace]
      -- the hash that was held back opens no interpolation
      exact ((h.add '#').withMode (by rfl) _ _).code c
  case blockComment.blockComment start star start' star' =>
    rw [mode]
    by_cases closes : star' && c = '/'
    · rw [if_pos closes, if_pos closes]
      exact h.withMode (by rfl) _ _
    · rw [if_neg closes, if_neg closes]
      exact h.withMode (by rfl) _ _
  case lineComment.lineComment =>
    by_cases newline : c = '\n'
    · rw [if_pos newline, if_pos newline]
      -- the break ends the comment and is read as part of the statement
      exact (h.withMode (by rfl) _ _).code c
    · rw [if_neg newline, if_neg newline]
      exact h
  case quoted.quoted quote start escaped quote' start' escaped' =>
    obtain ⟨rfl, rfl⟩ := mode
    by_cases passed : escaped
    · rw [if_pos passed, if_pos passed]
      exact (h.add c).withMode (by rfl) _ _
    rw [if_neg passed, if_neg passed]
    by_cases closes : c = quote
    · rw [if_pos closes, if_pos closes]
      exact (h.add c).withMode (by rfl) _ _
    · rw [if_neg closes, if_neg closes]
      exact (h.add c).withMode (by rfl) _ _

/-- Two scanners that are alike stay so by every text, or fail together. -/
theorem run (h : Alike f f' s s') (t : Text) : AlikeResult f f' (s.run t) (s'.run t) := by
  induction t generalizing s s' with
  | nil => exact h
  | cons c t ih =>
    have first := h.step c
    rw [Scanner.run, Scanner.run, List.foldlM_cons, List.foldlM_cons]
    cases eq : s.step c <;> cases eq' : s'.step c <;>
      simp only [eq, eq', AlikeResult] at first
    case error.error => trivial
    case ok.ok => exact ih first

/-- **At the end, two scanners that are alike have found the same statements**, or the text may
not end for both. -/
theorem finish (h : Alike f f' s s') {statements : List Statement}
    (ok : s.finish = .ok statements) : ∃ statements', s'.finish = .ok statements' ∧
      ∃ new, statements.map Statement.unplaced = f.map Statement.unplaced ++ new ∧
        statements'.map Statement.unplaced = f'.map Statement.unplaced ++ new := by
  have settled : AlikeResult f f' s.settle s'.settle := by
    have mode := h.mode
    unfold settle
    cases eq : s.mode <;> cases eq' : s'.mode <;>
      simp only [eq, eq', ScanMode.unplaced, reduceCtorEq] at mode ⊢
    case code.code => exact h
    case slash.slash => exact h.add '/'
    case hash.hash => exact h.add '#'
    case blockComment.blockComment => trivial
    case lineComment.lineComment => exact h
    case quoted.quoted => trivial
  -- The end of the text asks for closed interpolations and blocks, of which as many are open.
  obtain ⟨u, eq, inside, none_open, rfl⟩ := finish_eq_ok_iff.mp ok
  rw [eq] at settled
  cases eq' : s'.settle with
  | error e => simp [eq', AlikeResult] at settled
  | ok u' =>
    rw [eq'] at settled
    have h : Alike f f' u u' := settled
    have none_open' : u'.openBlocks = [] := by simpa [none_open] using h.openBlocks.symm
    exact ⟨_, finish_eq_ok_iff.mpr ⟨u', eq', h.interpolation ▸ inside, none_open', rfl⟩,
      (h.emit false).found⟩

/-- A text that may stand behind one of two scanners that are alike may stand behind the other. -/
theorem run_finish {t : Text} (h : Alike f f' s s') {statements : List Statement}
    (ok : (s.run t >>= Scanner.finish) = .ok statements) :
    ∃ statements', (s'.run t >>= Scanner.finish) = .ok statements' ∧
      ∃ new, statements.map Statement.unplaced = f.map Statement.unplaced ++ new ∧
        statements'.map Statement.unplaced = f'.map Statement.unplaced ++ new := by
  obtain ⟨u, read, ended⟩ := bind_eq_ok_iff.mp ok
  have both := h.run t
  rw [read] at both
  cases read' : s'.run t with
  | error e => simp [read', AlikeResult] at both
  | ok u' =>
    rw [read'] at both
    exact Alike.finish both ended

theorem refl (s : Scanner) : Alike s.found s.found s s :=
  ⟨rfl, ⟨s.buffer.latest, [], [], by simp, by simp, nofun, nofun⟩, rfl, rfl, rfl, rfl, [], by simp,
    by simp⟩

/-- Two scanners that are alike and have found the same statements accept the same texts, with the
same statements. -/
theorem statements_eq (h : Alike f f s s') (t : Text) :
    ((s.run t >>= Scanner.finish).toOption.map (List.map Statement.unplaced)) =
      (s'.run t >>= Scanner.finish).toOption.map (List.map Statement.unplaced) := by
  cases ok : s.run t >>= Scanner.finish with
  | ok statements =>
    obtain ⟨statements', ok', new, eq, eq'⟩ := h.run_finish ok
    rw [ok']
    simp only [Except.toOption, Option.map_some, eq, eq']
  | error e =>
    cases ok' : s'.run t >>= Scanner.finish with
    | ok statements' =>
      obtain ⟨_, accepted, -⟩ := h.symm.run_finish ok'
      exact nomatch ok.symm.trans accepted
    | error e' => rfl

end Alike

end Scanner

end StyleTokens
