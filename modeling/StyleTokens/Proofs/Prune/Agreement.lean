import StyleTokens.Proofs.Prune.SideBySide

/-!
# Where the deletion and the scanner agree

The scanner reads a stylesheet character by character and counts parentheses and braces; the
deletion looks at the lines, and takes the value of a declaration to its first semicolon outside
of strings and interpolations. So they do not agree on every declaration: a semicolon between
parentheses ends the value for the deletion, and the rest of the declaration stays behind. They
agree exactly on the declarations that have no such semicolon, no braces but those of a plain
interpolation, and closed strings on one line.

Where they agree on all declarations of a token, and where nothing else looks like one of them,
the deletion takes the statements of the token from the stylesheet and leaves all others. The
scanner is followed along the text: at the start of every line that is taken it is between two
statements, and again behind it.

## Main definitions

* `Prune.OwnLines`: every declaration of the token stands on lines of its own
* `Prune.CutsWhole`, `Prune.CutsOnly`: what is taken are the declarations of the token
* `Prune.Place`: a place between two pieces of the text, inside of no declaration of the token

## Main results

* `Prune.cutsWhole_iff`: on which declarations the deletion and the scanner agree
* `Prune.Place.follows`: where they agree, the deletion follows the scanner
* `Prune.scan_prune`: the statements of what is left
* `Prune.scan_prune_address`: an address with a semicolon is cut in two
-/

namespace StyleTokens.Prune

variable {token source pre lead b d rest : Text} {n : Nat} {s : Scanner}

/-! ## Declarations on lines of their own -/

/-- Every declaration of the token starts behind the spaces and tabs of a line, and is ended by a
semicolon. -/
structure OwnLines (token source : Text) : Prop where
  line : ∀ n d, declarationAt? token source n = some d →
    startsLine (Text.dropEndWhile isIndent (source.take n)).getLast?
  semicolon : ∀ n d, declarationAt? token source n = some d → d.getLast? = some ';'
  closed : (Scanner.run {} source).map (fun s => s.found.filter (·.declares token)) =
    (scan source).map (List.filter (·.declares token))

theorem ownLines_iff : OwnLines token source ↔
    (∀ n < source.length, ∀ d ∈ declarationAt? token source n,
      startsLine (Text.dropEndWhile isIndent (source.take n)).getLast? ∧ d.getLast? = some ';') ∧
    (Scanner.run {} source).map (fun s => s.found.filter (·.declares token)) =
      (scan source).map (List.filter (·.declares token)) := by
  constructor
  · rintro ⟨line, semicolon, closed⟩
    exact ⟨fun n _ d h => ⟨line n d h, semicolon n d h⟩, closed⟩
  · rintro ⟨each, closed⟩
    exact ⟨fun n d h => (each n (declarationAt?_lt h) d h).1,
      fun n d h => (each n (declarationAt?_lt h) d h).2, closed⟩

instance : Decidable (OwnLines token source) := decidable_of_iff' _ ownLines_iff

/-- The declaration `d` of the token stands behind the indentation `b` of a line. -/
structure OwnLine (token lead b d rest : Text) : Prop where
  declared : declarationAt? token (lead ++ (b ++ (d ++ rest))) (lead ++ b).length = some d
  indent : ∀ c ∈ b, isIndent c
  start : startsLine lead.getLast?

theorem OwnLines.exists_ownLine (own : OwnLines token source)
    (h : declarationAt? token source n = some d) : ∃ lead b rest,
      source = lead ++ (b ++ (d ++ rest)) ∧ (lead ++ b).length = n ∧
        OwnLine token lead b d rest := by
  obtain ⟨before, rest, s, s', rfl, rfl, -⟩ := declarationAt?_eq_some h
  have split : Text.dropEndWhile isIndent before ++ before.rtakeWhile isIndent = before :=
    List.rdropWhile_append_rtakeWhile
  have start := own.line _ _ h
  rw [List.take_left] at start
  refine ⟨Text.dropEndWhile isIndent before, before.rtakeWhile isIndent, rest,
    ?_, ?_, ?_, ?_, start⟩
  · rw [← List.append_assoc (Text.dropEndWhile isIndent before), split]
  · rw [split]
  · rw [← List.append_assoc (Text.dropEndWhile isIndent before), split]
    exact h
  · exact fun c hc => List.mem_rtakeWhile_imp hc

/-- The scanner is between two statements at the start of the line. -/
theorem OwnLine.exists_scanners (h : OwnLine token lead b d rest) : ∃ s₀ s s',
    Scanner.run {} lead = .ok s₀ ∧ s₀.run b = .ok s ∧ s₀.Idles s ∧
      DeclaredAt token (lead ++ b) d s s' := by
  obtain ⟨before, rest', s, s', eq, length, declared⟩ := declarationAt?_eq_some h.declared
  rw [← List.append_assoc] at eq
  obtain ⟨rfl, -⟩ := List.append_inj eq length.symm
  -- only blanks stand between the start of the line and the declaration
  obtain ⟨s₀, read, indent⟩ := Scanner.run_append_eq_ok_iff.mp declared.run_eq
  have sound := Scanner.run_sound Scanner.fresh_initial.sound read
  exact ⟨s₀, s, s', read, indent, Scanner.idles_of_indent sound h.indent indent declared.fresh,
    declared⟩

/-! ## What is taken -/

/-- Every declaration of the token is taken as a whole, and nothing but blanks with it. -/
def CutsWhole (token source : Text) : Prop :=
  ∀ lead b d rest, source = lead ++ (b ++ (d ++ rest)) → OwnLine token lead b d rest →
    declarationRule token lead.getLast? (b ++ (d ++ rest)) =
      some ⟨b ++ (d ++ rest.take (trailLength rest)), ()⟩

/-- Whatever is taken starts with a declaration of the token. -/
def CutsOnly (token source : Text) : Prop :=
  ∀ hit ∈ (declarationRule token).found source,
    (declarationAt? token source
      (hit.1 + ((source.drop hit.1).takeWhile isIndent).length)).isSome

instance : Decidable (CutsOnly token source) :=
  inferInstanceAs (Decidable (∀ hit ∈ (declarationRule token).found source, _))

theorem OwnLine.taken_iff (ht : IsToken token) (h : OwnLine token lead b d rest)
    (last : d.getLast? = some ';') :
    declarationRule token lead.getLast? (b ++ (d ++ rest)) =
        some ⟨b ++ (d ++ rest.take (trailLength rest)), ()⟩ ↔ Spelled token d := by
  refine declarationRule_eq_iff ht h.start h.indent ?_ last
  obtain ⟨_, s, s', -, -, -, declared⟩ := h.exists_scanners
  cases d with
  | nil => nofun
  | cons c t =>
    rintro _ ⟨⟩
    cases t with
    -- a declaration of one character would be the semicolon
    | nil =>
      cases last
      decide
    | cons e t => exact declared.next.not_isIndent declared.fresh (by simp)

/-- **The ends agree exactly if the declarations are spelled so.** -/
theorem cutsWhole_iff (ht : IsToken token) (own : OwnLines token source) :
    CutsWhole token source ↔ ∀ n d, declarationAt? token source n = some d → Spelled token d := by
  constructor
  · intro whole n d h
    obtain ⟨lead, b, rest, rfl, -, line⟩ := own.exists_ownLine h
    exact (line.taken_iff ht (own.semicolon n d h)).mp (whole lead b d rest rfl line)
  · rintro spelled lead b d rest rfl line
    exact (line.taken_iff ht (own.semicolon _ d line.declared)).mpr (spelled _ d line.declared)

/-! ## Along the text -/

/-- No declaration of the token has started before the place and ends behind it. -/
def Clear (token source pre : Text) : Prop :=
  ∀ lead b d rest, source = lead ++ (b ++ (d ++ rest)) → OwnLine token lead b d rest →
    pre.length ≤ lead.length ∨ (lead ++ (b ++ d)).length ≤ pre.length

theorem Spelled.two_le (ht : IsToken token) (h : Spelled token d) : 2 ≤ d.length := by
  obtain ⟨blanks, v, rfl, -⟩ := h
  have := List.length_pos_iff.mpr ht.nonempty
  simp
  omega

/-- A declaration of the token is found only where it ends. -/
theorem Clear.found_eq (ht : IsToken token) (own : OwnLines token source)
    (spelled : ∀ n d, declarationAt? token source n = some d → Spelled token d)
    {c : Char} {s' : Scanner} (eq : source = pre ++ c :: rest) (clear : Clear token source pre)
    (read : Scanner.run {} pre = .ok s) (step : s.step c = .ok s') :
    s'.found.filter (·.declares token) = s.found.filter (·.declares token) := by
  have sound := Scanner.run_sound Scanner.fresh_initial.sound read
  rcases (Scanner.step_moves sound step).cases with stays | ⟨-, ⟨x, found⟩, -⟩
  · rw [stays.1]
  have none_declared : ¬(s'.found.drop s.found.length).any (·.declares token) := by
    intro declares
    obtain ⟨n, d, declared, length⟩ := exists_declarationAt? read step declares rest
    rw [← eq] at declared
    -- it has started before the place, so it cannot end behind it
    obtain ⟨lead, b, rest', eq', length', line⟩ := own.exists_ownLine declared
    have two_le := (spelled n d declared).two_le ht
    rcases clear lead b d rest' eq' line with before | ended
    · rw [List.length_append] at length'
      omega
    · simp only [List.length_append] at length' ended
      omega
  rw [found, List.drop_left] at none_declared
  have none_new : x.toList.filter (·.declares token) = [] := by
    rw [List.filter_eq_nil_iff]
    simpa using none_declared
  rw [found, List.filter_append, none_new, List.append_nil]

/-- At a place where nothing is taken, no declaration of the token starts. -/
theorem Clear.keep (whole : CutsWhole token source) {c : Char} (eq : source = pre ++ c :: rest)
    (clear : Clear token source pre)
    (left : declarationRule token pre.getLast? (c :: rest) = none) :
    Clear token source (pre ++ [c]) := by
  intro lead b d rest' eq' line
  rcases clear lead b d rest' eq' line with before | ended
  · rcases Nat.lt_or_eq_of_le before with before | same
    · left
      rw [List.length_append]
      exact before
    · -- the declaration would start here, and be taken
      obtain ⟨rfl, tail⟩ := List.append_inj (eq.symm.trans eq') same
      have taken := whole pre b d rest' eq' line
      rw [← tail, left] at taken
      cases taken
  · right
    exact ended.trans (by simp)

/-- Inside of what is taken, no line starts between two statements. -/
theorem OwnLine.not_fresh (line : OwnLine token pre b d rest) (last : d.getLast? = some ';')
    {x y : Text} (split : b ++ (d ++ rest.take (trailLength rest)) = x ++ '\n' :: y) (ne : y ≠ [])
    (read : Scanner.run {} (pre ++ (x ++ ['\n'])) = .ok s) : ¬s.Fresh := by
  obtain ⟨_, s₁, s₂, -, -, -, declared⟩ := line.exists_scanners
  -- the break stands neither in the indentation nor in what trails the declaration
  obtain ⟨x, rfl, within⟩ : ∃ x', x = b ++ x' ∧
      d ++ rest.take (trailLength rest) = x' ++ '\n' :: y := by
    rcases List.append_eq_append_iff.mp split with h | ⟨e, front, more⟩
    · exact h
    cases e with
    | nil => exact ⟨[], by simpa using front.symm, more.symm⟩
    | cons c e =>
      rw [List.cons_append, List.cons.injEq] at more
      exact absurd (line.indent '\n' (by rw [front, ← more.1]; simp)) (by decide)
  -- So it stands in the declaration, which the scanner reads without a pause.
  obtain ⟨z, rfl⟩ : ∃ z, d = x ++ '\n' :: z := by
    rcases List.append_eq_append_iff.mp within with ⟨e, -, more⟩ | ⟨e, front, more⟩
    · exact absurd (eq_nil_of_trail more) ne
    cases e with
    | nil => exact absurd (eq_nil_of_trail (u := []) more.symm) ne
    | cons c e =>
      rw [List.cons_append, List.cons.injEq] at more
      exact ⟨e, more.1 ▸ front⟩
  have more : z ≠ [] := by
    rintro rfl
    simp at last
  have read' : s₁.run (x ++ ['\n']) = .ok s := by
    have whole : Scanner.run {} ((pre ++ b) ++ (x ++ ['\n'])) = .ok s := by simpa using read
    rwa [Scanner.run_append declared.run_eq] at whole
  exact declared.next.inside (x ++ ['\n']) z (by simp) more _ s (by simp) List.prefix_rfl read'

/-- Behind a line that is taken, no declaration of the token has started. -/
theorem Clear.cut (own : OwnLines token source) (whole : CutsWhole token source)
    (eq : source = pre ++ (b ++ (d ++ rest))) (line : OwnLine token pre b d rest)
    (clear : Clear token source pre) :
    Clear token source (pre ++ (b ++ (d ++ rest.take (trailLength rest)))) := by
  have taken := whole pre b d rest eq line
  have last := own.semicolon _ d (eq ▸ line.declared)
  intro lead b' d' rest' eq' line'
  rcases clear lead b' d' rest' eq' line' with before | ended
  swap
  · right
    exact ended.trans (by simp)
  by_cases behind : (pre ++ (b ++ (d ++ rest.take (trailLength rest)))).length ≤ lead.length
  · exact .inl behind
  -- the line starts at the place, or inside of what is taken there
  have front : lead <+: pre ++ (b ++ (d ++ rest.take (trailLength rest))) := by
    have read : pre ++ (b ++ (d ++ rest.take (trailLength rest))) <+: source := by
      rw [eq]
      simpa using List.take_prefix _ rest
    exact List.prefix_of_prefix_length_le ⟨_, eq'.symm⟩ read (by omega)
  obtain ⟨x, rfl⟩ : pre <+: lead :=
    List.prefix_of_prefix_length_le ⟨_, eq.symm⟩ ⟨_, eq'.symm⟩ before
  obtain ⟨y, split⟩ := front
  rw [List.append_assoc, List.append_cancel_left_eq] at split
  rcases List.eq_nil_or_concat' x with rfl | ⟨x, c, rfl⟩
  · -- the same line is taken
    have taken' := whole (pre ++ []) b' d' rest' eq' line'
    rw [List.append_nil] at taken' eq'
    have same := List.append_cancel_left (eq.symm.trans eq')
    rw [← same, taken, Option.some.injEq, Hit.mk.injEq] at taken'
    right
    rw [taken'.1]
    simp
  · have newline : c = '\n' := by
      have start := line'.start
      rw [← List.append_assoc, List.getLast?_concat] at start
      simpa [startsLine] using start
    subst newline
    obtain ⟨s₀, _, _, read, -, idles, -⟩ := line'.exists_scanners
    refine absurd idles.left (line.not_fresh last (x := x) (y := y) ?_ ?_ read)
    · rw [← split]
      simp
    · rintro rfl
      rw [List.append_nil] at split
      exact behind (by rw [split])

/-- A line that is taken leads from between two statements to between two statements, and finds
nothing but a declaration of the token. -/
theorem OwnLine.exists_run (line : OwnLine token pre b d rest) (last : d.getLast? = some ';')
    (read : Scanner.run {} pre = .ok s) :
    ∃ s', s.run (b ++ (d ++ rest.take (trailLength rest))) = .ok s' ∧ Passes token s s' := by
  obtain ⟨s₀, s₁, s₂, read₀, indent, idles, declared⟩ := line.exists_scanners
  obtain rfl : s = s₀ := by
    rw [read] at read₀
    cases read₀
    rfl
  have blank : ∀ c ∈ rest.take (trailLength rest), isBlank c := by
    intro c hc
    rcases mem_trail hc with indent | rfl | rfl
    · exact isBlank_of_isIndent indent
    · decide
    · decide
  -- The indentation and what trails the declaration are blanks, which change nothing.
  obtain ⟨s₃, trail, idles'⟩ := declared.next.fresh.run_blanks blank
  obtain ⟨x, declares, found⟩ := declared.found
  refine ⟨s₃, ?_, idles.left, idles'.right, ?_, ?_⟩
  · rw [Scanner.run_append indent, Scanner.run_append declared.next.run_eq, trail]
  · rw [idles'.openBlocks, declared.next.openBlocks last, idles.openBlocks]
  · rw [idles'.found, found, idles.found, List.filter_append]
    simp [declares]

theorem startsLine_of_declarationRule {before : Option Char} {h : Hit Unit}
    (hit : declarationRule token before rest = some h) : startsLine before := by
  unfold declarationRule at hit
  split_ifs at hit with start
  exact start

/-- A place between two pieces of the source: the scanner has read what is behind it, which is no
part of a declaration of the token. -/
structure Place (token source pre rest : Text) (s : Scanner) : Prop where
  eq : source = pre ++ rest
  read : Scanner.run {} pre = .ok s
  pieces : ∃ left, (declarationRule token).pieces source =
    left ++ (declarationRule token).piecesFrom 0 pre.getLast? rest ∧ left.flatMap Piece.source = pre
  clear : Clear token source pre

theorem place_initial : Place token source [] source {} where
  eq := rfl
  read := rfl
  pieces := ⟨[], rfl, rfl⟩
  clear := fun _ _ _ _ _ _ => .inl (Nat.zero_le _)

theorem Place.pieces_append (taken : Text) (piece : Piece Unit)
    (h : Place token source pre (taken ++ rest) s) (hp : piece.source = taken)
    (next : (declarationRule token).piecesFrom 0 pre.getLast? (taken ++ rest) =
      piece :: (declarationRule token).piecesFrom 0 (pre ++ taken).getLast? rest) :
    ∃ left, (declarationRule token).pieces source =
      left ++ (declarationRule token).piecesFrom 0 (pre ++ taken).getLast? rest ∧
        left.flatMap Piece.source = pre ++ taken := by
  obtain ⟨left, pieces, front⟩ := h.pieces
  refine ⟨left ++ [piece], ?_, ?_⟩
  · rw [pieces, next, List.append_assoc, List.singleton_append]
  · rw [List.flatMap_append, front, List.flatMap_singleton, hp]

/-- At a place where something is taken, a declaration of the token stands on a line of its own. -/
theorem Place.exists_ownLine (h : Place token source pre rest s) (only : CutsOnly token source)
    (ne : rest ≠ []) {hit : Hit Unit}
    (taken : declarationRule token pre.getLast? rest = some hit) :
    ∃ b d rest', rest = b ++ (d ++ rest') ∧ OwnLine token pre b d rest' := by
  have mem : (pre.length, ()) ∈ (declarationRule token).found source := by
    obtain ⟨left, pieces, front⟩ := h.pieces
    obtain ⟨c, rest, rfl⟩ := List.exists_cons_of_ne_nil ne
    rw [Rule.piecesFrom, taken] at pieces
    have found := Rule.mem_foundFrom left
      ((declarationRule token).piecesFrom (hit.taken.length - 1) (some c) rest) hit 0
    rwa [front, Nat.zero_add, ← pieces] at found
  have indent : ∀ c ∈ rest.takeWhile isIndent, isIndent c := fun c => List.mem_takeWhile_imp
  have tail := List.takeWhile_append_dropWhile (p := isIndent) (l := rest)
  -- The declaration stands behind the indentation that is taken with it.
  obtain ⟨d, declared⟩ := Option.isSome_iff_exists.mp (only _ mem)
  rw [h.eq, List.drop_left, ← List.length_append] at declared
  obtain ⟨before, rest', -, -, eq', length, -⟩ := declarationAt?_eq_some declared
  rw [← tail, ← List.append_assoc] at eq'
  obtain ⟨-, same⟩ := List.append_inj eq' length.symm
  refine ⟨rest.takeWhile isIndent, d, rest', ?_, ?_, indent, startsLine_of_declarationRule taken⟩
  · rw [← same, tail]
  · rw [← same, tail]
    exact declared

/-- A character that is left alone leads to the next place. -/
theorem Place.keep {c : Char} (h : Place token source pre (c :: rest) s)
    (whole : CutsWhole token source)
    (left : declarationRule token pre.getLast? (c :: rest) = none) {s' : Scanner}
    (step : s.step c = .ok s') : Place token source (pre ++ [c]) rest s' where
  eq := by simpa using h.eq
  read := Scanner.run_append_eq_ok_iff.mpr ⟨s, h.read, Scanner.run_cons step⟩
  pieces := by
    refine Place.pieces_append [c] (.plain c) h rfl ?_
    rw [List.getLast?_concat]
    exact Rule.piecesFrom_plain left
  clear := h.clear.keep whole h.eq left

/-- Where something is taken, a whole line is, and it leads to the next place. -/
theorem Place.exists_cut (h : Place token source pre rest s) (own : OwnLines token source)
    (whole : CutsWhole token source) (only : CutsOnly token source) (ne : rest ≠ [])
    {hit : Hit Unit} (taken : declarationRule token pre.getLast? rest = some hit) :
    ∃ line rest' s', rest = line ++ rest' ∧ line ≠ [] ∧
      declarationRule token pre.getLast? rest = some ⟨line, ()⟩ ∧ s.run line = .ok s' ∧
      Passes token s s' ∧ Place token source (pre ++ line) rest' s' := by
  obtain ⟨b, d, rest, rfl, line⟩ := h.exists_ownLine only ne taken
  have last := own.semicolon _ d (h.eq ▸ line.declared)
  obtain ⟨s', read, passes⟩ := line.exists_run last h.read
  have clear := h.clear.cut own whole h.eq line
  have hit := whole pre b d rest h.eq line
  have split : b ++ (d ++ rest) =
      (b ++ (d ++ rest.take (trailLength rest))) ++ rest.drop (trailLength rest) := by simp
  have ne : b ++ (d ++ rest.take (trailLength rest)) ≠ [] := by
    rintro nil
    rw [List.append_eq_nil_iff, List.append_eq_nil_iff] at nil
    rw [nil.2.1] at last
    cases last
  -- The next place is behind the line, where the pieces go on.
  refine ⟨_, _, s', split, ne, hit, read, passes, ?_⟩
  rw [split] at h hit
  exact
    { eq := by rw [h.eq, List.append_assoc pre]
      read := Scanner.run_append_eq_ok_iff.mpr ⟨s, h.read, read⟩
      pieces := by
        refine h.pieces_append _ (.hit ⟨_, ()⟩) rfl ?_
        rw [List.getLast?_append_of_ne_nil _ ne]
        exact Rule.piecesFrom_hit hit ne
      clear := clear }

/-- **The deletion follows the scanner** from every place, if the two agree on the declarations of
the token. -/
theorem Place.follows (ht : IsToken token) (own : OwnLines token source)
    (whole : CutsWhole token source) (only : CutsOnly token source) {s' : Scanner}
    (place : Place token source pre rest s) (read : s.run rest = .ok s') :
    Follows token pre.getLast? s rest := by
  -- Induction on the text that is left: a piece is a character or a whole line.
  induction length : rest.length using Nat.strongRecOn generalizing pre rest s with
  | ind n ih =>
    subst length
    cases rest with
    | nil => exact .nil
    | cons c rest =>
      cases hit : declarationRule token pre.getLast? (c :: rest) with
      | none =>
        obtain ⟨s₁, step, read⟩ := Scanner.run_cons_eq_ok_iff.mp read
        have spelled := (cutsWhole_iff ht own).mp whole
        -- nothing is taken here, so no declaration of the token starts here or ends here
        have found := place.clear.found_eq ht own spelled place.eq place.read step
        have tail := ih rest.length (by simp) (place.keep whole hit step) read rfl
        rw [List.getLast?_concat] at tail
        exact .keep hit step found tail
      | some h =>
        obtain ⟨line, rest', s₁, eq, ne, hit, taken, passes, next⟩ :=
          place.exists_cut own whole only (by simp) hit
        rw [eq] at hit read ih ⊢
        rw [Scanner.run_append taken] at read
        have shorter : rest'.length < (line ++ rest').length := by
          have := List.length_pos_iff.mpr ne
          rw [List.length_append]
          omega
        have tail := ih rest'.length shorter next read rfl
        rw [List.getLast?_append_of_ne_nil _ ne] at tail
        exact .cut hit ne taken passes tail

/-- **The deletion and the scanner agree on where the declarations of a token end exactly if the
declarations are spelled** as the token, spaces and tabs, a colon, and a value whose first
semicolon outside of strings and interpolations is its end. If so, and if nothing else is taken,
what is left is read as the other statements. -/
theorem scan_prune (ht : IsToken token) (own : OwnLines token source)
    {statements : List Statement} (accepted : scan source = .ok statements) :
    (CutsWhole token source ↔
      ∀ n d, declarationAt? token source n = some d → Spelled token d) ∧
    (CutsWhole token source → CutsOnly token source →
      ∃ left, scan (prune [token] source).1 = .ok left ∧ Kept token statements left) := by
  refine ⟨cutsWhole_iff ht own, fun whole only => ?_⟩
  obtain ⟨s, read, finish⟩ := exists_finish accepted
  -- No declaration of the token is left to the end of the text.
  have same : statements.filter (·.declares token) = s.found.filter (·.declares token) := by
    have closed := own.closed
    rw [read, accepted] at closed
    exact (Except.ok.inj closed).symm
  exact (place_initial.follows ht own whole only read).scan read finish same

/-- A value on two lines, with semicolons in an interpolation and in a string, behind an address
with a semicolon. -/
def ruledSheet : Text :=
  "a \x7b\n  --u: url(p;q);\n\t--t : #\x7bx;y\x7d ';',\n    c; \n  b: var(--t);\n\x7d\n".toList

theorem scan_prune_ruledSheet : IsToken "--t".toList ∧ OwnLines "--t".toList ruledSheet ∧
    CutsOnly "--t".toList ruledSheet ∧ ∃ left,
      scan (prune ["--t".toList] ruledSheet).1 = .ok left ∧
        Kept "--t".toList
          [.declaration "--u".toList "url(p;q)".toList 2,
            .declaration "--t".toList "#\x7bx;y\x7d ';',\n    c".toList 3,
            .declaration "b".toList "var(--t)".toList 5] left := by
  have ht : IsToken "--t".toList := ⟨by decide, by decide⟩
  have own : OwnLines "--t".toList ruledSheet := by decide +kernel
  have only : CutsOnly "--t".toList ruledSheet := by decide +kernel
  have accepted : scan ruledSheet = .ok
      [.declaration "--u".toList "url(p;q)".toList 2,
        .declaration "--t".toList "#\x7bx;y\x7d ';',\n    c".toList 3,
        .declaration "b".toList "var(--t)".toList 5] := by
    decide +kernel
  -- The token is declared once, on two lines.
  obtain ⟨ends, result⟩ := scan_prune ht own accepted
  have single : ∀ n < ruledSheet.length, ∀ d ∈ declarationAt? "--t".toList ruledSheet n,
      d = "--t : #\x7bx;y\x7d ';',\n    c;".toList := by
    decide +kernel
  have spelled : ∀ n d, declarationAt? "--t".toList ruledSheet n = some d →
      Spelled "--t".toList d := by
    intro n d h
    obtain rfl := single n (declarationAt?_lt h) d h
    exact ⟨" ".toList, " #\x7bx;y\x7d ';',\n    c".toList, rfl, by decide, by decide⟩
  exact ⟨ht, own, only, result (ends.mpr spelled) only⟩

/-- A declaration whose address holds a semicolon. -/
def addressSheet : Text :=
  "a \x7b\n  --t: url(data:x;a:b);\n\x7d\n".toList

/-- **A semicolon between parentheses ends the value for the deletion, but not for the scanner.**
The declaration stands on a line of its own, ended by a semicolon and outside of comments and
strings. What is left of it is a declaration of something else. -/
theorem scan_prune_address : IsToken "--t".toList ∧ OwnLines "--t".toList addressSheet ∧
    (∀ n < addressSheet.length, "--t".toList <+: addressSheet.drop n →
      (Scanner.run {} (addressSheet.take n)).toOption.any Scanner.inText = false) ∧
    scan addressSheet = .ok [.declaration "--t".toList "url(data:x;a:b)".toList 2] ∧
    ¬∃ left, scan (prune ["--t".toList] addressSheet).1 = .ok left ∧
      Kept "--t".toList [.declaration "--t".toList "url(data:x;a:b)".toList 2] left := by
  refine ⟨⟨by decide, by decide⟩, by decide +kernel, by decide +kernel, by decide +kernel, ?_⟩
  rintro ⟨left, accepted, kept⟩
  have rest : scan (prune ["--t".toList] addressSheet).1 =
      .ok [.declaration "a".toList "b)".toList 2] := by
    decide +kernel
  rw [rest] at accepted
  cases accepted
  exact absurd kept (by decide +kernel)

end StyleTokens.Prune
