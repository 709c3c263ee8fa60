import StyleTokens.Proofs.Text.Lines
import StyleTokens.Text.Pieces

/-!
# A rule along a text

The pieces of a text are found from left to right: a character that the rule leaves alone is
followed by the pieces of the rest, and so is a hit. Where a rule looks at the starts of lines
only, a text falls into pieces line by line.

## Main definitions

* `Rule.replacedFrom`: the rest of a text with every hit replaced
* `Rule.HitsNowhere`: a text in which the rule hits at no place
* `Rule.TakesLine`: a line that the rule takes with its break, or leaves alone
* `Rule.IsBlind`, `Rule.foundAt`: rules that do not look back, and what they find behind a place

## Main results

* `Rule.piecesFrom_hit`: a hit is followed by the pieces behind it
* `Rule.hitCount_eq_zero_iff`: a rule without hits hits at no place
* `Rule.piecesFrom_append`: a text is cut in two parts one after the other
* `Rule.piecesFrom_unlines`: a rule that looks at the starts of lines cuts a text line by line
* `Rule.IsBlind.foundAt_hit`, `Rule.IsBlind.foundAt_left`: a rule that does not look back starts
  anew behind a hit, and behind a part without hits
-/

namespace StyleTokens.Rule

variable {α : Type} {rule : Rule α} {before : Option Char} {c : Char} {t u rest : Text}

/-- Characters that are taken already are passed over. -/
theorem piecesFrom_skip (rule : Rule α) (before : Option Char) (u rest : Text) :
    rule.piecesFrom u.length before (u ++ rest) =
      rule.piecesFrom 0 (u.getLast? <|> before) rest := by
  induction u generalizing before with
  | nil => rfl
  | cons c u ih =>
    rw [List.length_cons, List.cons_append, piecesFrom, ih]
    cases u with
    | nil => rfl
    | cons d u => simp [List.getLast?_cons]

theorem piecesFrom_plain (h : rule before (c :: t) = none) :
    rule.piecesFrom 0 before (c :: t) = .plain c :: rule.piecesFrom 0 (some c) t := by
  rw [piecesFrom, h]

/-- **A hit is followed by the pieces behind it.** -/
theorem piecesFrom_hit {value : α} (h : rule before (u ++ rest) = some ⟨u, value⟩) (ne : u ≠ []) :
    rule.piecesFrom 0 before (u ++ rest) =
      .hit ⟨u, value⟩ :: rule.piecesFrom 0 u.getLast? rest := by
  obtain ⟨c, u, rfl⟩ := List.exists_cons_of_ne_nil ne
  rw [List.cons_append] at h ⊢
  rw [piecesFrom, h]
  have behind := piecesFrom_skip rule (some c) u rest
  simp only [List.length_cons, Nat.add_sub_cancel, behind]
  cases u with
  | nil => rfl
  | cons d u => simp [List.getLast?_cons]

/-- The rest of a text behind the given character, with `f` of what was found in place of every
hit. -/
def replacedFrom (rule : Rule α) (f : α → Text) (before : Option Char) (t : Text) : Text :=
  (rule.piecesFrom 0 before t).flatMap (Piece.output f)

theorem replaced_eq (rule : Rule α) (f : α → Text) (t : Text) :
    rule.replaced f t = rule.replacedFrom f none t :=
  rfl

theorem replacedFrom_plain {f : α → Text} (h : rule before (c :: t) = none) :
    rule.replacedFrom f before (c :: t) = c :: rule.replacedFrom f (some c) t := by
  rw [replacedFrom, piecesFrom_plain h]
  rfl

theorem replacedFrom_hit {f : α → Text} {value : α}
    (h : rule before (u ++ rest) = some ⟨u, value⟩) (ne : u ≠ []) :
    rule.replacedFrom f before (u ++ rest) = f value ++ rule.replacedFrom f u.getLast? rest := by
  rw [replacedFrom, piecesFrom_hit h ne]
  rfl

theorem getLast?_cons_orElse (c : Char) (t : Text) (before : Option Char) :
    ((c :: t).getLast? <|> before) = (t.getLast? <|> some c) := by
  cases t <;> simp [List.getLast?_cons]

/-- A part of a text that the rule leaves alone stays in single characters. -/
theorem piecesFrom_left {u w : Text} (left : ∀ v x, u = v ++ x → x ≠ [] →
      rule (v.getLast? <|> before) (x ++ w) = none) :
    rule.piecesFrom 0 before (u ++ w) =
      u.map .plain ++ rule.piecesFrom 0 (u.getLast? <|> before) w := by
  induction u generalizing before with
  | nil => rfl
  | cons c u ih =>
    have first : rule before (c :: (u ++ w)) = none := left [] (c :: u) rfl (List.cons_ne_nil c u)
    rw [List.cons_append, piecesFrom_plain first, getLast?_cons_orElse, ih]
    · rfl
    · intro v x split ne
      rw [← getLast?_cons_orElse c v before]
      exact left (c :: v) x (congrArg (c :: ·) split) ne

theorem replacedFrom_left {f : α → Text} {u w : Text} (left : ∀ v x, u = v ++ x → x ≠ [] →
      rule (v.getLast? <|> before) (x ++ w) = none) :
    rule.replacedFrom f before (u ++ w) = u ++ rule.replacedFrom f (u.getLast? <|> before) w := by
  rw [replacedFrom, piecesFrom_left left, List.flatMap_append, List.flatMap_map]
  exact congrArg (· ++ _) (List.flatMap_singleton' u)

/-- **A text is cut in two parts one after the other**, if from no place in the first part the rule
sees anything of the second. -/
theorem piecesFrom_append (honest : rule.Honest) {u w : Text}
    (same : ∀ before x, x <:+ u → x ≠ [] → rule before (x ++ w) = rule before x) :
    rule.piecesFrom 0 before (u ++ w) =
      rule.piecesFrom 0 before u ++ rule.piecesFrom 0 (u.getLast? <|> before) w := by
  -- behind a hit the first part is shorter
  induction length : u.length using Nat.strongRecOn generalizing u before with
  | ind n ih =>
    subst length
    cases u with
    | nil => rfl
    | cons c u =>
      have here := same before (c :: u) List.suffix_rfl (List.cons_ne_nil c u)
      cases found : rule before (c :: u) with
      | none =>
        have behind : rule.piecesFrom 0 (some c) (u ++ w) = rule.piecesFrom 0 (some c) u ++
            rule.piecesFrom 0 (u.getLast? <|> some c) w := by
          refine ih u.length (by simp) (fun before x suffix => ?_) rfl
          exact same before x (suffix.trans (List.suffix_cons c u))
        rw [List.cons_append] at here ⊢
        rw [piecesFrom_plain found, piecesFrom_plain (here.trans found), behind,
          getLast?_cons_orElse, List.cons_append]
      | some hit =>
        obtain ⟨⟨rest, split⟩, ne⟩ := honest _ _ _ found
        obtain ⟨taken, value⟩ := hit
        dsimp only at split ne
        have shorter : rest.length < (c :: u).length := by
          have := List.length_pos_iff.mpr ne
          rw [← split, List.length_append]
          omega
        have behind : rule.piecesFrom 0 taken.getLast? (rest ++ w) =
            rule.piecesFrom 0 taken.getLast? rest ++
              rule.piecesFrom 0 (rest.getLast? <|> taken.getLast?) w := by
          refine ih rest.length shorter (fun before x suffix => ?_) rfl
          exact same before x (split ▸ suffix.trans (List.suffix_append taken rest))
        have last : ((taken ++ rest).getLast? <|> before) =
            (rest.getLast? <|> taken.getLast?) := by
          rw [List.getLast?_append]
          cases rest.getLast? with
          | some d => rfl
          | none => rw [List.getLast?_eq_some_getLast ne]; rfl
        rw [← split] at found here ⊢
        rw [found, List.append_assoc] at here
        rw [List.append_assoc, piecesFrom_hit here ne, piecesFrom_hit found ne, behind, last,
          List.cons_append]

theorem replacedFrom_append {f : α → Text} (honest : rule.Honest) {u w : Text}
    (same : ∀ before x, x <:+ u → x ≠ [] → rule before (x ++ w) = rule before x) :
    rule.replacedFrom f before (u ++ w) =
      rule.replacedFrom f before u ++ rule.replacedFrom f (u.getLast? <|> before) w := by
  rw [replacedFrom, piecesFrom_append honest same, List.flatMap_append]
  rfl

/-- A hit is found at the length of what stands before it. -/
theorem mem_foundFrom (left right : List (Piece α)) (h : Hit α) (start : Nat) :
    (start + (left.flatMap Piece.source).length, h.value) ∈
      foundFrom start (left ++ .hit h :: right) := by
  induction left generalizing start with
  | nil => simp [foundFrom]
  | cons piece left ih =>
    rw [List.flatMap_cons, List.length_append, ← Nat.add_assoc, List.cons_append]
    cases piece with
    | plain c => exact ih (start + 1)
    | hit g => exact List.mem_cons_of_mem _ (ih (start + g.taken.length))

/-- The rule hits nowhere in a text that stands behind the given character. -/
def HitsNowhere (rule : Rule α) (before : Option Char) (t : Text) : Prop :=
  ∀ u w, t = u ++ w → w ≠ [] → rule (u.getLast? <|> before) w = none

theorem hitsNowhere_cons : rule.HitsNowhere before (c :: t) ↔
    rule before (c :: t) = none ∧ rule.HitsNowhere (some c) t := by
  constructor
  · intro h
    refine ⟨h [] (c :: t) rfl (List.cons_ne_nil c t), fun u w eq ne => ?_⟩
    rw [← getLast?_cons_orElse c u before]
    exact h (c :: u) w (congrArg (c :: ·) eq) ne
  · rintro ⟨first, rest⟩ u w eq ne
    cases u with
    | nil =>
      obtain rfl : w = c :: t := eq.symm
      exact first
    | cons d u =>
      rw [List.cons_append, List.cons.injEq] at eq
      obtain ⟨rfl, eq⟩ := eq
      rw [getLast?_cons_orElse]
      exact rest u w eq ne

/-- A rule that hits nowhere in a text leaves it alone. -/
theorem HitsNowhere.piecesFrom_eq (h : rule.HitsNowhere before t) :
    rule.piecesFrom 0 before t = t.map .plain := by
  induction t generalizing before with
  | nil => rfl
  | cons c t ih =>
    obtain ⟨first, rest⟩ := hitsNowhere_cons.mp h
    rw [piecesFrom_plain first, ih rest, List.map_cons]

theorem HitsNowhere.replaced_eq (h : rule.HitsNowhere none t) (f : α → Text) :
    rule.replaced f t = t := by
  rw [replaced, pieces, h.piecesFrom_eq, List.flatMap_map]
  exact List.flatMap_singleton' t

/-- A rule without hits hits nowhere: the first place where it would hit is reached. -/
theorem hitCount_eq_zero_iff : rule.hitCount t = 0 ↔ rule.HitsNowhere none t := by
  have values : ∀ before, (rule.piecesFrom 0 before t).filterMap Piece.value? = [] ↔
      rule.HitsNowhere before t := by
    induction t with
    | nil =>
      intro before
      refine iff_of_true rfl fun u w eq ne => ?_
      exact absurd (List.append_eq_nil_iff.mp eq.symm).2 ne
    | cons c t ih =>
      intro before
      rw [hitsNowhere_cons]
      cases first : rule before (c :: t) with
      | some hit => simp [piecesFrom, first, Piece.value?]
      | none =>
        rw [piecesFrom_plain first, List.filterMap_cons_none rfl, ih]
        simp
  rw [hitCount, List.length_eq_zero_iff]
  exact values none

theorem hitsNowhere_of_forall (h : ∀ before u, u <:+ t → rule before u = none)
    (before : Option Char) : rule.HitsNowhere before t :=
  fun u w eq _ => h _ w ⟨u, eq.symm⟩

theorem replaced_of_forall (h : ∀ before u, u <:+ t → rule before u = none) (f : α → Text) :
    rule.replaced f t = t :=
  (hitsNowhere_of_forall h none).replaced_eq f

theorem hitCount_of_forall (h : ∀ before u, u <:+ t → rule before u = none) :
    rule.hitCount t = 0 :=
  hitCount_eq_zero_iff.mpr (hitsNowhere_of_forall h none)

/-! ## Places that are tried one after another -/

/-- Of the places from the last one back, only the last one counts if nothing is found before it. -/
theorem findSome?_range_sub {β : Type} {g : Nat → Option β} {m n : Nat} (pos : m ≠ 0)
    (le : m ≤ n + 1) (h : ∀ k < n, g k = none) :
    ((List.range m).findSome? fun i => g (n - i)) = g n := by
  obtain ⟨m, rfl⟩ := Nat.exists_eq_succ_of_ne_zero pos
  rw [List.range_succ_eq_map, List.findSome?_cons, Nat.sub_zero]
  cases found : g n with
  | some x => rfl
  | none =>
    rw [List.findSome?_eq_none_iff]
    intro i hi
    obtain ⟨j, hj, rfl⟩ := List.mem_map.mp hi
    rw [List.mem_range] at hj
    exact h _ (by omega)

/-! ## Rules about lines -/

/-- A rule that hits only at the start of a line. -/
def AtLineStart (rule : Rule α) : Prop :=
  ∀ c t, c ≠ '\n' → rule (some c) t = none

/-- A rule takes a line with its break, or leaves it alone. -/
structure TakesLine (rule : Rule α) (value : α) (line : Text) (taken : Bool) : Prop where
  single : '\n' ∉ line
  start : ∀ before rest, (∀ c ∈ before, c = '\n') → rule before (line ++ '\n' :: rest) =
    if taken then some ⟨line ++ ['\n'], value⟩ else none

/-- The pieces of a line. -/
def linePieces (value : α) (line : Text) (taken : Bool) : List (Piece α) :=
  if taken then [.hit ⟨line ++ ['\n'], value⟩] else (line ++ ['\n']).map .plain

theorem output_linePieces (value : α) (line : Text) (taken : Bool) :
    (linePieces value line taken).flatMap (Piece.output fun _ => []) =
      if taken then [] else line ++ ['\n'] := by
  cases taken with
  | true => rfl
  | false => simp [linePieces, List.flatMap_map, Piece.output]

theorem values_linePieces (value : α) (line : Text) (taken : Bool) :
    (linePieces value line taken).filterMap Piece.value? = if taken then [value] else [] := by
  cases taken with
  | true => rfl
  | false => simp [linePieces, Piece.value?]

/-- A line that is taken or left alone falls into its pieces, and the rest is cut as before. -/
theorem TakesLine.piecesFrom_eq {value : α} {line : Text} {taken : Bool}
    (atStart : rule.AtLineStart) (h : rule.TakesLine value line taken)
    (first : ∀ c ∈ before, c = '\n') (rest : Text) :
    rule.piecesFrom 0 before (line ++ '\n' :: rest) =
      linePieces value line taken ++ rule.piecesFrom 0 (some '\n') rest := by
  have split : line ++ '\n' :: rest = (line ++ ['\n']) ++ rest := by simp
  have start := h.start before rest first
  rw [split] at start ⊢
  cases taken with
  | true =>
    rw [piecesFrom_hit start (by simp), List.getLast?_concat]
    rfl
  | false =>
    rw [piecesFrom_left, List.getLast?_concat]
    · rfl
    · intro v x eq ne
      rcases List.eq_nil_or_concat' v with rfl | ⟨v, d, rfl⟩
      · rw [← List.nil_append x, ← eq]
        exact start
      · -- behind the first character of the line, no line starts
        obtain ⟨x, e, rfl⟩ := (List.eq_nil_or_concat' x).resolve_left ne
        rw [← List.append_assoc] at eq
        have inside : line = v ++ [d] ++ x := (List.append_inj' eq rfl).1
        have other : d ≠ '\n' := by
          rintro rfl
          exact h.single (by simp [inside])
        rw [List.getLast?_concat]
        exact atStart d _ other

section

variable {β : Type} {line : β → Text} {taken : β → Bool} {value : α} {ls : List β}

/-- **A text is cut line by line**, if the rule takes each of its lines or leaves it alone. -/
theorem piecesFrom_unlines (atStart : rule.AtLineStart)
    (each : ∀ l ∈ ls, rule.TakesLine value (line l) (taken l)) (first : ∀ c ∈ before, c = '\n') :
    rule.piecesFrom 0 before (Text.unlines (ls.map line)) =
      ls.flatMap fun l => linePieces value (line l) (taken l) := by
  induction ls generalizing before with
  | nil => rfl
  | cons l ls ih =>
    rw [List.forall_mem_cons] at each
    have newline : ∀ c ∈ some '\n', c = '\n' := by
      rintro c ⟨⟩
      rfl
    rw [List.map_cons, Text.unlines_cons, each.1.piecesFrom_eq atStart first, ih each.2 newline,
      List.flatMap_cons]

/-- With nothing in their place, the lines that are taken are deleted. -/
theorem replaced_unlines (atStart : rule.AtLineStart)
    (each : ∀ l ∈ ls, rule.TakesLine value (line l) (taken l)) :
    rule.replaced (fun _ => []) (Text.unlines (ls.map line)) =
      Text.unlines ((ls.filter fun l => !taken l).map line) := by
  rw [replaced, pieces, piecesFrom_unlines atStart each (by simp)]
  clear each
  induction ls with
  | nil => rfl
  | cons l ls ih =>
    rw [List.flatMap_cons, List.flatMap_append, ih, output_linePieces]
    cases here : taken l <;> simp [here]

/-- The number of hits is the number of lines that are taken. -/
theorem hitCount_unlines (atStart : rule.AtLineStart)
    (each : ∀ l ∈ ls, rule.TakesLine value (line l) (taken l)) :
    rule.hitCount (Text.unlines (ls.map line)) = ls.countP taken := by
  rw [hitCount, values, pieces, piecesFrom_unlines atStart each (by simp)]
  clear each
  induction ls with
  | nil => rfl
  | cons l ls ih =>
    rw [List.flatMap_cons, List.filterMap_append, List.length_append, ih, values_linePieces,
      List.countP_cons, Nat.add_comm]
    cases taken l <;> rfl

end

/-! ## Rules that do not look back -/

section

variable {w : Text}

/-- What is found in a second part is found behind the first one. -/
theorem foundFrom_append (start : Nat) (ps qs : List (Piece α)) :
    foundFrom start (ps ++ qs) =
      foundFrom start ps ++ foundFrom (start + (ps.flatMap Piece.source).length) qs := by
  induction ps generalizing start with
  | nil => rfl
  | cons piece ps ih =>
    rw [List.flatMap_cons, List.length_append, ← Nat.add_assoc]
    cases piece with
    | plain c => exact ih (start + 1)
    | hit h => exact congrArg ((start, h.value) :: ·) (ih (start + h.taken.length))

/-- Nothing is found in front of the first piece. -/
theorem le_of_mem_foundFrom {start : Nat} {ps : List (Piece α)} {e : Nat × α}
    (h : e ∈ foundFrom start ps) : start ≤ e.1 := by
  induction ps generalizing start with
  | nil => cases h
  | cons piece ps ih =>
    cases piece with
    | plain c => exact Nat.le_of_succ_le (ih h)
    | hit hit =>
      rcases List.mem_cons.mp h with rfl | h
      · exact Nat.le_refl _
      · exact Nat.le_of_add_right_le (ih h)

/-- A rule that does not look at the character before a place. -/
def IsBlind (rule : Rule α) : Prop :=
  ∀ before t, rule before t = rule none t

/-- What a rule finds in a text whose first character has the given position. -/
def foundAt (rule : Rule α) (start : Nat) (t : Text) : List (Nat × α) :=
  foundFrom start (rule.pieces t)

namespace IsBlind

variable (blind : rule.IsBlind) (start : Nat)

include blind

theorem piecesFrom_eq (skip : Nat) (before : Option Char) (t : Text) :
    rule.piecesFrom skip before t = rule.piecesFrom skip none t := by
  cases t with
  | nil => rfl
  | cons c t =>
    cases skip with
    | zero => rw [piecesFrom, piecesFrom, blind]
    | succ skip => rfl

/-- Behind a hit, the search starts anew. -/
theorem foundAt_hit {value : α} (h : rule none (u ++ w) = some ⟨u, value⟩) (ne : u ≠ []) :
    rule.foundAt start (u ++ w) = (start, value) :: rule.foundAt (start + u.length) w := by
  rw [foundAt, pieces, piecesFrom_hit h ne, blind.piecesFrom_eq]
  rfl

/-- Behind a part in which there is no hit, the search starts anew. -/
theorem foundAt_left (left : ∀ x, x <:+ u → x ≠ [] → rule none (x ++ w) = none) :
    rule.foundAt start (u ++ w) = rule.foundAt (start + u.length) w := by
  have nothing : ∀ (u : Text) (start : Nat),
      foundFrom start (u.map (Piece.plain (α := α))) = [] := by
    intro u
    induction u with
    | nil => exact fun _ => rfl
    | cons c u ih => exact fun start => ih (start + 1)
  have source : (u.map (Piece.plain (α := α))).flatMap Piece.source = u := by
    rw [List.flatMap_map]
    exact List.flatMap_singleton' u
  rw [foundAt, pieces, piecesFrom_left, blind.piecesFrom_eq, foundFrom_append, nothing, source]
  · rfl
  · intro v x split ne
    rw [blind]
    exact left x ⟨v, split.symm⟩ ne

end IsBlind

end

end StyleTokens.Rule
