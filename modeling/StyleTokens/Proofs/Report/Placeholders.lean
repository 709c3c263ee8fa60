import Mathlib.Algebra.GroupWithZero.Nat
import Mathlib.Data.List.Infix
import StyleTokens.Proofs.Text.Pieces
import StyleTokens.Report.Fill

/-!
# Placeholders of any text

Whatever text is filled in, its placeholders are replaced and all other characters stay, with the
line breaks among them. A placeholder stands on one line, and a capital `D` stands in it only at
its start. So two placeholders never overlap, and what is written in place of one is part of no
other: a second run finds nothing to do.

## Main definitions

* `Report.IsPlaceholder`: the texts that are replaced
* `Report.FillPart`: a part of a filled text, as it was and as it is
* `Report.FilledIn`: a text cut at all its placeholders
* `Report.placeholderCount`: the number of places at which a placeholder starts

## Main results

* `Report.Filling.filledIn`: a text that is read from left to right is cut at all its placeholders
* `Report.Filling.not_isPlaceholder`: no placeholder stands in a filled text
* `Report.fill_of_not_isPlaceholder`: a text without placeholders stays as it is
* `Report.fill_placeholders`: what filling does to any text
-/

namespace StyleTokens.Report

/-! ## Placeholders -/

/-- The word for a decision, blanks that end no line, and the placeholder. -/
def IsPlaceholder (p : Text) : Prop :=
  ∃ blanks : Text, blanks ≠ [] ∧ (∀ c ∈ blanks, isBlank c) ∧ blanks.BreakFree ∧
    p = "Disposition:".toList ++ blanks ++ placeholder

variable {p q t u w front back : Text} {c : Char}

theorem not_mem_of_blank {blanks : Text} (h : ∀ c ∈ blanks, isBlank c) :
    'D' ∉ "isposition:".toList ++ blanks ++ placeholder := by
  rw [List.mem_append, List.mem_append, not_or, not_or]
  exact ⟨⟨by decide, fun mem => absurd (h 'D' mem) (by decide)⟩, by decide⟩

/-- **A placeholder has one capital `D`**, at its start. -/
theorem IsPlaceholder.exists_eq (h : IsPlaceholder p) : ∃ w, p = 'D' :: w ∧ 'D' ∉ w := by
  obtain ⟨blanks, -, blank, -, rfl⟩ := h
  exact ⟨_, rfl, not_mem_of_blank blank⟩

theorem IsPlaceholder.breakFree (h : IsPlaceholder p) : p.BreakFree := by
  obtain ⟨blanks, -, -, free, rfl⟩ := h
  exact Text.BreakFree.append (Text.BreakFree.append (by decide) free) (by decide)

/-- A placeholder does not run over the end of a line. -/
theorem IsPlaceholder.prefix_of_ends (hp : IsPlaceholder p) (ne : u ≠ [])
    (ends : ∀ c ∈ u.getLast?, isLineBreak c) (h : p <+: u ++ w) : p <+: u := by
  rcases List.prefix_or_prefix_of_prefix h (List.prefix_append u w) with inside | ⟨z, rfl⟩
  · exact inside
  · have last := ends _ (List.getLast?_eq_some_getLast ne)
    exact absurd last (hp.breakFree _ (List.mem_append_left z (List.getLast_mem ne)))

theorem takeWhile_blanks {blanks : Text} (h : ∀ c ∈ blanks, isBlank c) (u : Text) :
    (blanks ++ (placeholder ++ u)).takeWhile isBlank = blanks := by
  rw [List.takeWhile_append_of_pos h]
  exact List.append_nil _

theorem dropWhile_blanks {blanks : Text} (h : ∀ c ∈ blanks, isBlank c) (u : Text) :
    (blanks ++ (placeholder ++ u)).dropWhile isBlank = placeholder ++ u := by
  rw [List.dropWhile_append_of_pos h]
  rfl

/-- Two placeholders that start at one place are the same. -/
theorem IsPlaceholder.eq_of_prefix (hp : IsPlaceholder p) (hq : IsPlaceholder q) (left : p <+: t)
    (right : q <+: t) : p = q := by
  obtain ⟨blanks, -, blank, -, rfl⟩ := hp
  obtain ⟨blanks', -, blank', -, rfl⟩ := hq
  obtain ⟨x, rfl⟩ := left
  obtain ⟨y, eq⟩ := right
  simp only [List.append_assoc] at eq
  have behind := List.append_cancel_left eq
  -- the blanks end where the words start
  rw [← takeWhile_blanks blank x, ← takeWhile_blanks blank' y, behind]

/-- The rule takes the word for a decision, blanks and the placeholder. -/
theorem placeholderRule_eq_some_iff {before : Option Char} {hit : Hit Unit} :
    placeholderRule before t = some hit ↔ ∃ blanks : Text, blanks ≠ [] ∧
      (∀ c ∈ blanks, isBlank c) ∧ hit.taken = "Disposition:".toList ++ blanks ++ placeholder ∧
      hit.taken <+: t := by
  simp only [placeholderRule, Option.bind_eq_bind, Option.bind_eq_some_iff,
    List.isPrefixOf?_eq_some_iff_append_eq, Option.pure_def]
  constructor
  · rintro ⟨rest, rfl, h⟩
    split_ifs at h with none
    · cases h
    · obtain ⟨more, found, h⟩ := Option.bind_eq_some_iff.mp h
      cases h
      rw [List.isPrefixOf?_eq_some_iff_append_eq] at found
      refine ⟨rest.takeWhile isBlank, by simpa using none, fun c => List.mem_takeWhile_imp, rfl,
        more, ?_⟩
      rw [List.append_assoc, List.append_assoc, found, List.takeWhile_append_dropWhile]
  · rintro ⟨blanks, ne, blank, taken, more, split⟩
    obtain ⟨_, ⟨⟩⟩ := hit
    dsimp only at taken split
    subst taken
    refine ⟨blanks ++ (placeholder ++ more), by simpa using split, ?_⟩
    have found : placeholder.isPrefixOf? (placeholder ++ more) = some more :=
      List.isPrefixOf?_eq_some_iff_append_eq.mpr rfl
    rw [takeWhile_blanks blank, dropWhile_blanks blank, found, if_neg (by simpa using ne)]
    rfl

/-- What stands behind characters other than `D` is reached behind them. -/
theorem exists_behind {v : Text} (hw : 'D' ∉ w) (h : w ++ u = front ++ 'D' :: v) :
    ∃ front', front = w ++ front' ∧ u = front' ++ 'D' :: v := by
  induction w generalizing front with
  | nil => exact ⟨front, rfl, h⟩
  | cons c w ih =>
    simp only [List.mem_cons, not_or] at hw
    cases front with
    | nil => exact absurd (List.cons.inj h).1.symm hw.1
    | cons d front =>
      rw [List.cons_append, List.cons_append, List.cons.injEq] at h
      obtain ⟨rfl, rest⟩ := h
      obtain ⟨front', rfl, behind⟩ := ih hw.2 rest
      exact ⟨front', rfl, behind⟩

/-! ## Texts that are filled in -/

/-- A part of a text that is filled in. -/
inductive FillPart where
  /-- A character that stays. -/
  | kept (c : Char)
  /-- A placeholder, and what is decided in its place. -/
  | filled (old : Text) (decided : Disposition)

namespace FillPart

/-- The part as it was. -/
def source : FillPart → Text
  | kept c => [c]
  | filled old _ => old

/-- The part as it is written. -/
def result : FillPart → Text
  | kept c => [c]
  | filled _ decided => "Disposition: ".toList ++ decided.word

/-- Whether something is decided there. -/
def isFilled : FillPart → Bool
  | kept _ => false
  | filled _ _ => true

end FillPart

variable {parts ps qs : List FillPart} {d : Disposition}

/-- A text is cut at all its placeholders, and at nothing else. -/
structure FilledIn (t : Text) (parts : List FillPart) : Prop where
  source_eq : parts.flatMap FillPart.source = t
  isPlaceholder : ∀ old decided, .filled old decided ∈ parts → IsPlaceholder old
  /-- Every place where a placeholder stands is a part. -/
  exists_part : ∀ front p back, t = front ++ p ++ back → IsPlaceholder p →
    ∃ left decided right, parts = left ++ .filled p decided :: right ∧
      left.flatMap FillPart.source = front

/-- The parts of a text that is read from left to right. -/
inductive Filling : Text → List FillPart → Prop
  | nil : Filling [] []
  | kept {c : Char} {t : Text} {parts : List FillPart}
    (plain : ∀ p, IsPlaceholder p → ¬p <+: c :: t) (rest : Filling t parts) :
    Filling (c :: t) (.kept c :: parts)
  | filled {p t : Text} {parts : List FillPart} (d : Disposition) (h : IsPlaceholder p)
    (rest : Filling t parts) : Filling (p ++ t) (.filled p d :: parts)

namespace Filling

theorem source_eq (h : Filling t parts) : parts.flatMap FillPart.source = t := by
  induction h with
  | nil => rfl
  | kept _ _ ih => exact congrArg (_ :: ·) ih
  | filled d _ _ ih => exact congrArg (_ ++ ·) ih

theorem isPlaceholder (h : Filling t parts) {old : Text} (mem : .filled old d ∈ parts) :
    IsPlaceholder old := by
  induction h with
  | nil => cases mem
  | kept _ _ ih => exact ih (by simpa using mem)
  | filled d hp _ ih =>
    rcases List.mem_cons.mp mem with eq | mem
    · cases eq
      exact hp
    · exact ih mem

/-- Reading passes over no placeholder. -/
theorem exists_part (h : Filling t parts) (hp : IsPlaceholder p) (split : t = front ++ p ++ back) :
    ∃ left d right, parts = left ++ .filled p d :: right ∧
      left.flatMap FillPart.source = front := by
  induction h generalizing front with
  | nil =>
    obtain ⟨w, rfl, -⟩ := hp.exists_eq
    simp at split
  | @kept c t parts plain _ ih =>
    cases front with
    | nil => exact absurd ⟨back, split.symm⟩ (plain p hp)
    | cons e front =>
      simp only [List.cons_append, List.cons.injEq] at split
      obtain ⟨rfl, split⟩ := split
      obtain ⟨left, d, right, rfl, rfl⟩ := ih split
      exact ⟨.kept c :: left, d, right, rfl, rfl⟩
  | @filled q t parts d hq _ ih =>
    cases front with
    | nil =>
      obtain rfl := hp.eq_of_prefix hq ⟨back, split.symm⟩ (List.prefix_append q t)
      exact ⟨[], d, parts, rfl, rfl⟩
    | cons e front =>
      -- it starts behind this placeholder, as there is no other capital letter in it
      obtain ⟨w, rfl, single⟩ := hq.exists_eq
      obtain ⟨v, rfl, -⟩ := hp.exists_eq
      simp only [List.cons_append, List.append_assoc, List.cons.injEq] at split
      obtain ⟨rfl, split⟩ := split
      obtain ⟨front', rfl, behind⟩ := exists_behind single split
      obtain ⟨left, d', right, rfl, rfl⟩ := ih (by simpa using behind)
      exact ⟨.filled ('D' :: w) d :: left, d', right, rfl, rfl⟩

/-- **A text that is read from left to right** is cut at all its placeholders. -/
theorem filledIn (h : Filling t parts) : FilledIn t parts :=
  ⟨h.source_eq, fun _ _ mem => h.isPlaceholder mem, fun _ _ _ split hp => h.exists_part hp split⟩

/-! ## The filled text -/

/-- What is written has one capital `D`, at its start. -/
theorem exists_result_eq (d : Disposition) :
    ∃ w, "Disposition: ".toList ++ d.word = 'D' :: w ∧ 'D' ∉ w := by
  cases d <;> exact ⟨_, rfl, by decide⟩

theorem breakFree_result (d : Disposition) :
    Text.BreakFree ("Disposition: ".toList ++ d.word) := by
  cases d <;> decide

/-- Characters other than `D` in front of the filled text stood there before. -/
theorem prefix_source (hw : 'D' ∉ w) (h : w <+: parts.flatMap FillPart.result) :
    w <+: parts.flatMap FillPart.source := by
  induction parts generalizing w with
  | nil => exact h
  | cons part parts ih =>
    cases w with
    | nil => exact List.nil_prefix
    | cons c w =>
      simp only [List.mem_cons, not_or] at hw
      cases part with
      | kept e =>
        obtain ⟨rfl, rest⟩ := List.cons_prefix_cons.mp h
        exact List.cons_prefix_cons.mpr ⟨rfl, ih hw.2 rest⟩
      | filled old d =>
        obtain ⟨v, eq, -⟩ := exists_result_eq d
        have start : c :: w <+: ("Disposition: ".toList ++ d.word) ++ _ := h
        rw [eq] at start
        exact absurd (List.cons_prefix_cons.mp start).1.symm hw.1

theorem exists_word_eq (d : Disposition) : ∃ c w, d.word = c :: w ∧ ¬isBlank c ∧ c ≠ '_' := by
  cases d <;> exact ⟨_, _, rfl, by decide, by decide⟩

/-- What is written starts with no placeholder. -/
theorem not_isPlaceholder_result (h : p <+: "Disposition: ".toList ++ d.word ++ u) :
    ¬IsPlaceholder p := by
  rintro ⟨blanks, -, blank, -, rfl⟩
  obtain ⟨more, eq⟩ := h
  obtain ⟨c, w, word, noBlank, other⟩ := exists_word_eq d
  have joined : "Disposition:".toList ++ (blanks ++ (placeholder ++ more)) =
      "Disposition:".toList ++ ' ' :: (d.word ++ u) := by
    simpa using eq
  have words := congrArg (List.dropWhile isBlank) (List.append_cancel_left joined)
  rw [dropWhile_blanks blank, word, List.dropWhile_cons_of_pos (by decide), List.cons_append,
    List.dropWhile_cons_of_neg noBlank] at words
  exact other (List.cons.inj words).1.symm

/-- **No placeholder stands in a filled text.** -/
theorem not_isPlaceholder (h : Filling t parts)
    (split : parts.flatMap FillPart.result = front ++ p ++ back) : ¬IsPlaceholder p := by
  intro hp
  induction h generalizing front with
  | nil =>
    obtain ⟨w, rfl, -⟩ := hp.exists_eq
    simp at split
  | @kept c t parts plain rest ih =>
    cases front with
    | nil =>
      -- behind its first character, the placeholder would have stood there before
      obtain ⟨w, rfl, single⟩ := hp.exists_eq
      obtain ⟨rfl, split'⟩ := List.cons.inj split
      have behind : w <+: t := by
        rw [← rest.source_eq]
        exact prefix_source single ⟨back, split'.symm⟩
      exact plain _ hp (List.cons_prefix_cons.mpr ⟨rfl, behind⟩)
    | cons e front => exact ih (List.cons.inj split).2
  | @filled q t parts d hq _ ih =>
    obtain ⟨w, eq, single⟩ := exists_result_eq d
    have split' : ("Disposition: ".toList ++ d.word) ++ parts.flatMap FillPart.result =
        front ++ p ++ back := split
    cases front with
    | nil => exact not_isPlaceholder_result ⟨back, split'.symm⟩ hp
    | cons e front =>
      obtain ⟨v, rfl, -⟩ := hp.exists_eq
      rw [eq] at split'
      simp only [List.cons_append, List.append_assoc, List.cons.injEq] at split'
      obtain ⟨front', rfl, behind⟩ := exists_behind single split'.2
      exact ih (by simpa using behind)

/-- Filling leaves the line breaks as they are. -/
theorem endings_eq (h : Filling t parts) :
    Text.endings (parts.flatMap FillPart.result) = Text.endings t := by
  suffices same : Text.endings (parts.flatMap FillPart.result) = Text.endings t ∧
      (parts.flatMap FillPart.result).head? = t.head? from same.1
  induction h with
  | nil => exact ⟨rfl, rfl⟩
  | kept _ _ ih => exact ⟨Text.endings_cons_congr _ ih.1 ih.2, rfl⟩
  | @filled p t parts d hp _ ih =>
    obtain ⟨same, head⟩ := ih
    obtain ⟨w, eq, -⟩ := exists_result_eq d
    obtain ⟨v, rfl, -⟩ := hp.exists_eq
    have free : Text.BreakFree ('D' :: w) := eq ▸ breakFree_result d
    have empty : parts.flatMap FillPart.result = [] ↔ t = [] := by
      rw [← List.head?_eq_none_iff, head, List.head?_eq_none_iff]
    have result : (FillPart.filled ('D' :: v) d :: parts).flatMap FillPart.result =
        ('D' :: w) ++ parts.flatMap FillPart.result := congrArg (· ++ _) eq
    rw [result]
    refine ⟨?_, rfl⟩
    rw [Text.endings_append free (List.cons_ne_nil _ w),
      Text.endings_append hp.breakFree (List.cons_ne_nil _ v)]
    simp only [same, empty]

/-- What is read of two texts one after the other is read of the whole, if the first one ends its
line. -/
theorem append (hu : Filling u ps) (hw : Filling w qs)
    (ends : w = [] ∨ ∀ c ∈ u.getLast?, isLineBreak c) : Filling (u ++ w) (ps ++ qs) := by
  have behind : ∀ {v t : Text}, (w = [] ∨ ∀ c ∈ (v ++ t).getLast?, isLineBreak c) →
      w = [] ∨ ∀ c ∈ t.getLast?, isLineBreak c := fun ends => ends.imp_right fun last c mem =>
    last c (List.mem_getLast?_append_of_mem_getLast? mem)
  induction hu with
  | nil => exact hw
  | @kept c t parts plain _ ih =>
    have split : c :: t = [c] ++ t := rfl
    refine .kept (fun p hp start => ?_) (ih (behind (split ▸ ends)))
    rcases ends with rfl | last
    · exact plain p hp (by simpa using start)
    · exact plain p hp (hp.prefix_of_ends (List.cons_ne_nil c t) last start)
  | @filled p t parts d hp _ ih =>
    rw [List.append_assoc]
    exact .filled d hp (ih (behind ends))

end Filling

/-- A part of a line that the rule has cut. -/
def FillPart.ofPiece (d : Disposition) : Piece Unit → FillPart
  | .plain c => .kept c
  | .hit h => .filled h.taken d

/-- What ends in no line break ends before those at the end of the line. -/
theorem prefix_body {body ending : Text} (he : ∀ c ∈ ending, isLineBreak c)
    (last : ∀ c ∈ p.getLast?, ¬isLineBreak c) (h : p <+: body ++ ending) : p <+: body := by
  rcases List.prefix_or_prefix_of_prefix h (List.prefix_append body ending) with inside | ⟨e, rfl⟩
  · exact inside
  · cases e with
    | nil => exact ⟨[], by simp⟩
    | cons c e =>
      have ne : c :: e ≠ [] := List.cons_ne_nil c e
      have mem : (c :: e).getLast ne ∈ ending :=
        ((List.prefix_append_right_inj body).mp h).subset (List.getLast_mem ne)
      have ends : (c :: e).getLast ne ∈ (body ++ c :: e).getLast? :=
        List.mem_getLast?_append_of_mem_getLast? (List.getLast?_eq_some_getLast ne)
      exact absurd (he _ mem) (last _ ends)

/-- Where the rule finds nothing, no placeholder starts. -/
theorem not_prefix_of_eq_none {before : Option Char} (found : placeholderRule before t = none)
    (hp : IsPlaceholder p) : ¬p <+: t := by
  obtain ⟨blanks, ne, blank, -, rfl⟩ := hp
  intro start
  have taken : placeholderRule before t = some ⟨_, ()⟩ :=
    placeholderRule_eq_some_iff.mpr ⟨blanks, ne, blank, rfl, start⟩
  rw [found] at taken
  cases taken

/-- What the rule finds in a line is a placeholder, and stands in front of the break. -/
theorem isPlaceholder_of_eq_some {body ending : Text} {before : Option Char} {u : Unit}
    (hb : body.BreakFree) (he : ∀ c ∈ ending, isLineBreak c)
    (found : placeholderRule before (body ++ ending) = some ⟨p, u⟩) :
    IsPlaceholder p ∧ p <+: body := by
  obtain ⟨blanks, ne, blank, taken, start⟩ := placeholderRule_eq_some_iff.mp found
  dsimp only at taken start
  have last : ∀ c ∈ p.getLast?, ¬isLineBreak c := by
    have word : placeholder.getLast? = some '_' := by decide
    rw [taken, List.getLast?_append, word]
    rintro c ⟨⟩
    decide
  have inside := prefix_body he last start
  refine ⟨⟨blanks, ne, blank, fun c hc => hb c (inside.subset ?_), taken⟩, inside⟩
  simp [taken, hc]

/-- A line is read from left to right. -/
theorem filling_pieces {body ending : Text} (hb : body.BreakFree) (he : ∀ c ∈ ending, isLineBreak c)
    (d : Disposition) (before : Option Char) :
    Filling (body ++ ending)
      ((placeholderRule.piecesFrom 0 before (body ++ ending)).map (FillPart.ofPiece d)) := by
  -- behind a placeholder, the rest of the line is shorter
  induction length : (body ++ ending).length using Nat.strongRecOn
    generalizing body ending before with
  | ind n ih =>
    subst length
    cases found : placeholderRule before (body ++ ending) with
    | none =>
      cases whole : body ++ ending with
      | nil => exact .nil
      | cons c t =>
        rw [whole] at found
        rw [Rule.piecesFrom_plain found]
        refine .kept (fun p => not_prefix_of_eq_none found) ?_
        cases body with
        | nil =>
          obtain rfl : ending = c :: t := whole
          have empty : Text.BreakFree [] := nofun
          exact ih t.length (by simp) empty (fun x hx => he x (by simp [hx])) _ rfl
        | cons e body =>
          obtain ⟨rfl, rfl⟩ := List.cons.inj whole
          exact ih _ (by simp) (fun x hx => hb x (by simp [hx])) he _ rfl
    | some hit =>
      obtain ⟨p, u⟩ := hit
      obtain ⟨hp, rest, rfl⟩ := isPlaceholder_of_eq_some hb he found
      have nonempty : p ≠ [] := by
        obtain ⟨blanks, -, -, -, rfl⟩ := hp
        exact List.cons_ne_nil _ _
      rw [List.append_assoc] at found ⊢
      rw [Rule.piecesFrom_hit found nonempty]
      refine .filled d hp (ih _ ?_ (fun c hc => hb c (by simp [hc])) he _ rfl)
      have := List.length_pos_iff.mpr nonempty
      simp only [List.length_append]
      omega

/-! ## Filling line by line -/

theorem result_pieces (d : Disposition) (pieces : List (Piece Unit)) :
    (pieces.map (FillPart.ofPiece d)).flatMap FillPart.result =
      pieces.flatMap (Piece.output fun _ => "Disposition: ".toList ++ d.word) := by
  rw [List.flatMap_map]
  congr 1
  funext piece
  cases piece <;> rfl

theorem countP_pieces (d : Disposition) (pieces : List (Piece Unit)) :
    (pieces.map (FillPart.ofPiece d)).countP FillPart.isFilled =
      (pieces.filterMap Piece.value?).length := by
  induction pieces with
  | nil => rfl
  | cons piece pieces ih =>
    rw [List.map_cons, List.countP_cons, ih]
    cases piece <;> rfl

/-- Lines that are filled in one after the other are read from left to right. -/
theorem exists_filling_lines (mode : Disposition) (overrides : Entries Text Disposition)
    {ls : List Line} (bodies : ∀ line ∈ ls, line.body.BreakFree)
    (endings : ∀ line ∈ ls, ∀ c ∈ line.ending, isLineBreak c)
    (ended : ls.IsChain fun line _ => line.ending ≠ []) (names : List Text) :
    ∃ parts, Filling (ls.flatMap Line.source) parts ∧ fillLines mode overrides names ls =
      (parts.flatMap FillPart.result, parts.countP FillPart.isFilled) := by
  induction ls generalizing names with
  | nil => exact ⟨[], .nil, rfl⟩
  | cons line ls ih =>
    rw [List.forall_mem_cons] at bodies endings
    let header := headerNames line.source
    let names' := if header.isEmpty then names else header
    let d := decision mode overrides names'
    obtain ⟨parts, rest, eq⟩ := ih bodies.2 endings.2 ended.tail names'
    have first : Filling line.source ((placeholderRule.pieces line.source).map (.ofPiece d)) :=
      filling_pieces bodies.1 endings.1 d none
    have ends : ls.flatMap Line.source = [] ∨ ∀ c ∈ line.source.getLast?, isLineBreak c := by
      cases ls with
      | nil => exact .inl rfl
      | cons next ls =>
        have ne := (List.isChain_cons_cons.mp ended).1
        rw [Line.source, List.getLast?_append, List.getLast?_eq_some_getLast ne]
        right
        rintro c ⟨⟩
        exact endings.1 _ (List.getLast_mem ne)
    refine ⟨_, first.append rest ends, ?_⟩
    rw [List.flatMap_append, List.countP_append, result_pieces, countP_pieces, fillLines, eq]
    rfl

/-- A text that is filled in is read from left to right. -/
theorem exists_filling (mode : Disposition) (overrides : Entries Text Disposition) (t : Text) :
    ∃ parts, Filling t parts ∧ fill mode overrides t =
      (parts.flatMap FillPart.result, parts.countP FillPart.isFilled) := by
  have lines := exists_filling_lines mode overrides
    (fun _ => Text.breakFree_of_mem_lines (t := t)) (fun _ => Text.isLineBreak_of_mem_lines)
    (Text.isChain_lines t) []
  rwa [Text.flatMap_lines] at lines

/-- **A text without placeholders** stays as it is. -/
theorem fill_of_not_isPlaceholder (mode : Disposition) (overrides : Entries Text Disposition)
    (h : ∀ front p back, t = front ++ p ++ back → ¬IsPlaceholder p) :
    fill mode overrides t = (t, 0) := by
  obtain ⟨parts, filling, eq⟩ := exists_filling mode overrides t
  have kept : ∀ part ∈ parts, part.result = part.source ∧ part.isFilled = false := by
    intro part mem
    cases part with
    | kept c => exact ⟨rfl, rfl⟩
    | filled old d =>
      obtain ⟨left, right, split⟩ := List.append_of_mem mem
      refine absurd (filling.isPlaceholder mem)
        (h (left.flatMap FillPart.source) old (right.flatMap FillPart.source) ?_)
      rw [← filling.source_eq, split, List.flatMap_append, List.flatMap_cons, List.append_assoc]
      rfl
  have same : parts.flatMap FillPart.result = parts.flatMap FillPart.source :=
    List.flatMap_congr fun part mem => (kept part mem).1
  have none : parts.countP FillPart.isFilled = 0 :=
    List.countP_eq_zero.mpr fun part mem => by simp [(kept part mem).2]
  rw [eq, same, none, filling.source_eq]

/-! ## Counting placeholders -/

/-- The number of places at which a placeholder starts. -/
def placeholderCount (t : Text) : Nat :=
  t.tails.countP fun u => (placeholderRule none u).isSome

theorem placeholderRule_of_ne (hc : c ≠ 'D') (before : Option Char) (t : Text) :
    placeholderRule before (c :: t) = none := by
  rw [Option.eq_none_iff_forall_ne_some]
  intro hit found
  obtain ⟨blanks, -, -, taken, start⟩ := placeholderRule_eq_some_iff.mp found
  rw [taken] at start
  exact hc (List.cons_prefix_cons.mp start).1.symm

theorem placeholderCount_append (hw : 'D' ∉ w) (t : Text) :
    placeholderCount (w ++ t) = placeholderCount t := by
  induction w with
  | nil => rfl
  | cons c w ih =>
    simp only [List.mem_cons, not_or] at hw
    rw [← ih hw.2, List.cons_append, placeholderCount, List.tails_cons, List.countP_cons,
      placeholderRule_of_ne (Ne.symm hw.1)]
    rfl

/-- Placeholders do not overlap, so each of them is a hit. -/
theorem hitCount_eq (t : Text) : placeholderRule.hitCount t = placeholderCount t := by
  suffices count : ∀ before, ((placeholderRule.piecesFrom 0 before t).filterMap
      Piece.value?).length = placeholderCount t from count none
  -- behind a hit, the text is shorter
  induction length : t.length using Nat.strongRecOn generalizing t with
  | ind n ih =>
    subst length
    intro before
    cases t with
    | nil => rfl
    | cons c t =>
      cases found : placeholderRule before (c :: t) with
      | none =>
        have here : placeholderRule none (c :: t) = none := found
        rw [Rule.piecesFrom_plain found, List.filterMap_cons_none rfl, ih t.length (by simp) t rfl,
          placeholderCount, placeholderCount, List.tails_cons, List.countP_cons, here]
        rfl
      | some hit =>
        obtain ⟨p, ⟨⟩⟩ := hit
        obtain ⟨blanks, -, blank, taken, rest, split⟩ := placeholderRule_eq_some_iff.mp found
        obtain ⟨w, rfl, single⟩ : ∃ w, p = 'D' :: w ∧ 'D' ∉ w :=
          ⟨_, taken, not_mem_of_blank blank⟩
        dsimp only at split
        rw [← split] at found ih ⊢
        have shorter : rest.length < ('D' :: w ++ rest).length := by
          rw [List.length_append, List.length_cons]
          omega
        have here : placeholderCount ('D' :: w ++ rest) = placeholderCount (w ++ rest) + 1 := by
          have hit : placeholderRule none ('D' :: (w ++ rest)) = some ⟨'D' :: w, ()⟩ := found
          rw [placeholderCount, List.cons_append, List.tails_cons, List.countP_cons, hit]
          rfl
        rw [Rule.piecesFrom_hit found (List.cons_ne_nil _ _), here, placeholderCount_append single,
          ← ih _ shorter rest rfl ('D' :: w).getLast?]
        rfl

theorem count_fillLines {mode : Disposition} {overrides : Entries Text Disposition}
    (ls : List Line) (names : List Text) : (fillLines mode overrides names ls).2 =
      (ls.map fun line => placeholderCount line.source).sum := by
  induction ls generalizing names with
  | nil => rfl
  | cons line ls ih =>
    rw [List.map_cons, List.sum_cons, ← hitCount_eq, ← ih]
    rfl

/-- **What filling does to any text.** The text is cut at all its placeholders; each of them is
replaced by a decision, and every other character stays. The placeholders are counted line by
line, no line break changes, and a second run with any decisions finds nothing to do. -/
theorem fill_placeholders (mode : Disposition) (overrides : Entries Text Disposition) (t : Text) :
    (∃ parts, FilledIn t parts ∧ fill mode overrides t =
      (parts.flatMap FillPart.result, parts.countP FillPart.isFilled)) ∧
    (fill mode overrides t).2 = (t.lines.map fun line => placeholderCount line.source).sum ∧
    Text.endings (fill mode overrides t).1 = Text.endings t ∧
    ∀ mode' overrides', fill mode' overrides' (fill mode overrides t).1 =
      ((fill mode overrides t).1, 0) := by
  obtain ⟨parts, filling, eq⟩ := exists_filling mode overrides t
  refine ⟨⟨parts, filling.filledIn, eq⟩, ?_, ?_, fun mode' overrides' => ?_⟩
  · exact count_fillLines t.lines []
  · rw [eq, filling.endings_eq]
  · refine fill_of_not_isPlaceholder mode' overrides' fun front p back split => ?_
    rw [eq] at split
    exact filling.not_isPlaceholder split

/-- A placeholder that runs over the end of a line is none. -/
example : fill .ignore []
    "x Disposition:\t_merge | alias | ignore_\r\nDisposition:\n_merge | alias | ignore_".toList =
    ("x Disposition: ignore\r\nDisposition:\n_merge | alias | ignore_".toList, 1) := by
  decide +kernel

end StyleTokens.Report
