import Mathlib.Data.List.Basic
import StyleTokens.Proofs.Text.Pieces
import StyleTokens.Prune
import StyleTokens.Text.Alphanumeric

/-!
# Which declarations are deleted

The declaration of a token is found behind the indentation of a line: the token, blanks, a colon,
and a value. A value that runs to a semicolon is made of plain characters, strings and
interpolations.

## Main definitions

* `Prune.IsToken`: the texts that are looked for
* `Prune.Value`: the values that run to a semicolon
* `Prune.Spelled`: the spellings of a declaration that is deleted as a whole

## Main results

* `Prune.toSemicolon_eq_some_iff`: a value runs to the first semicolon outside of strings and
  interpolations
* `Prune.declarationLength?_eq_some_iff`, `Prune.declarationRule_append`: what is deleted
* `Prune.declarationRule_eq_iff`: a declaration is deleted as a whole exactly if it is spelled so
-/

namespace StyleTokens.Prune

variable {token t v w blanks : Text} {before : Option Char} {c : Char} {n k : Nat}

/-! ## Values -/

/-- The values that run to a semicolon. -/
inductive Value : Text → Prop
  | nil : Value []
  /-- A character that neither ends the value nor opens anything. -/
  | plain {c : Char} {t : Text} : c ≠ ';' → c ≠ '{' → c ≠ '}' → c ≠ '"' → c ≠ '\x27' →
    ¬(c = '#' ∧ t.head? = some '{') → Value t → Value (c :: t)
  /-- A string on one line. -/
  | quotes {q : Char} {body t : Text} : q = '"' ∨ q = '\x27' → q ∉ body → '\n' ∉ body →
    Value t → Value (q :: body ++ q :: t)
  /-- An interpolation without braces inside. -/
  | braces {body t : Text} : '{' ∉ body → '}' ∉ body → Value t →
    Value ('#' :: '{' :: body ++ '}' :: t)

theorem toSemicolon_quotes {q : Char} {body : Text} (hq : q ∉ body) (hn : '\n' ∉ body)
    (newline : q ≠ '\n') (rest : Text) :
    toSemicolon (.quotes q) (body ++ q :: rest) =
      (toSemicolon .value rest).map (· + (body.length + 1)) := by
  induction body with
  | nil => simp [toSemicolon, newline]
  | cons c body ih =>
    simp only [List.mem_cons, not_or] at hq hn
    rw [List.cons_append, toSemicolon, if_neg (Ne.symm hn.1), if_neg (Ne.symm hq.1), ih hq.2 hn.2,
      Option.map_map]
    simp [Function.comp_def, Nat.add_assoc]

theorem toSemicolon_braces {body : Text} (left : '{' ∉ body) (right : '}' ∉ body) (rest : Text) :
    toSemicolon .braces (body ++ '}' :: rest) =
      (toSemicolon .value rest).map (· + (body.length + 1)) := by
  induction body with
  | nil => simp [toSemicolon]
  | cons c body ih =>
    simp only [List.mem_cons, not_or] at left right
    rw [List.cons_append, toSemicolon, if_neg (Ne.symm left.1), if_neg (Ne.symm right.1),
      ih left.2 right.2, Option.map_map]
    simp [Function.comp_def, Nat.add_assoc]

/-- A value runs to the semicolon behind it. -/
theorem Value.toSemicolon_eq (hv : Value v) (w : Text) :
    toSemicolon .value (v ++ ';' :: w) = some (v.length + 1) := by
  induction hv with
  | nil => simp [toSemicolon]
  | @plain c t semicolon left right double single hash _ ih =>
    -- a hash at the end of the value stands in front of the semicolon, not of a brace
    have hash' : ¬(c = '#' ∧ (t ++ ';' :: w).head? = some '{') := by
      cases t with
      | nil => simp
      | cons d t => simpa using hash
    rw [List.cons_append, toSemicolon, if_neg semicolon, if_neg (by simp [left, right]),
      if_neg (by simp [double, single]), if_neg (by simpa using hash'), ih]
    rfl
  | @quotes q body t hq inside newline _ ih =>
    have newline' : q ≠ '\n' := by rcases hq with rfl | rfl <;> decide
    have opened : toSemicolon .value (q :: (body ++ q :: (t ++ ';' :: w))) =
        (toSemicolon (.quotes q) (body ++ q :: (t ++ ';' :: w))).map (· + 1) := by
      rcases hq with rfl | rfl <;> rfl
    rw [List.append_assoc]
    show toSemicolon .value (q :: (body ++ q :: (t ++ ';' :: w))) = _
    rw [opened, toSemicolon_quotes inside newline newline', ih]
    simp
    omega
  | @braces body t left right _ ih =>
    rw [List.append_assoc]
    show toSemicolon .value ('#' :: '{' :: (body ++ '}' :: (t ++ ';' :: w))) = _
    rw [toSemicolon]
    simp only [Char.reduceEq, decide_false, Bool.or_self, Bool.false_eq_true, if_false,
      List.head?_cons, decide_true, Bool.and_self, if_true, toSemicolon]
    rw [toSemicolon_braces left right, ih]
    simp
    omega

/-- A string runs to its quote. -/
theorem exists_quotes {q : Char} (h : toSemicolon (.quotes q) t = some n) : ∃ body rest m,
    t = body ++ q :: rest ∧ q ∉ body ∧ '\n' ∉ body ∧ toSemicolon .value rest = some m ∧
      n = m + (body.length + 1) := by
  induction t generalizing n with
  | nil => cases h
  | cons c t ih =>
    rw [toSemicolon] at h
    split_ifs at h with newline closes
    · obtain ⟨m, value, rfl⟩ := Option.map_eq_some_iff.mp h
      exact ⟨[], t, m, by simp [closes], by simp, by simp, value, rfl⟩
    · obtain ⟨k, string, rfl⟩ := Option.map_eq_some_iff.mp h
      obtain ⟨body, rest, m, rfl, quote, line, value, rfl⟩ := ih string
      refine ⟨c :: body, rest, m, rfl, ?_, ?_, value, by simp; omega⟩
      · simpa [Ne.symm closes] using quote
      · simpa [Ne.symm newline] using line

/-- An interpolation runs to its closing brace. -/
theorem exists_braces (h : toSemicolon .braces t = some n) : ∃ body rest m,
    t = body ++ '}' :: rest ∧ '{' ∉ body ∧ '}' ∉ body ∧ toSemicolon .value rest = some m ∧
      n = m + (body.length + 1) := by
  induction t generalizing n with
  | nil => cases h
  | cons c t ih =>
    rw [toSemicolon] at h
    split_ifs at h with opens closes
    · obtain ⟨m, value, rfl⟩ := Option.map_eq_some_iff.mp h
      exact ⟨[], t, m, by simp [closes], by simp, by simp, value, rfl⟩
    · obtain ⟨k, inner, rfl⟩ := Option.map_eq_some_iff.mp h
      obtain ⟨body, rest, m, rfl, left, right, value, rfl⟩ := ih inner
      refine ⟨c :: body, rest, m, rfl, ?_, ?_, value, by simp; omega⟩
      · simpa [Ne.symm opens] using left
      · simpa [Ne.symm closes] using right

/-- **A value runs to the first semicolon** outside of strings and interpolations. -/
theorem toSemicolon_eq_some_iff : toSemicolon .value t = some n ↔
    ∃ v w, t = v ++ ';' :: w ∧ Value v ∧ n = v.length + 1 := by
  constructor
  · intro h
    -- behind a string or an interpolation the value goes on, with a shorter text
    induction len : t.length using Nat.strongRecOn generalizing t n with
    | ind k ih =>
      subst len
      cases t with
      | nil => cases h
      | cons c t =>
        rw [toSemicolon] at h
        split_ifs at h with semicolon braces quote hash
        · cases h
          exact ⟨[], t, by simp [semicolon], .nil, rfl⟩
        · obtain ⟨k, string, rfl⟩ := Option.map_eq_some_iff.mp h
          obtain ⟨body, rest, m, rfl, inside, line, value, rfl⟩ := exists_quotes string
          obtain ⟨v, w, rfl, hv, rfl⟩ := ih rest.length (by simp; omega) value rfl
          refine ⟨c :: body ++ c :: v, w, by simp,
            .quotes (by simpa using quote) inside line hv, ?_⟩
          simp
          omega
        · obtain ⟨k, opened, rfl⟩ := Option.map_eq_some_iff.mp h
          simp only [Bool.and_eq_true, decide_eq_true_eq] at hash
          obtain ⟨rfl, head⟩ := hash
          cases t with
          | nil => cases head
          | cons e t =>
            cases head
            rw [toSemicolon] at opened
            obtain ⟨k, inner, rfl⟩ := Option.map_eq_some_iff.mp opened
            obtain ⟨body, rest, m, rfl, left, right, value, rfl⟩ := exists_braces inner
            obtain ⟨v, w, rfl, hv, rfl⟩ := ih rest.length (by simp; omega) value rfl
            refine ⟨'#' :: '{' :: body ++ '}' :: v, w, by simp, .braces left right hv, ?_⟩
            simp
            omega
        · obtain ⟨m, value, rfl⟩ := Option.map_eq_some_iff.mp h
          obtain ⟨v, w, rfl, hv, rfl⟩ := ih t.length (by simp) value rfl
          simp only [Bool.or_eq_true, decide_eq_true_eq, not_or] at braces quote
          refine ⟨c :: v, w, rfl, .plain semicolon braces.1 braces.2 quote.1 quote.2 ?_ hv, by simp⟩
          rintro ⟨rfl, head⟩
          cases v with
          | nil => cases head
          | cons e v => exact hash (by simpa using head)
  · rintro ⟨v, w, rfl, hv, rfl⟩
    exact hv.toSemicolon_eq w

theorem value_iff : Value v ↔ toSemicolon .value (v ++ [';']) = some (v.length + 1) := by
  constructor
  · intro hv
    exact hv.toSemicolon_eq []
  · intro h
    obtain ⟨v', w, eq, hv, length⟩ := toSemicolon_eq_some_iff.mp h
    obtain ⟨rfl, -⟩ := List.append_inj eq (Nat.add_right_cancel length)
    exact hv

instance : DecidablePred Value := fun _ => decidable_of_iff' _ value_iff

/-! ## Declarations -/

/-- The texts that are looked for: names that are not empty. -/
structure IsToken (token : Text) : Prop where
  nonempty : token ≠ []
  chars : ∀ c ∈ token, isNameChar c

instance : DecidablePred IsToken := fun token =>
  decidable_of_iff (token ≠ [] ∧ ∀ c ∈ token, isNameChar c)
    ⟨fun h => ⟨h.1, h.2⟩, fun h => ⟨h.nonempty, h.chars⟩⟩

theorem not_isNameChar_of_isIndent (h : isIndent c) : ¬isNameChar c := by
  simp only [isIndent, Bool.or_eq_true, decide_eq_true_eq] at h
  rcases h with rfl | rfl <;> decide

theorem not_isIndent_of_isNameChar (h : isNameChar c) : ¬isIndent c :=
  fun indent => not_isNameChar_of_isIndent indent h

/-- **The declaration of a token** is the token, blanks, a colon, a value, and what trails it. -/
theorem declarationLength?_eq_some_iff :
    declarationLength? token t = some n ↔ ∃ blanks v k, t = token ++ (blanks ++ ':' :: v) ∧
      (∀ c ∈ blanks, isIndent c) ∧ valueLength? v = some k ∧
      n = token.length + blanks.length + 1 + k + trailLength (v.drop k) := by
  -- The parts of a declaration are taken off one after another; their lengths add up.
  simp only [declarationLength?, Option.bind_eq_bind, Option.bind_eq_some_iff, Option.pure_def,
    Option.some.injEq, List.isPrefixOf?_eq_some_iff_append_eq]
  constructor
  · rintro ⟨rest, rfl, v, colon, k, value, rfl⟩
    have split := List.takeWhile_append_dropWhile (p := isIndent) (l := rest)
    rw [← colon] at split
    refine ⟨rest.takeWhile isIndent, v, k, congrArg (token ++ ·) split.symm,
      fun c => List.mem_takeWhile_imp, value, ?_⟩
    have length := congrArg List.length split
    simp only [List.length_append, List.length_cons, List.length_nil] at length ⊢
    omega
  · rintro ⟨blanks, v, k, rfl, hb, value, rfl⟩
    refine ⟨blanks ++ ':' :: v, rfl, v, ?_, k, value, ?_⟩
    · rw [List.dropWhile_append_of_pos hb]
      rfl
    · simp only [List.length_append, List.length_cons]
      omega

theorem declarationLength?_of_isIndent (ht : IsToken token) (hc : isIndent c) :
    declarationLength? token (c :: t) = none := by
  rw [Option.eq_none_iff_forall_ne_some]
  intro n length
  obtain ⟨blanks, v, k, eq, -⟩ := declarationLength?_eq_some_iff.mp length
  obtain ⟨d, token, rfl⟩ := List.exists_cons_of_ne_nil ht.nonempty
  rw [List.cons_append, List.cons.injEq] at eq
  exact not_isNameChar_of_isIndent hc (eq.1 ▸ ht.chars d (by simp))

/-- **The rule for a token** looks behind all of the indentation: behind less of it, no name
starts. -/
theorem declarationRule_append (ht : IsToken token) {b r : Text} (hb : ∀ c ∈ b, isIndent c)
    (hr : ∀ c ∈ r.head?, ¬isIndent c) : declarationRule token before (b ++ r) =
      if startsLine before then (declarationLength? token r).map fun n => ⟨b ++ r.take n, ()⟩
      else none := by
  have indent : (b ++ r).takeWhile isIndent = b := by
    rw [List.takeWhile_append_of_pos hb]
    cases r with
    | nil => simp
    | cons c r => simp [hr c rfl]
  unfold declarationRule
  split_ifs with start
  · simp only [indent]
    let found (k : Nat) : Option (Hit Unit) :=
      (declarationLength? token ((b ++ r).drop k)).map fun n => ⟨(b ++ r).take (k + n), ()⟩
    have all : found b.length = (declarationLength? token r).map fun n => ⟨b ++ r.take n, ()⟩ := by
      simp [found, List.take_length_add_append]
    have fewer : ∀ k < b.length, found k = none := by
      intro k hk
      -- behind less of the indentation stands a blank
      have blank : isIndent b[k] := hb _ (List.getElem_mem hk)
      simp only [found]
      rw [List.drop_append_of_le_length hk.le, List.drop_eq_getElem_cons hk, List.cons_append,
        declarationLength?_of_isIndent ht blank, Option.map_none]
    exact (Rule.findSome?_range_sub (g := found) (Nat.succ_ne_zero _) le_rfl fewer).trans all
  · rfl

theorem IsToken.head_append (ht : IsToken token) (t : Text) :
    ∀ c ∈ (token ++ t).head?, ¬isIndent c := by
  obtain ⟨d, token, rfl⟩ := List.exists_cons_of_ne_nil ht.nonempty
  rintro c ⟨⟩
  exact not_isIndent_of_isNameChar (ht.chars d (by simp))

/-- **A declaration that runs to its semicolon is taken** with its indentation and what trails
it. -/
theorem declarationRule_taken (ht : IsToken token) (start : startsLine before) {b : Text}
    (hb : ∀ c ∈ b, isIndent c) (blank : ∀ c ∈ blanks, isIndent c) (hv : Value v) (rest : Text) :
    declarationRule token before (b ++ (token ++ (blanks ++ ':' :: (v ++ [';']))) ++ rest) =
      some ⟨b ++ (token ++ (blanks ++ ':' :: (v ++ [';']))) ++
        rest.take (trailLength rest), ()⟩ := by
  have split : token ++ (blanks ++ ':' :: (v ++ [';'])) ++ rest =
      token ++ (blanks ++ ':' :: (v ++ ';' :: rest)) := by simp
  -- the value runs to its semicolon, whatever stands on the rest of the line
  have length : declarationLength? token (token ++ (blanks ++ ':' :: (v ++ [';'])) ++ rest) =
      some ((token ++ (blanks ++ ':' :: (v ++ [';']))).length + trailLength rest) := by
    rw [split]
    refine declarationLength?_eq_some_iff.mpr
      ⟨blanks, v ++ ';' :: rest, v.length + 1, rfl, blank, ?_, ?_⟩
    · rw [valueLength?, hv.toSemicolon_eq]
      rfl
    · have behind : (v ++ ';' :: rest).drop (v.length + 1) = rest := by simp
      simp only [behind, List.length_append, List.length_cons, List.length_nil]
      omega
  have head : ∀ c ∈ (token ++ (blanks ++ ':' :: (v ++ [';'])) ++ rest).head?, ¬isIndent c := by
    rw [split]
    exact ht.head_append _
  rw [List.append_assoc, declarationRule_append ht hb head, if_pos start, length, Option.map_some,
    List.take_length_add_append, ← List.append_assoc b]

/-! ## Declarations that are taken as a whole -/

/-- The spellings of a declaration that is taken as a whole: the token, spaces and tabs, a colon,
and a value that runs to the semicolon at the end. -/
def Spelled (token d : Text) : Prop :=
  ∃ blanks v, d = token ++ (blanks ++ ':' :: (v ++ [';'])) ∧ (∀ c ∈ blanks, isIndent c) ∧ Value v

theorem take_trailLength (t : Text) : t.take (trailLength t) =
    t.takeWhile isIndent ++ (t.dropWhile isIndent).take (breakLength (t.dropWhile isIndent)) := by
  conv_lhs =>
    arg 2
    rw [← List.takeWhile_append_dropWhile (p := isIndent) (l := t)]
  rw [trailLength, List.take_length_add_append]

theorem mem_trail (h : c ∈ t.take (trailLength t)) : isIndent c ∨ c = '\r' ∨ c = '\n' := by
  rw [take_trailLength, List.mem_append] at h
  rcases h with h | h
  · exact .inl (List.mem_takeWhile_imp h)
  · right
    generalize t.dropWhile isIndent = rest at h
    unfold breakLength at h
    split at h
    · exact .inr (by simpa using h)
    · simpa using h
    · simp at h

/-- What trails a declaration ends with its line. -/
theorem eq_nil_of_trail {u y : Text} (h : t.take (trailLength t) = u ++ '\n' :: y) : y = [] := by
  rw [take_trailLength] at h
  -- The line feed is the last character of the break, and no blank in front of it is one.
  have inBreak : ∀ {r u : Text}, r.take (breakLength r) = u ++ '\n' :: y → y = [] := by
    intro r u eq
    unfold breakLength at eq
    split at eq
    · rcases List.append_eq_singleton_iff.mp eq.symm with h | h <;> simp_all
    · rcases u with _ | ⟨_, _ | ⟨_, u⟩⟩ <;> simp_all
    · simp at eq
  rcases List.append_eq_append_iff.mp h with ⟨e, -, more⟩ | ⟨e, front, more⟩
  · exact inBreak more
  cases e with
  | nil => exact inBreak (u := []) more.symm
  | cons c e =>
    rw [List.cons_append, List.cons.injEq] at more
    have indent : isIndent c := by
      refine List.mem_takeWhile_imp (l := t) ?_
      rw [front]
      simp
    exact absurd (more.1 ▸ indent) (by decide)

theorem semicolon_notMem_trail : ';' ∉ t.take (trailLength t) :=
  fun h => absurd (mem_trail h) (by decide)

theorem closing_notMem_trail : '}' ∉ t.take (trailLength t) :=
  fun h => absurd (mem_trail h) (by decide)

theorem closing_mem_of_toLineEnd (h : toLineEnd .braces t = some n) : '}' ∈ t.take n := by
  induction t generalizing n with
  | nil => cases h
  | cons c t ih =>
    rw [toLineEnd] at h
    split_ifs at h with opens closes
    · obtain ⟨m, -, rfl⟩ := Option.map_eq_some_iff.mp h
      simp [closes]
    · obtain ⟨m, value, rfl⟩ := Option.map_eq_some_iff.mp h
      simpa using .inr (ih value)

/-- In a value that runs to the end of its line, a semicolon stands in an interpolation only. -/
theorem closing_mem_of_semicolon {within : Within} (h : toLineEnd within t = some n) {u w : Text}
    (eq : t.take n = u ++ ';' :: w) : '}' ∈ w := by
  induction t generalizing within n u with
  | nil => simp at eq
  | cons c t ih =>
    -- the first character is the semicolon, or the semicolon is one of the others
    have next : ∀ {within' m}, toLineEnd within' t = some m → n = m + 1 →
        (c = ';' → '}' ∈ t.take m) → '}' ∈ w := by
      rintro within' m value rfl first
      rw [List.take_succ_cons] at eq
      cases u with
      | nil =>
        rw [List.nil_append, List.cons.injEq] at eq
        exact eq.2 ▸ first eq.1
      | cons d u =>
        rw [List.cons_append, List.cons.injEq] at eq
        exact ih value eq.2
    cases within with
    | value =>
      rw [toLineEnd] at h
      split_ifs at h with newline ends hash
      · cases h
        simp at eq
      all_goals
        obtain ⟨m, value, rfl⟩ := Option.map_eq_some_iff.mp h
        exact next value rfl fun semicolon => absurd semicolon (by simp_all)
    | hash =>
      rw [toLineEnd] at h
      obtain ⟨m, value, rfl⟩ := Option.map_eq_some_iff.mp h
      exact next value rfl fun _ => closing_mem_of_toLineEnd value
    | braces =>
      rw [toLineEnd] at h
      split_ifs at h with opens closes
      · obtain ⟨m, value, rfl⟩ := Option.map_eq_some_iff.mp h
        exact next value rfl fun semicolon => absurd (closes.symm.trans semicolon) (by decide)
      · obtain ⟨m, value, rfl⟩ := Option.map_eq_some_iff.mp h
        exact next value rfl fun _ => closing_mem_of_toLineEnd value
    | quotes q => cases h

/-- Texts that go on without a semicolon have the last one at the same place. -/
theorem eq_of_append_semicolon {x y : Text} (hv : ';' ∉ v) (hw : ';' ∉ w)
    (eq : x ++ ';' :: v = y ++ ';' :: w) : x = y := by
  rcases List.append_eq_append_iff.mp eq with ⟨e, rfl, more⟩ | ⟨e, rfl, more⟩
  · cases e with
    | nil => simp
    | cons c e =>
      rw [List.cons_append, List.cons.injEq] at more
      exact absurd (by simp [more.2]) hv
  · cases e with
    | nil => simp
    | cons c e =>
      rw [List.cons_append, List.cons.injEq] at more
      exact absurd (by simp [more.2]) hw

/-- A value that runs to the end of its line ends in no semicolon. -/
theorem ne_of_toLineEnd {x y u : Text} (h : toLineEnd .value t = some n) (hx : ';' ∉ x)
    (hu : ';' ∉ u) (hw : '}' ∉ w) : x ++ t.take n ++ u ≠ y ++ ';' :: w := by
  intro eq
  rcases List.append_eq_append_iff.mp eq with ⟨e, -, more⟩ | ⟨e, front, more⟩
  · exact hu (by simp [more])
  cases e with
  | nil =>
    rw [List.nil_append] at more
    exact hu (by simp [← more])
  | cons c e =>
    rw [List.cons_append, List.cons.injEq] at more
    obtain ⟨rfl, rfl⟩ := more
    -- the semicolon stands in the value, where a brace must follow, or in front of it
    have closing : '}' ∉ e := fun h => hw (by simp [h])
    rcases List.append_eq_append_iff.mp front with ⟨e', -, value⟩ | ⟨e', rfl, value⟩
    · exact closing (closing_mem_of_semicolon h value)
    cases e' with
    | nil => exact closing (closing_mem_of_semicolon (u := []) h value.symm)
    | cons c e' =>
      rw [List.cons_append, List.cons.injEq] at value
      exact hx (by rw [← value.1]; simp)

/-- **A declaration is taken as a whole exactly if it is spelled so.** -/
theorem declarationRule_eq_iff (ht : IsToken token) (start : startsLine before) {b d rest : Text}
    (hb : ∀ c ∈ b, isIndent c) (head : ∀ c ∈ d.head?, ¬isIndent c) (last : d.getLast? = some ';') :
    declarationRule token before (b ++ (d ++ rest)) =
        some ⟨b ++ (d ++ rest.take (trailLength rest)), ()⟩ ↔ Spelled token d := by
  constructor
  · intro taken
    obtain ⟨body, rfl⟩ : ∃ body, d = body ++ [';'] := List.getLast?_eq_some_iff.mp last
    -- What is taken runs to a semicolon, or to the end of its line. Only the first way can end
    -- behind the semicolon of the declaration.
    have head' : ∀ c ∈ ((body ++ [';']) ++ rest).head?, ¬isIndent c := by
      intro c hc
      refine head c ?_
      cases body <;> simpa using hc
    rw [declarationRule_append ht hb head', if_pos start] at taken
    obtain ⟨n, length, taken⟩ := Option.map_eq_some_iff.mp taken
    simp only [Hit.mk.injEq, and_true, List.append_cancel_left_eq] at taken
    obtain ⟨blanks, v, k, eq, blank, value, rfl⟩ := declarationLength?_eq_some_iff.mp length
    cases ends : toSemicolon .value v with
    | some m =>
      obtain rfl : m = k := by simpa [valueLength?, ends] using value
      obtain ⟨v, w, rfl, hv, rfl⟩ := toSemicolon_eq_some_iff.mp ends
      refine ⟨blanks, v, ?_, blank, hv⟩
      -- the two texts have their last semicolon at the same place
      have split : token ++ (blanks ++ ':' :: (v ++ ';' :: w)) =
          (token ++ (blanks ++ ':' :: (v ++ [';']))) ++ w := by simp
      have length : token.length + blanks.length + 1 + (v.length + 1) =
          (token ++ (blanks ++ ':' :: (v ++ [';']))).length := by simp; omega
      have behind : (v ++ ';' :: w).drop (v.length + 1) = w := by simp
      rw [eq, split, length, behind, List.take_length_add_append] at taken
      have front : token ++ (blanks ++ ':' :: v) = body :=
        eq_of_append_semicolon semicolon_notMem_trail semicolon_notMem_trail (by simpa using taken)
      simp [← front]
    | none =>
      have lineEnd : toLineEnd .value v = some k := by simpa [valueLength?, ends] using value
      have split : token ++ (blanks ++ ':' :: v) = (token ++ (blanks ++ [':'])) ++ v := by simp
      have length : token.length + blanks.length + 1 + k + trailLength (v.drop k) =
          (token ++ (blanks ++ [':'])).length + (k + trailLength (v.drop k)) := by simp; omega
      rw [eq, split, length, List.take_length_add_append, List.take_add, ← List.append_assoc,
        List.append_assoc body, List.singleton_append] at taken
      refine absurd taken (ne_of_toLineEnd lineEnd ?_ semicolon_notMem_trail closing_notMem_trail)
      simp only [List.mem_append, List.mem_singleton, Char.reduceEq, or_false, not_or]
      exact ⟨fun h => absurd (ht.chars _ h) (by decide), fun h => absurd (blank _ h) (by decide)⟩
  · rintro ⟨blanks, v, rfl, blank, hv⟩
    have taken := declarationRule_taken ht start hb blank hv rest
    simpa using taken

theorem atLineStart_declarationRule (token : Text) : (declarationRule token).AtLineStart := by
  intro c t hc
  simp [declarationRule, startsLine, hc]

end StyleTokens.Prune
