import Mathlib.Data.List.Infix
import Mathlib.Data.List.Nodup
import StyleTokens.Proofs.Prune.Declaration

/-!
# Deleting declarations a second time

A second deletion of the same tokens may find something that the first one has left: of two
declarations on one line only the first is at the start of its line, and once it is deleted, the
other one is. What the second deletion finds is always of this kind. To say so, the characters of
the text are numbered, and keep their numbers while others are deleted. Two neighbours whose
numbers do not follow each other form a seam. A declaration that is left starts right behind a
seam or runs across one; where there is none, the deletion changes nothing more.

The proof goes back from the text that is left to the text that the token was deleted from. A
declaration without a seam stands there in one piece, and whether it is taken depends on nothing
but its own characters; so it would have been deleted.

## Main definitions

* `Rule.keptFrom`, `Prune.remaining`: the numbered characters that are left
* `Prune.Seamless`: a part of a numbered text without a seam in it or in front of it

## Main results

* `Prune.isSome_declarationRule`: a declaration is found by its own characters
* `Prune.not_seamless`: a declaration that is left has a seam
* `Prune.prune_prune_iff`: when a second deletion finds nothing
-/

namespace StyleTokens

namespace Prune

variable {token t v y z : Text} {within : Within} {before : Option Char} {n k : Nat}

/-! ## A declaration is found by its own characters -/

/-- Whether a value runs to a semicolon is settled by its own characters. -/
theorem toSemicolon_append (h : toSemicolon .value t = some n) (z : Text) :
    toSemicolon .value (t.take n ++ z) = some n := by
  obtain ⟨v, w, rfl, hv, rfl⟩ := toSemicolon_eq_some_iff.mp h
  have front : (v ++ ';' :: w).take (v.length + 1) ++ z = v ++ ';' :: z := by
    rw [List.take_length_add_append]
    simp
  rw [front]
  exact hv.toSemicolon_eq z

/-- A value that runs to the end of its line is followed by a line break, or by nothing. -/
theorem head?_drop_of_toLineEnd (h : toLineEnd within t = some n) :
    ∀ c ∈ (t.drop n).head?, c = '\n' := by
  fun_induction toLineEnd within t generalizing n with
  | case1 => simp
  | case3 =>
    cases h
    simp
  | case2 | case4 | case8 | case10 => cases h
  | case5 c cs newline ends hash ih | case6 c cs newline ends hash ih | case7 c cs ih
  | case9 c cs opens ih =>
    obtain ⟨m, value, rfl⟩ := Option.map_eq_some_iff.mp h
    exact ih value

/-- A value that runs to the end of the text does not end in a line break. -/
theorem getLast?_of_toLineEnd (h : toLineEnd within t = some n) (all : t.drop n = []) :
    t.getLast? ≠ some '\n' := by
  -- the last character is none of a value, or closes an interpolation
  have last : ∀ {within' : Within} {c : Char} {cs : Text} {m : Nat},
      toLineEnd within' cs = some m → cs.getLast? ≠ some '\n' → (within' = .value → c ≠ '\n') →
      (c :: cs).getLast? ≠ some '\n' := by
    intro within' c cs m value rest first
    cases cs with
    | nil =>
      cases within' with
      | value => simpa using first rfl
      | hash => cases value
      | braces => cases value
      | quotes q => cases value
    | cons d cs => simpa using rest
  fun_induction toLineEnd within t generalizing n with
  | case1 => simp
  | case3 =>
    cases h
    cases all
  | case2 | case4 | case8 | case10 => cases h
  | case5 c cs newline ends hash ih | case6 c cs newline ends hash ih =>
    obtain ⟨m, value, rfl⟩ := Option.map_eq_some_iff.mp h
    exact last value (ih value all) fun _ => newline
  | case7 c cs ih =>
    obtain ⟨m, value, rfl⟩ := Option.map_eq_some_iff.mp h
    exact last value (ih value all) nofun
  | case9 c cs opens ih =>
    obtain ⟨m, value, rfl⟩ := Option.map_eq_some_iff.mp h
    refine last value (ih value all) fun closes => ?_
    split_ifs at closes with brace
    exact brace ▸ by decide

/-- Whether a value runs to the end of its line is settled by its own characters. -/
theorem toLineEnd_append (h : toLineEnd within t = some n) (hz : ∀ c ∈ z.head?, c = '\n') :
    toLineEnd within (t.take n ++ z) = some n := by
  have empty : toLineEnd .value z = some 0 := by
    cases z with
    | nil => rfl
    | cons c z => simp [toLineEnd, hz c rfl]
  fun_induction toLineEnd within t generalizing n with
  | case1 =>
    cases h
    exact empty
  | case3 =>
    cases h
    exact empty
  | case2 | case4 | case8 | case10 => cases h
  | case5 c cs newline ends hash ih =>
    obtain ⟨m, value, rfl⟩ := Option.map_eq_some_iff.mp h
    have head : (cs.take m ++ z).head? = cs.head? := by
      cases cs with
      | nil => cases value
      | cons d cs =>
        rw [toLineEnd] at value
        obtain ⟨k, -, rfl⟩ := Option.map_eq_some_iff.mp value
        rfl
    rw [List.take_succ_cons, List.cons_append, toLineEnd, if_neg newline, if_neg ends, head,
      if_pos hash, ih value, Option.map_some]
  | case6 c cs newline ends hash ih =>
    obtain ⟨m, value, rfl⟩ := Option.map_eq_some_iff.mp h
    -- a hash at the end of the value stands in front of the line break, not of a brace
    have brace : (cs.take m ++ z).head? = some '{' → cs.head? = some '{' := by
      intro head
      rcases m with _ | m
      · exact absurd (hz _ head) (by decide)
      · cases cs with
        | nil => exact absurd (hz _ head) (by decide)
        | cons d cs => exact head
    have hash' : ¬((decide (c = '#') && decide ((cs.take m ++ z).head? = some '{')) = true) := by
      simp only [Bool.and_eq_true, decide_eq_true_eq] at hash ⊢
      exact fun both => hash ⟨both.1, brace both.2⟩
    rw [List.take_succ_cons, List.cons_append, toLineEnd, if_neg newline, if_neg ends,
      if_neg hash', ih value, Option.map_some]
  | case7 c cs ih =>
    obtain ⟨m, value, rfl⟩ := Option.map_eq_some_iff.mp h
    rw [List.take_succ_cons, List.cons_append, toLineEnd, ih value, Option.map_some]
  | case9 c cs opens ih =>
    obtain ⟨m, value, rfl⟩ := Option.map_eq_some_iff.mp h
    rw [List.take_succ_cons, List.cons_append, toLineEnd, if_neg opens, ih value, Option.map_some]

/-- What trails a value that runs to the end of its line is the line break, if there is one. -/
theorem take_trailLength_newline (t : Text) :
    ('\n' :: t).take (trailLength ('\n' :: t)) = ['\n'] :=
  rfl

/-- A value is found by its own characters and what trails it; if it ends the text, but not with a
line break, nothing else may follow. -/
theorem isSome_valueLength? (h : valueLength? v = some k)
    (hz : v.drop (k + trailLength (v.drop k)) = [] → v.getLast? ≠ some '\n' → z = []) :
    (valueLength? (v.take (k + trailLength (v.drop k)) ++ z)).isSome := by
  rw [List.take_add, List.append_assoc]
  cases ends : toSemicolon .value v with
  | some m =>
    obtain rfl : m = k := by simpa [valueLength?, ends] using h
    rw [valueLength?, toSemicolon_append ends]
    rfl
  | none =>
    have lineEnd : toLineEnd .value v = some k := by simpa [valueLength?, ends] using h
    have found : toLineEnd .value
        (v.take k ++ ((v.drop k).take (trailLength (v.drop k)) ++ z)) = some k := by
      refine toLineEnd_append lineEnd ?_
      have head := head?_drop_of_toLineEnd lineEnd
      have last := getLast?_of_toLineEnd lineEnd
      rw [← List.drop_drop] at hz
      cases rest : v.drop k with
      | nil =>
        have nil : z = [] := hz (by rw [rest]; rfl) (last rest)
        simp [nil]
      | cons c rest' =>
        obtain rfl : c = '\n' := head c (by rw [rest]; rfl)
        rw [take_trailLength_newline]
        simp
    rw [valueLength?, found]
    simp

theorem isSome_declarationLength? (h : declarationLength? token t = some n)
    (hz : t.drop n = [] → t.getLast? ≠ some '\n' → z = []) :
    (declarationLength? token (t.take n ++ z)).isSome := by
  obtain ⟨blanks, v, k, rfl, blank, value, rfl⟩ := declarationLength?_eq_some_iff.mp h
  have split : token ++ (blanks ++ ':' :: v) = (token ++ (blanks ++ [':'])) ++ v := by simp
  have length : token.length + blanks.length + 1 + k + trailLength (v.drop k) =
      (token ++ (blanks ++ [':'])).length + (k + trailLength (v.drop k)) := by simp; omega
  rw [split, length] at hz ⊢
  rw [List.drop_length_add_append] at hz
  have found : (valueLength? (v.take (k + trailLength (v.drop k)) ++ z)).isSome := by
    refine isSome_valueLength? value fun all last => hz all ?_
    cases v with
    | nil => simp
    | cons c v => simpa using last
  obtain ⟨m, found⟩ := Option.isSome_iff_exists.mp found
  refine Option.isSome_iff_exists.mpr ⟨_, declarationLength?_eq_some_iff.mpr
    ⟨blanks, v.take (k + trailLength (v.drop k)) ++ z, m, ?_, blank, found, rfl⟩⟩
  rw [List.take_length_add_append]
  simp

/-- What the rule for a token takes: some indentation, and a declaration behind it. -/
theorem declarationRule_eq_some {h : Hit Unit} (found : declarationRule token before t = some h) :
    startsLine before ∧ ∃ i n, i ≤ (t.takeWhile isIndent).length ∧
      declarationLength? token (t.drop i) = some n ∧ h.taken = t.take (i + n) := by
  unfold declarationRule at found
  split_ifs at found with start
  obtain ⟨i, -, found⟩ := List.exists_of_findSome?_eq_some found
  obtain ⟨n, length, rfl⟩ := Option.map_eq_some_iff.mp found
  exact ⟨start, _, n, Nat.sub_le _ i, length, rfl⟩

/-- **A declaration is found by its own characters**, wherever they stand at the start of a line;
if it ends the text, but not with a line break, nothing else may follow. -/
theorem isSome_declarationRule {h : Hit Unit} (found : declarationRule token before t = some h)
    (hz : h.taken = t → t.getLast? ≠ some '\n' → z = []) :
    (declarationRule token before (h.taken ++ z)).isSome := by
  obtain ⟨start, i, n, indent, length, taken⟩ := declarationRule_eq_some found
  have le : i ≤ t.length := indent.trans (List.takeWhile_prefix _).length_le
  have front : (t.take i).length = i := List.length_take_of_le le
  have split : h.taken ++ z = t.take i ++ ((t.drop i).take n ++ z) := by
    rw [taken, List.take_add, List.append_assoc]
  have behind : (h.taken ++ z).drop i = (t.drop i).take n ++ z := by
    rw [split, List.drop_left' front]
  -- the indentation in front of the declaration is there as well
  have indent' : i ≤ ((h.taken ++ z).takeWhile isIndent).length := by
    have blanks : ∀ c ∈ t.take i, isIndent c := by
      intro c hc
      rw [← List.takeWhile_append_dropWhile (p := isIndent) (l := t),
        List.take_append_of_le_length indent] at hc
      exact List.mem_takeWhile_imp (List.mem_of_mem_take hc)
    rw [split, List.takeWhile_append_of_pos blanks, List.length_append, front]
    exact Nat.le_add_right _ _
  have again : (declarationLength? token ((h.taken ++ z).drop i)).isSome := by
    rw [behind]
    refine isSome_declarationLength? length fun all last => hz ?_ ?_
    · rw [List.drop_drop, List.drop_eq_nil_iff] at all
      rw [taken, List.take_of_length_le all]
    · obtain ⟨blanks, v, k, eq, -⟩ := declarationLength?_eq_some_iff.mp length
      rw [List.getLast?_drop, if_neg] at last
      · exact last
      · intro short
        rw [List.drop_of_length_le short] at eq
        simp at eq
  unfold declarationRule
  rw [if_pos start, List.findSome?_isSome_iff]
  refine ⟨((h.taken ++ z).takeWhile isIndent).length - i, List.mem_range.mpr (by omega), ?_⟩
  rw [Nat.sub_sub_self indent', Option.isSome_map]
  exact again

end Prune

/-! ## Numbered characters -/

namespace Rule

variable {α : Type} {rule : Rule α} {before : Option Char} {skip : Nat} {x y : Char × Nat}
  {m : List (Char × Nat)}

/-- The numbered characters that are left when the hits of the rule are deleted, where the first
`skip` characters are taken already. -/
def keptFrom (rule : Rule α) : Nat → Option Char → List (Char × Nat) → List (Char × Nat)
  | _, _, [] => []
  | skip + 1, _, x :: m => keptFrom rule skip (some x.1) m
  | 0, before, x :: m =>
    match rule before (x.1 :: m.map Prod.fst) with
    | some h => keptFrom rule (h.taken.length - 1) (some x.1) m
    | none => x :: keptFrom rule 0 (some x.1) m

theorem map_fst_keptFrom : (rule.keptFrom skip before m).map Prod.fst =
    (rule.piecesFrom skip before (m.map Prod.fst)).flatMap (Piece.output fun _ => []) := by
  fun_induction keptFrom rule skip before m with
  | case1 => simp [piecesFrom]
  | case2 skip _ x m ih => rw [ih, List.map_cons, piecesFrom]
  | case3 before x m h hit ih =>
    rw [ih, List.map_cons, piecesFrom, hit]
    rfl
  | case4 before x m left ih =>
    rw [List.map_cons, ih, List.map_cons, piecesFrom, left]
    rfl

theorem keptFrom_sublist : (rule.keptFrom skip before m).Sublist m := by
  fun_induction keptFrom rule skip before m with
  | case1 => exact List.Sublist.refl []
  | case2 skip _ x m ih => exact ih.cons x
  | case3 before x m h hit ih => exact ih.cons x
  | case4 before x m left ih => exact ih.cons_cons x

/-- **A character that is left** stands where the rule does not hit, and the deletion goes on
behind it. -/
theorem exists_of_mem_keptFrom (hx : x ∈ rule.keptFrom skip before m) : ∃ p q p',
    m = p ++ x :: q ∧ p'.Sublist p ∧
      rule ((p.map Prod.fst).getLast? <|> before) (x.1 :: q.map Prod.fst) = none ∧
      rule.keptFrom skip before m = p' ++ x :: rule.keptFrom 0 (some x.1) q := by
  fun_induction keptFrom rule skip before m with
  | case1 => cases hx
  | case2 skip _ x' m ih =>
    obtain ⟨p, q, p', rfl, sub, left, eq⟩ := ih hx
    refine ⟨x' :: p, q, p', rfl, sub.cons x', ?_, eq⟩
    rwa [List.map_cons, getLast?_cons_orElse]
  | case3 before x' m h hit ih =>
    obtain ⟨p, q, p', rfl, sub, left, eq⟩ := ih hx
    refine ⟨x' :: p, q, p', rfl, sub.cons x', ?_, eq⟩
    rwa [List.map_cons, getLast?_cons_orElse]
  | case4 before x' m left ih =>
    rcases List.mem_cons.mp hx with rfl | hx
    · exact ⟨[], m, [], rfl, .refl [], left, rfl⟩
    · obtain ⟨p, q, p', rfl, sub, left', eq⟩ := ih hx
      refine ⟨x' :: p, q, x' :: p', rfl, sub.cons_cons x', ?_, ?_⟩
      · rwa [List.map_cons, getLast?_cons_orElse]
      · rw [eq]
        rfl

end Rule

namespace Prune

variable {tokens : List Text} {token t : Text} {m a d p q rest : List (Char × Nat)}
  {x y : Char × Nat} {k : Nat}

/-- The numbered characters that are left when the declarations of the tokens are deleted, one
token after another. -/
def remaining : List Text → List (Char × Nat) → List (Char × Nat)
  | [], m => m
  | token :: tokens, m => remaining tokens ((declarationRule token).keptFrom 0 none m)

theorem map_fst_remaining :
    (remaining tokens m).map Prod.fst = (prune tokens (m.map Prod.fst)).1 := by
  induction tokens generalizing m with
  | nil => rfl
  | cons token tokens ih =>
    rw [remaining, ih, Rule.map_fst_keptFrom]
    rfl

theorem remaining_sublist : (remaining tokens m).Sublist m := by
  induction tokens generalizing m with
  | nil => exact List.Sublist.refl m
  | cons token tokens ih => exact ih.trans Rule.keptFrom_sublist

/-- In a list without duplicates, a member stands at one place only. -/
theorem place_unique (nodup : (p ++ x :: q).Nodup) {p' q' : List (Char × Nat)}
    (eq : p ++ x :: q = p' ++ x :: q') : p = p' ∧ q = q' := by
  rw [List.nodup_middle, List.nodup_cons, List.mem_append, not_or] at nodup
  obtain ⟨front, -, back⟩ := (List.append_cons_inj_of_notMem nodup.1.1 nodup.1.2).mp eq
  exact ⟨front, back⟩

/-- No declaration starts inside of a line: behind a character that is left and does not end its
line, the next one is left as well. -/
theorem mem_remaining_next (nodup : m.Nodup) (split : m = p ++ x :: y :: q)
    (hx : x ∈ remaining tokens m) (line : x.1 ≠ '\n') : y ∈ remaining tokens m := by
  induction tokens generalizing m p q with
  | nil =>
    rw [remaining, split]
    simp
  | cons token tokens ih =>
    have kept : x ∈ (declarationRule token).keptFrom 0 none m := remaining_sublist.subset hx
    obtain ⟨p₁, q₁, p', split₁, -, -, rest⟩ := Rule.exists_of_mem_keptFrom kept
    obtain ⟨-, rfl⟩ := place_unique (split ▸ nodup) (split.symm.trans split₁)
    have next : (declarationRule token).keptFrom 0 (some x.1) (y :: q) =
        y :: (declarationRule token).keptFrom 0 (some y.1) q := by
      rw [Rule.keptFrom, atLineStart_declarationRule token _ _ line]
    rw [next] at rest
    exact ih (nodup.sublist Rule.keptFrom_sublist) rest hx

/-! ## Seams -/

/-- There is no seam in `d`, nor in front of it where it stands behind `a`: the numbers go on
without a gap, or start at zero if nothing stands before. -/
def Seamless (a d : List (Char × Nat)) : Prop :=
  d.map Prod.snd = List.range' ((a.getLast?.map (·.2 + 1)).getD 0) d.length

/-- Among characters in order, those whose numbers follow each other are neighbours. -/
theorem prefix_of_sublist (ordered : q.Pairwise (·.2 < ·.2)) (above : ∀ x ∈ q, k ≤ x.2)
    (sub : d.Sublist q) (numbers : d.map Prod.snd = List.range' k d.length) : d <+: q := by
  induction d generalizing q k with
  | nil => exact List.nil_prefix
  | cons y d ih =>
    rw [List.map_cons, List.length_cons, List.range'_succ, List.cons.injEq] at numbers
    obtain ⟨first, numbers⟩ := numbers
    cases q with
    | nil => cases sub
    | cons z q =>
      rw [List.pairwise_cons] at ordered
      rw [List.forall_mem_cons] at above
      rcases List.cons_sublist_cons'.mp sub with later | ⟨rfl, inner⟩
      · -- a number between that of the first character and `k` does not exist
        have less := ordered.1 y (later.subset List.mem_cons_self)
        omega
      · have rest := ih ordered.2 (fun x hx => first ▸ ordered.1 x hx) inner numbers
        exact List.cons_prefix_cons.mpr ⟨rfl, rest⟩

/-- **What is left without a seam** stood in one piece before, behind the same character. -/
theorem exists_of_seamless (ordered : m.Pairwise (·.2 < ·.2)) (sub : (a ++ d).Sublist m)
    (h : Seamless a d) : ∃ p q, m = p ++ (d ++ q) ∧ p.getLast? = a.getLast? := by
  rcases List.eq_nil_or_concat' a with rfl | ⟨a, b, rfl⟩
  · obtain ⟨q, rfl⟩ := prefix_of_sublist ordered (fun _ _ => Nat.zero_le _) sub h
    exact ⟨[], q, rfl, rfl⟩
  · rw [Seamless, List.getLast?_concat] at h
    rw [List.append_assoc, List.singleton_append] at sub
    obtain ⟨left, right, rfl, before, behind⟩ :=
      List.cons_sublist_iff.mp ((List.sublist_append_right a _).trans sub)
    obtain ⟨p, q, rfl⟩ := List.append_of_mem before
    rw [List.append_assoc, List.cons_append, List.pairwise_append, List.pairwise_cons] at ordered
    obtain ⟨q', eq⟩ := prefix_of_sublist ordered.2.1.2 (fun x hx => ordered.2.1.1 x hx)
      (behind.trans (List.sublist_append_right q right)) h
    refine ⟨p ++ [b], q', ?_, by simp⟩
    simp [eq]

theorem nodup_of_ordered (ordered : m.Pairwise (·.2 < ·.2)) : m.Nodup :=
  ordered.imp fun less same => absurd (same ▸ less) (lt_irrefl _)

/-- Behind what ends the text that is left, but not with a line break, nothing was deleted. -/
theorem eq_nil_of_ends (ordered : m.Pairwise (·.2 < ·.2)) (split : m = p ++ (d ++ q))
    (ends : remaining tokens m = a ++ d) (ne : d ≠ [])
    (line : (d.map Prod.fst).getLast? ≠ some '\n') : q = [] := by
  obtain ⟨front, z, rfl⟩ := (List.eq_nil_or_concat' d).resolve_left ne
  cases q with
  | nil => rfl
  | cons y q =>
    have split' : m = (p ++ front) ++ z :: y :: q := by simp [split]
    have last : z ∈ remaining tokens m := by simp [ends]
    have next : y ∈ remaining tokens m :=
      mem_remaining_next (nodup_of_ordered ordered) split' last (by simpa using line)
    -- the character behind the last one has a number above those of all that is left
    have above : z.2 < y.2 := by
      rw [split', List.pairwise_append, List.pairwise_cons] at ordered
      exact ordered.2.1.1 y (by simp)
    have below : y = z ∨ y.2 < z.2 := by
      have ordered' : (remaining tokens m).Pairwise (·.2 < ·.2) :=
        ordered.sublist remaining_sublist
      rw [ends, ← List.append_assoc] at ordered' next
      rcases List.mem_append.mp next with before | same
      · exact .inr ((List.pairwise_append.mp ordered').2.2 y before z (by simp))
      · exact .inl (by simpa using same)
    rcases below with rfl | below
    · exact absurd above (lt_irrefl _)
    · exact absurd (above.trans below) (lt_irrefl _)

/-- **A declaration that is left has a seam**: without one, it stood in one piece in the text
that its token was deleted from, and would have been deleted. -/
theorem not_seamless (ordered : m.Pairwise (·.2 < ·.2)) (mem : token ∈ tokens)
    (eq : remaining tokens m = a ++ (d ++ rest)) (ne : d ≠ [])
    (hit : declarationRule token (a.getLast?.map Prod.fst) ((d ++ rest).map Prod.fst) =
      some ⟨d.map Prod.fst, ()⟩) : ¬Seamless a d := by
  intro seamless
  induction tokens generalizing m with
  | nil => cases mem
  | cons head tokens ih =>
    rcases List.mem_cons.mp mem with rfl | mem
    · have left : (a ++ d).Sublist (remaining (token :: tokens) m) := by
        rw [eq, ← List.append_assoc]
        exact List.sublist_append_left _ _
      obtain ⟨p, q, split, last⟩ :=
        exists_of_seamless ordered (left.trans remaining_sublist) seamless
      have ends : d.map Prod.fst = (d ++ rest).map Prod.fst →
          ((d ++ rest).map Prod.fst).getLast? ≠ some '\n' → q.map Prod.fst = [] := by
        intro all line
        obtain rfl : rest = [] := by simpa using congrArg List.length all
        rw [List.append_nil] at eq line
        rw [eq_nil_of_ends ordered split eq ne line]
        rfl
      have found := isSome_declarationRule hit ends
      obtain ⟨x, d, rfl⟩ := List.exists_cons_of_ne_nil ne
      have kept : x ∈ (declarationRule token).keptFrom 0 none m :=
        remaining_sublist.subset (left.subset (by simp))
      -- but the rule does not hit where the first character of the declaration was left
      obtain ⟨p₁, q₁, -, split₁, -, none_found, -⟩ := Rule.exists_of_mem_keptFrom kept
      rw [List.cons_append] at split
      obtain ⟨rfl, rfl⟩ := place_unique (split ▸ nodup_of_ordered ordered)
        (split.symm.trans split₁)
      have same : (p.map Prod.fst).getLast? = a.getLast?.map Prod.fst := by
        rw [List.getLast?_map, last]
      rw [Option.orElse_eq_orElse, Option.orElse_eq_or, Option.or_none, same] at none_found
      rw [List.map_cons, List.cons_append, ← List.map_append, none_found] at found
      cases found
    · exact ih (ordered.sublist Rule.keptFrom_sublist) mem eq

/-! ## The second deletion -/

theorem honest_declarationRule (token : Text) : (declarationRule token).Honest := by
  intro before t h found
  obtain ⟨-, i, n, -, length, taken⟩ := declarationRule_eq_some found
  refine ⟨taken ▸ List.take_prefix _ t, ?_⟩
  obtain ⟨blanks, v, k, eq, -, -, rfl⟩ := declarationLength?_eq_some_iff.mp length
  intro nil
  rw [taken, List.take_eq_nil_iff] at nil
  rcases nil with zero | rfl
  · omega
  · simp at eq

theorem declares_eq_false_iff :
    declares token t = false ↔ (declarationRule token).HitsNowhere none t := by
  rw [← Rule.hitCount_eq_zero_iff, declares]
  simp

/-- The deletion changes nothing exactly if no token is declared. -/
theorem prune_eq_self_iff : prune tokens t = (t, []) ↔
    ∀ token ∈ tokens, declares token t = false := by
  induction tokens with
  | nil => simp [prune]
  | cons token tokens ih =>
    rw [List.forall_mem_cons, ← ih, prune]
    cases found : declares token t with
    | true => simp
    | false =>
      have same : without token t = t := (declares_eq_false_iff.mp found).replaced_eq _
      simp [same, Prod.ext_iff]

theorem ordered_zipIdx (t : Text) : t.zipIdx.Pairwise (·.2 < ·.2) := by
  rw [← List.pairwise_map (f := Prod.snd), List.zipIdx_map_snd]
  exact List.pairwise_lt_range'

/-- **A second deletion finds nothing exactly if no declaration that is left has a seam.** The
characters of the text are numbered, and those that are left keep their numbers; `d` are those of
a declaration of one of the tokens in what is left, and `a` are those before it. -/
theorem prune_prune_iff (tokens : List Text) (t : Text) :
    prune tokens (prune tokens t).1 = ((prune tokens t).1, []) ↔
      ∀ token ∈ tokens, ∀ a d rest, remaining tokens t.zipIdx = a ++ (d ++ rest) →
        declarationRule token (a.getLast?.map Prod.fst) ((d ++ rest).map Prod.fst) =
          some ⟨d.map Prod.fst, ()⟩ → Seamless a d := by
  have text : (remaining tokens t.zipIdx).map Prod.fst = (prune tokens t).1 := by
    rw [map_fst_remaining, List.zipIdx_map_fst]
  rw [prune_eq_self_iff, ← text]
  constructor
  · intro none_left token mem a d rest eq hit
    have nowhere := declares_eq_false_iff.mp (none_left token mem)
    rw [eq, List.map_append] at nowhere
    -- nothing is found, so there is no declaration to speak of
    have ne : (d ++ rest).map Prod.fst ≠ [] := by
      intro nil
      have taken := honest_declarationRule token _ _ _ hit
      rw [nil] at taken
      exact taken.2 (List.prefix_nil.mp taken.1)
    have miss := nowhere _ _ rfl ne
    rw [Option.orElse_eq_orElse, Option.orElse_eq_or, Option.or_none, List.getLast?_map,
      hit] at miss
    cases miss
  · intro seamless token mem
    rw [declares_eq_false_iff]
    intro u w eq ne
    by_contra found
    obtain ⟨h, found⟩ := Option.ne_none_iff_exists'.mp found
    rw [Option.orElse_eq_orElse, Option.orElse_eq_or, Option.or_none] at found
    -- the characters of the declaration, and those before it and behind it, with their numbers
    obtain ⟨⟨z, rfl⟩, taken⟩ := honest_declarationRule token _ _ _ found
    obtain ⟨a, b, split, rfl, front⟩ := List.map_eq_append_iff.mp eq
    obtain ⟨d, rest, rfl, taken_eq, rfl⟩ := List.map_eq_append_iff.mp front
    have hit : declarationRule token (a.getLast?.map Prod.fst) ((d ++ rest).map Prod.fst) =
        some ⟨d.map Prod.fst, ()⟩ := by
      rw [List.map_append, taken_eq, ← List.getLast?_map, found]
    exact not_seamless (ordered_zipIdx t) mem split (by rintro rfl; exact taken taken_eq.symm) hit
      (seamless token mem a d rest split hit)

/-- Two declarations of a token on one line. -/
def twoOnALine : Text :=
  ":root \x7b\n  --a: 1; --a: 2;\n\x7d\n".toList

/-- Of two declarations on one line, the second deletion takes the one that the first has left. -/
theorem prune_prune_twoOnALine :
    (prune ["--a".toList] twoOnALine).1 = ":root \x7b\n--a: 2;\n\x7d\n".toList ∧
      prune ["--a".toList] (prune ["--a".toList] twoOnALine).1 ≠
        ((prune ["--a".toList] twoOnALine).1, []) := by
  decide

end Prune

end StyleTokens
