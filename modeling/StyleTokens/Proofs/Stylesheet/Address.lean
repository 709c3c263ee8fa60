import StyleTokens.Proofs.Stylesheet.Comments

/-!
# Addresses without quotes

Inside of `url(...)` two slashes open no comment and a semicolon ends nothing: both are part of the
address. But a slash and a star open a block comment there as anywhere else. So an address is kept
as it is written exactly if there is no `/*` in it: `url(x/*y*/z)` is read as `url(xz)`, and behind
`url(/*` the stylesheet has no end.

## Main definitions

* `isAddressChar`: the characters of an address without quotes
* `address`, `addressSheet`: an address, and a stylesheet with one declaration of it
* `uncommented`: a text without its block comments

## Main results

* `uncommented_eq_self_iff`: the texts without block comments
* `Scanner.StandsAt.run_address`: the scanner along an address
* `scan_addressSheet`: what a stylesheet with an address is read as
* `scan_address_iff`: the addresses that are kept as they are written
-/

namespace StyleTokens

/-- The characters of an address without quotes. -/
def isAddressChar (c : Char) : Bool :=
  !List.contains ['"', '\x27', '(', ')', '{', '}', '\n'] c

/-- An address as it is written. -/
def address (u : Text) : Text :=
  "url(".toList ++ u ++ [')']

/-- A declaration with an address, alone in a block. -/
def addressSheet (u : Text) : Text :=
  "a \x7b b: url(".toList ++ u ++ "); \x7d".toList

/-! ## Texts without their block comments -/

/-- The text without its block comments, and whether one is open at its end; `inside` tells that
one is open in front of it. -/
def uncommented : (inside : Bool) → Text → Text × Bool
  | inside, [] => ([], inside)
  | false, '/' :: '*' :: t => uncommented true t
  | true, '*' :: '/' :: t => uncommented false t
  | false, c :: t => (c :: (uncommented false t).1, (uncommented false t).2)
  | true, _ :: t => uncommented true t

section

variable {inside : Bool} {u : Text}

theorem uncommented_of_not_infix (h : ¬"/*".toList <:+: u) : uncommented false u = (u, false) := by
  induction u with
  | nil => rfl
  | cons c u ih =>
    have rest : uncommented false u = (u, false) := ih fun opened =>
      h (opened.trans (List.suffix_cons c u).isInfix)
    rw [uncommented, rest]
    rintro t rfl rfl
    exact h ⟨[], t, rfl⟩

/-- A comment makes a text longer than what is left of it. -/
theorem length_uncommented : (uncommented inside u).1.length ≤ u.length ∧
    (inside = false → "/*".toList <:+: u → (uncommented inside u).1.length < u.length) := by
  fun_induction uncommented inside u with
  | case1 => simp
  | case2 t ih =>
    have := ih.1
    simp only [List.length_cons]
    omega
  | case3 t ih =>
    have := ih.1
    simp only [List.length_cons]
    omega
  | case4 c t noComment ih =>
    refine ⟨by simpa using ih.1, fun _ comment => ?_⟩
    have behind : "/*".toList <:+: t := by
      rcases List.infix_cons_iff.mp comment with ⟨x, eq⟩ | behind
      · cases eq
        exact absurd rfl (noComment x rfl)
      · exact behind
    simpa using ih.2 rfl behind
  | case5 c t _ ih =>
    have := ih.1
    simp only [List.length_cons]
    omega

/-- **A text is left as it is** exactly if it opens no block comment. -/
theorem uncommented_eq_self_iff : uncommented false u = (u, false) ↔ ¬"/*".toList <:+: u := by
  refine ⟨fun h comment => ?_, uncommented_of_not_infix⟩
  have shorter := length_uncommented.2 rfl comment
  rw [h] at shorter
  exact Nat.lt_irrefl _ shorter

end

/-! ## Along an address -/

namespace Scanner

variable {s : Scanner} {t u : Text} {c : Char}

/-- Inside of `url(...)`, a character that opens no comment is part of the address. -/
theorem run_addressChar (hm : s.mode = .code) (inside : 0 < s.parens) (url : s.urlParen ≠ 0)
    (hu : ∀ d ∈ c :: t, isAddressChar d) (comment : ¬(c = '/' ∧ t.head? = some '*')) (rest : Text) :
    s.run (c :: (t ++ ')' :: rest)) = (s.add c).run (t ++ ')' :: rest) := by
  -- the next character is one of the address or the parenthesis behind it
  obtain ⟨d, w, eq, next⟩ : ∃ d w, t ++ ')' :: rest = d :: w ∧ (t.head? = some d ∨ d = ')') := by
    cases t with
    | nil => exact ⟨_, _, rfl, .inr rfl⟩
    | cons e t => exact ⟨_, _, rfl, .inl rfl⟩
  rw [eq]
  by_cases slash : c = '/'
  · subst slash
    refine run_slash hm (fun _ => url) ?_
    rintro rfl
    exact comment ⟨rfl, next.resolve_right (by decide)⟩
  by_cases hash : c = '#'
  · subst hash
    refine run_hash hm ?_
    rintro rfl
    have mem := List.mem_of_head? (next.resolve_right (by decide))
    exact absurd (hu _ (List.mem_cons_of_mem _ mem)) (by decide)
  by_cases semicolon : c = ';'
  · subst semicolon
    exact run_cons (step_semicolon hm (.inl inside))
  · have hc := hu c List.mem_cons_self
    have plain : isPlain c := by
      simp only [isAddressChar, isPlain, List.contains_cons, Bool.not_eq_true',
        Bool.or_eq_false_iff, beq_eq_false_iff_ne] at hc ⊢
      obtain ⟨double, single, left, right, opens, closes, newline, last⟩ := hc
      exact ⟨double, single, left, right, opens, closes, semicolon, newline, last⟩
    exact run_cons (step_plain hm plain slash hash)

/-- In front of a text without an open comment, or inside of a comment that was opened on this line
and that the first character does not close. -/
def StandsAt (s : Scanner) (u : Text) : (inside : Bool) → Prop
  | false => s.mode = .code
  | true => ∃ star, s.mode = .blockComment s.line star ∧ (star → u.head? ≠ some '/')

/-- A character of a comment that does not close it. -/
theorem StandsAt.step_comment (hs : s.StandsAt (c :: t) true) (newline : c ≠ '\n') :
    s.step c = .ok { s with mode := .blockComment s.line (c = '*') } := by
  obtain ⟨star, mode, stays⟩ := hs
  rw [step_blockComment mode (by simpa using stays), if_neg newline]

/-- **The inside of `url(...)`** is read without its block comments. -/
theorem StandsAt.run_address {inside : Bool} (hs : s.StandsAt u inside) (parens : 0 < s.parens)
    (url : s.urlParen ≠ 0) (hu : ∀ c ∈ u, isAddressChar c) (rest : Text) :
    ∃ mode, s.run (u ++ ')' :: rest) =
        ({ s.addAll (uncommented inside u).1 with mode } : Scanner).run (')' :: rest) ∧
      ({ s with mode } : Scanner).StandsAt (')' :: rest) (uncommented inside u).2 := by
  -- Induction on the parts of the text. What was read of the address is in the state, so it is
  -- generalized.
  fun_induction uncommented inside u generalizing s with
  | case1 inside =>
    refine ⟨s.mode, rfl, ?_⟩
    cases inside with
    | false => exact hs
    | true =>
      obtain ⟨star, mode, -⟩ := hs
      exact ⟨star, mode, by simp⟩
  | case2 t ih =>
    -- a comment opens
    simp only [List.forall_mem_cons] at hu
    have star : ({ s with mode := .slash } : Scanner).step '*' =
        .ok { s with mode := .blockComment s.line false } := rfl
    obtain ⟨mode, read, stands⟩ :=
      ih (s := { s with mode := .blockComment s.line false }) ⟨false, rfl, nofun⟩ parens url hu.2.2
    exact ⟨mode, (run_cons (step_slash hs)).trans ((run_cons star).trans read), stands⟩
  | case3 t ih =>
    -- the comment closes
    simp only [List.forall_mem_cons] at hu
    have star := hs.step_comment (by decide)
    have slash : ({ s with mode := .blockComment s.line true } : Scanner).step '/' =
        .ok { s with mode := .code } := rfl
    obtain ⟨mode, read, stands⟩ := ih (s := { s with mode := .code }) rfl parens url hu.2.2
    exact ⟨mode, (run_cons star).trans ((run_cons slash).trans read), stands⟩
  | case4 c t noComment ih =>
    have comment : ¬(c = '/' ∧ t.head? = some '*') := by
      rintro ⟨slash, head⟩
      obtain ⟨w, eq⟩ := List.head?_eq_some_iff.mp head
      exact noComment w slash eq
    obtain ⟨mode, read, stands⟩ :=
      ih (s := s.add c) hs parens url fun d hd => hu d (List.mem_cons_of_mem c hd)
    exact ⟨mode, (run_addressChar hs parens url hu comment rest).trans read, stands⟩
  | case5 c t open_ ih =>
    rw [List.forall_mem_cons] at hu
    have newline : c ≠ '\n' := by
      rintro rfl
      exact absurd hu.1 (by decide)
    have stands : ({ s with mode := .blockComment s.line (c = '*') } : Scanner).StandsAt t
        true := by
      refine ⟨decide (c = '*'), rfl, fun star head => ?_⟩
      obtain ⟨w, eq⟩ := List.head?_eq_some_iff.mp head
      exact open_ w (of_decide_eq_true star) eq
    obtain ⟨mode, read, stands⟩ := ih stands parens url hu.2
    exact ⟨mode, (run_cons (hs.step_comment newline)).trans read, stands⟩

/-- A comment that no slash closes is open at the end. -/
theorem finish_openComment {start : Nat} {star : Bool} (hm : s.mode = .blockComment start star)
    (ht : '/' ∉ t) : (s.run t >>= finish) = .error ⟨.unterminatedComment, start⟩ := by
  induction t generalizing s star with
  | nil =>
    have settled : s.settle = .error ⟨.unterminatedComment, start⟩ := by simp only [settle, hm]
    change s.finish = _
    rw [finish, settled]
    rfl
  | cons c t ih =>
    simp only [List.mem_cons, not_or] at ht
    rw [run_cons (step_blockComment hm fun _ => Ne.symm ht.1)]
    exact ih rfl ht.2

end Scanner

/-! ## A stylesheet with an address -/

section

variable {u : Text}

theorem Text.trim_address : Text.trim (' ' :: address u) = address u := by
  have split : address u = 'u' :: ("rl(".toList ++ u ++ [')']) := rfl
  have blank : ∀ c ∈ [' '], isBlank c := by decide
  rw [split]
  exact (Text.trim_blanks_append_cons _ blank (by decide)).trans
    (congrArg _ (Text.dropEndWhile_concat _ (by decide)))

/-- **A stylesheet with an address** is read as without the block comments of the address. It is
not accepted if one of them is open. -/
theorem scan_addressSheet (hu : ∀ c ∈ u, isAddressChar c) : scan (addressSheet u) =
    if (uncommented false u).2 then .error ⟨.unterminatedComment, 1⟩
    else .ok [.declaration ['b'] (address (uncommented false u).1) 1] := by
  -- the scanner behind the brace, and behind the parenthesis
  let block : Scanner := { openBlocks := [1] }
  let opened : Scanner := { block.addAll " b: url(".toList with parens := 1, urlParen := 1 }
  have front : Scanner.run {} "a \x7b b: url(".toList = .ok opened := by decide +kernel
  have start : opened.StandsAt u false := rfl
  obtain ⟨mode, read, stands⟩ :=
    start.run_address (by decide) (by decide) hu (';' :: " \x7d".toList)
  have sheet : scan (addressSheet u) = opened.run (u ++ ')' :: ';' :: " \x7d".toList) >>= _ :=
    (congrArg scan (List.append_assoc _ u _)).trans (scan_append front)
  rw [sheet, read]
  generalize uncommented false u = kept at stands
  obtain ⟨v, commented⟩ := kept
  cases commented with
  | true =>
    obtain ⟨star, mode_eq, -⟩ := stands
    exact Scanner.finish_openComment mode_eq (by decide)
  | false =>
    obtain rfl : mode = .code := stands
    let declaration : Text := [' '] ++ (['b'] ++ ':' :: ' ' :: address v)
    have closes : ({ opened.addAll v with mode := .code } : Scanner).step ')' =
        .ok (block.addAll declaration) := by
      have joined : declaration = " b: url(".toList ++ v ++ [')'] := rfl
      rw [Scanner.step_close rfl, joined, Scanner.addAll_append, Scanner.addAll_append]
      rfl
    have fresh : block.Fresh := by decide
    have spelled : block.spelled declaration false = [.declaration ['b'] (address v) 1] := by
      rw [fresh.spelled_declaration (by decide) (by decide) (by decide) (by decide),
        Text.trim_address]
    have ends : (block.addAll declaration).step ';' =
        .ok { block with found := [.declaration ['b'] (address v) 1] } := by
      rw [Scanner.step_end rfl rfl rfl, Scanner.emit_addAll, spelled]
      rfl
    rw [Scanner.run_cons closes, Scanner.run_cons ends]
    rfl

theorem address_injective {u v : Text} (h : address u = address v) : u = v :=
  List.append_cancel_left (List.append_cancel_right h)

/-- **An address is kept as it is written** exactly if it opens no block comment: then the
stylesheet has one statement, the declaration with the address for its value. Two slashes, a
semicolon, a colon or a hash anywhere in it change nothing. -/
theorem scan_address_iff (hu : ∀ c ∈ u, isAddressChar c) :
    scan (addressSheet u) = .ok [.declaration ['b'] (address u) 1] ↔ ¬"/*".toList <:+: u := by
  rw [scan_addressSheet hu, ← uncommented_eq_self_iff]
  constructor
  · intro h
    split_ifs at h with commented
    simp only [Except.ok.injEq, List.cons.injEq, Statement.declaration.injEq] at h
    exact Prod.ext (address_injective h.1.2.1) (by simpa using commented)
  · intro h
    rw [h]
    rfl

/-- An address with slashes at both ends, a semicolon, a colon, a star and a hash. -/
theorem scan_address_iff_slashes :
    (∀ c ∈ "//t.x/a;b:c*/#/".toList, isAddressChar c) ∧ ¬"/*".toList <:+: "//t.x/a;b:c*/#/".toList ∧
    scan (addressSheet "//t.x/a;b:c*/#/".toList) =
      .ok [.declaration ['b'] (address "//t.x/a;b:c*/#/".toList) 1] := by
  have chars : ∀ c ∈ "//t.x/a;b:c*/#/".toList, isAddressChar c := by decide
  have noComment : ¬"/*".toList <:+: "//t.x/a;b:c*/#/".toList :=
    uncommented_eq_self_iff.mp (by decide +kernel)
  exact ⟨chars, noComment, (scan_address_iff chars).mpr noComment⟩

/-- A comment is taken out of an address, and an open one takes the rest of the stylesheet. -/
theorem scan_address_commented :
    (∀ c ∈ "x/*y*/z".toList, isAddressChar c) ∧ (∀ c ∈ "/*".toList, isAddressChar c) ∧
    scan (addressSheet "x/*y*/z".toList) ≠
      .ok [.declaration ['b'] (address "x/*y*/z".toList) 1] ∧
    scan (addressSheet "x/*y*/z".toList) = .ok [.declaration ['b'] "url(xz)".toList 1] ∧
    scan (addressSheet "/*".toList) = .error ⟨.unterminatedComment, 1⟩ :=
  ⟨by decide, by decide, by decide +kernel, by decide +kernel, by decide +kernel⟩

end

end StyleTokens
