import Mathlib.Data.List.Chain
import StyleTokens.Proofs.Report.Placeholders
import StyleTokens.Proofs.Report.RoundTrip

/-!
# Filling in a rendered report

Filling in the placeholders of a rendered report gives the report of the decided groups: every
placeholder is filled with the decision for the group that it stands in.

## Main definitions

* `Group.Fillable`, `Analysis.Fillable`: groups whose lines hold no placeholder by accident
* `Group.decided`, `Analysis.decided`: the groups with their decisions
* `Report.Fills`: what filling makes of some lines, up to how a line is written

## Main results

* `Report.exists_filled`: the lines of the filled report
* `Report.fill_render`: the filled report is the report of the decided groups
-/

namespace StyleTokens

open Report (SafePath SafeName SafeVariant HeaderName)

/-! ## Decided groups -/

/-- A group whose lines hold no placeholder by accident. -/
structure Group.Fillable (group : Group) : Prop extends group.Reportable where
  plain : ∀ name ∈ group.names, SafeName name ∧ ',' ∉ name
  /-- Its paths do not look like a decision. -/
  unmarked : ∀ file ∈ group.files, ¬Text.mentions "Disposition:".toList file

/-- The group with a decision, if it had none. -/
def Group.decided (mode : Disposition) (overrides : Entries Text Disposition) (group : Group) :
    Group :=
  if group.disposition = .unset then
    { group with disposition := Report.decision mode overrides group.names }
  else group

/-- The groups of a kind with their decisions. -/
def KindAnalysis.decided (mode : Disposition) (overrides : Entries Text Disposition)
    (analysis : KindAnalysis) : KindAnalysis where
  kind := analysis.kind
  exact := analysis.exact.map (Group.decided mode overrides)
  near := analysis.near.map (Group.decided mode overrides)

/-- All groups with their decisions. -/
def Analysis.decided (mode : Disposition) (overrides : Entries Text Disposition)
    (analysis : Analysis) : Analysis where
  kinds := analysis.kinds.map (KindAnalysis.decided mode overrides)

/-- All groups of an analysis can be written into a report and filled in there. -/
structure Analysis.Fillable (analysis : Analysis) : Prop where
  reportable : analysis.Reportable
  /-- Their lines hold no placeholder by accident. -/
  groups : ∀ group ∈ analysis.groups, group.Fillable

/-- The number of groups without a decision. -/
def unsetCount (groups : List Group) : Nat :=
  groups.countP fun group => group.disposition = .unset

theorem unsetCount_append (groups more : List Group) :
    unsetCount (groups ++ more) = unsetCount groups + unsetCount more :=
  List.countP_append

theorem Group.Fillable.safeVariant {group : Group} (h : group.Fillable) {name : Text}
    (hn : name ∈ group.names) : SafeVariant name :=
  (h.plain name hn).1.safeVariant (h.plain name hn).2

/-! ## Texts inside of texts -/

namespace Text

variable {part t u : Text} {c : Char}

theorem mentions_iff : mentions part t = true ↔ part <:+: t := by
  induction t with
  | nil => simp [mentions]
  | cons d t ih =>
    rw [mentions, Bool.or_eq_true, ih, List.infix_cons_iff, List.isPrefixOf_iff_prefix]

/-- What starts with another character does not start inside of `u`. -/
theorem infix_of_infix_append (hc : c ∉ u) (h : c :: part <:+: u ++ t) : c :: part <:+: t := by
  induction u with
  | nil => exact h
  | cons d u ih =>
    simp only [List.mem_cons, not_or] at hc
    rw [List.cons_append, List.infix_cons_iff] at h
    rcases h with start | inside
    · exact absurd (List.cons_prefix_cons.mp start).1 hc.1
    · exact ih hc.2 inside

/-- What does not end in a line break stands in front of it. -/
theorem infix_of_infix_concat {d : Char} (hc : c ≠ d) (h : part ++ [c] <:+: t ++ [d]) :
    part ++ [c] <:+: t := by
  rcases List.infix_concat_iff.mp h with ends | inside
  · rcases List.suffix_concat_iff.mp ends with nil | ⟨u, eq, -⟩
    · simp at nil
    · exact absurd (List.append_inj' eq rfl).2 (by simpa using hc)
  · exact inside

end Text

namespace Report

/-! ## Lines without a placeholder -/

/-- A text in which there is nothing to fill in. -/
def Quiet (t : Text) : Prop :=
  ∀ before u, u <:+ t → placeholderRule before u = none

theorem placeholderRule_eq_some {before : Option Char} {t : Text} {hit : Hit Unit}
    (h : placeholderRule before t = some hit) :
    "Disposition:".toList <:+: t ∧ placeholder <:+: t := by
  obtain ⟨blanks, -, -, taken, start⟩ := placeholderRule_eq_some_iff.mp h
  have inside := start.isInfix
  rw [taken] at inside
  refine ⟨List.IsInfix.trans ?_ inside, (List.suffix_append _ placeholder).isInfix.trans inside⟩
  exact ((List.prefix_append _ blanks).trans (List.prefix_append _ placeholder)).isInfix

theorem quiet_of_no_word {t : Text} (h : ¬Text.mentions "Disposition:".toList t) : Quiet t := by
  intro before u hu
  rw [Option.eq_none_iff_forall_ne_some]
  intro hit eq
  exact h (Text.mentions_iff.mpr ((placeholderRule_eq_some eq).1.trans hu.isInfix))

theorem quiet_of_no_placeholder {t : Text} (h : ¬Text.mentions placeholder t) : Quiet t := by
  intro before u hu
  rw [Option.eq_none_iff_forall_ne_some]
  intro hit eq
  exact h (Text.mentions_iff.mpr ((placeholderRule_eq_some eq).2.trans hu.isInfix))

/-- A path in a line that starts without a capital `D` brings no placeholder with it. -/
theorem quiet_path {u path : Text} (hu : 'D' ∉ u)
    (hp : ¬Text.mentions "Disposition:".toList path) : Quiet (u ++ path ++ ['\n']) := by
  refine quiet_of_no_word fun h => hp (Text.mentions_iff.mpr ?_)
  have front : "Disposition".toList ++ [':'] <:+: u ++ path :=
    Text.infix_of_infix_concat (by decide) (Text.mentions_iff.mp h)
  exact Text.infix_of_infix_append hu front

/-- Two neighbours that stand nowhere in a header, but in the placeholder. -/
def HeaderNeighbours (a b : Char) : Prop :=
  ¬(a = 'e' ∧ b = ' ')

instance : DecidableRel HeaderNeighbours := fun a b =>
  inferInstanceAs (Decidable (¬(a = 'e' ∧ b = ' ')))

theorem isChain_of_noBlank {t : Text} (h : ∀ c ∈ t, ¬isBlank c) : t.IsChain HeaderNeighbours := by
  refine List.Pairwise.isChain (List.pairwise_of_forall_mem_list fun a _ b hb both => ?_)
  exact h b hb (both.2 ▸ by decide)

theorem isChain_append {t u : Text} (ht : t.IsChain HeaderNeighbours)
    (hu : u.IsChain HeaderNeighbours) (edge : t.getLast? ≠ some 'e' ∨ u.head? ≠ some ' ') :
    (t ++ u).IsChain HeaderNeighbours := by
  refine List.isChain_append.mpr ⟨ht, hu, ?_⟩
  rintro a last b head ⟨rfl, rfl⟩
  exact edge.elim (· last) (· head)

theorem quiet_of_isChain {t : Text} (h : t.IsChain HeaderNeighbours) : Quiet t := by
  refine quiet_of_no_placeholder fun inside => ?_
  obtain ⟨front, back, eq⟩ := Text.mentions_iff.mp inside
  rw [← eq] at h
  have chain : placeholder.IsChain HeaderNeighbours :=
    (List.isChain_append.mp (List.isChain_append.mp h).1).2.1
  exact absurd chain (by decide)

theorem isChain_joined {names : List Text} (h : ∀ name ∈ names, SafeName name) :
    (Text.joined ", ".toList names).IsChain HeaderNeighbours := by
  induction names with
  | nil => exact .nil
  | cons name names ih =>
    rw [List.forall_mem_cons] at h
    have chain := isChain_of_noBlank h.1.noBlank
    cases names with
    | nil => exact chain
    | cons next names =>
      rw [Text.joined]
      · refine isChain_append (isChain_append chain (by decide) (.inr (by decide))) (ih h.2) ?_
        left
        simp
      · exact List.cons_ne_nil next names

/-! ## Headers -/

/-- The header of a line is read from its body. -/
theorem dropEndWhile_newline {l : Text} (h : l.BreakFree) :
    Text.dropEndWhile (fun c => c = '\r' || c = '\n') (l ++ ['\n']) = l := by
  rw [Text.dropEndWhile_append_of_all (by simp)]
  refine List.rdropWhile_eq_self_iff.mpr fun ne ends => ?_
  simp only [Bool.or_eq_true, decide_eq_true_eq] at ends
  have last := h _ (List.getLast_mem ne)
  rcases ends with eq | eq <;> exact last (eq ▸ by decide)

theorem headerNames_of_ne {l : Text} (h : l.BreakFree) (hash : l.head? ≠ some '#') :
    headerNames (l ++ ['\n']) = [] := by
  have start : l.takeWhile (· = '#') = [] := by
    cases l with
    | nil => rfl
    | cons c l =>
      have : c ≠ '#' := fun eq => hash (by simp [eq])
      simp [this]
  unfold headerNames
  rw [dropEndWhile_newline h]
  simp only [start]
  rfl

theorem headerNames_token {name : Text} (h : SafeVariant name) :
    headerNames ("### Token: ".toList ++ name ++ ['\n']) = [name] := by
  have intact : Text.BreakFree ("### Token: ".toList ++ name) :=
    Text.BreakFree.append (by decide) h.breakFree
  have parts : Text.commaParts (" ".toList ++ Text.joined ", ".toList [name]) = [name] :=
    Text.commaParts_joined (by decide) nofun (by simpa using h)
  unfold headerNames
  rw [dropEndWhile_newline intact]
  exact parts

theorem headerNames_variants {names : List Text} (ne : names ≠ [])
    (h : ∀ name ∈ names, SafeVariant name) :
    headerNames ("#### Variants: ".toList ++ Text.joined ", ".toList names ++ ['\n']) = names := by
  have intact : Text.BreakFree ("#### Variants: ".toList ++ Text.joined ", ".toList names) :=
    Text.BreakFree.append (by decide)
      (breakFree_joined (by decide) fun name hn => (h name hn).breakFree)
  unfold headerNames
  rw [dropEndWhile_newline intact]
  exact Text.commaParts_joined (b := " ".toList) (by decide) ne h

/-! ## Filling line by line -/

variable (mode : Disposition) (overrides : Entries Text Disposition) (same : Text → Text → Prop)

/-- Filling in the lines below a header with `names` makes them the lines `ls'`, line by line up
to `same`, with `n` placeholders filled; the lines that follow stand below a header with
`names'`. -/
def Fills (names ls ls' : List Text) (n : Nat) (names' : List Text) : Prop :=
  ∃ filled, List.Forall₂ same filled ls' ∧
    ∀ rest, fillLines mode overrides names (ls.map (fun l => ⟨l, ['\n']⟩) ++ rest) =
      (Text.unlines filled ++ (fillLines mode overrides names' rest).1,
        n + (fillLines mode overrides names' rest).2)

variable {mode overrides same} {names names' names'' ls ls' ks ks' : List Text} {m n : Nat}

theorem fills_nil : Fills mode overrides same names [] [] 0 names := by
  refine ⟨[], .nil, fun rest => ?_⟩
  simp

theorem Fills.append (h : Fills mode overrides same names ls ls' m names')
    (h' : Fills mode overrides same names' ks ks' n names'') :
    Fills mode overrides same names (ls ++ ks) (ls' ++ ks') (m + n) names'' := by
  obtain ⟨filled, alike, eq⟩ := h
  obtain ⟨filled', alike', eq'⟩ := h'
  refine ⟨filled ++ filled', List.rel_append alike alike', fun rest => ?_⟩
  rw [List.map_append, List.append_assoc, eq, eq', Text.unlines_append, List.append_assoc,
    Nat.add_assoc]

/-- The names below a line, which are its own if it is a header. -/
def namesBelow (names : List Text) (l : Text) : List Text :=
  if (headerNames (l ++ ['\n'])).isEmpty then names else headerNames (l ++ ['\n'])

/-- One line is filled with the decision for the names below it. -/
theorem fills_singleton {l filled l' : Text} (below : namesBelow names l = names')
    (replaced : placeholderRule.replaced
      (fun _ => "Disposition: ".toList ++ (decision mode overrides names').word) (l ++ ['\n']) =
        filled ++ ['\n']) (alike : same filled l')
    (count : placeholderRule.hitCount (l ++ ['\n']) = n) :
    Fills mode overrides same names [l] [l'] n names' := by
  refine ⟨[filled], .cons alike .nil, fun rest => ?_⟩
  subst below count
  show (_ ++ _, _ + _) = _
  rw [Text.unlines_cons, Text.unlines_nil, ← replaced]
  rfl

/-- The placeholder is filled with the decision for the names of the header above it. -/
theorem fills_placeholder {l' : Text}
    (alike : same ("Disposition: ".toList ++ (decision mode overrides names).word) l') :
    Fills mode overrides same names ["Disposition: ".toList ++ placeholder] [l'] 1 names := by
  have header : headerNames ("Disposition: ".toList ++ placeholder ++ ['\n']) = [] := by decide
  have below : namesBelow names ("Disposition: ".toList ++ placeholder) = names := by
    rw [namesBelow, header]
    rfl
  have replaced : ∀ words, placeholderRule.replaced (fun _ => words)
      ("Disposition: ".toList ++ placeholder ++ ['\n']) = words ++ ['\n'] := fun _ => rfl
  exact fills_singleton below (replaced _) alike rfl

variable [Std.Refl same]

/-- A line without a placeholder stays. -/
theorem fills_line {l : Text} (quiet : Quiet (l ++ ['\n'])) (below : namesBelow names l = names') :
    Fills mode overrides same names [l] [l] 0 names' :=
  fills_singleton below (Rule.replaced_of_forall quiet _) (refl l)
    (Rule.hitCount_of_forall quiet)

theorem fills_plain {l : Text} (quiet : Quiet (l ++ ['\n']))
    (plain : headerNames (l ++ ['\n']) = []) : Fills mode overrides same names [l] [l] 0 names := by
  refine fills_line quiet ?_
  rw [namesBelow, plain]
  rfl

theorem fills_header {l : Text} (quiet : Quiet (l ++ ['\n']))
    (header : headerNames (l ++ ['\n']) = names') (ne : names' ≠ []) :
    Fills mode overrides same names [l] [l] 0 names' := by
  refine fills_line quiet ?_
  rw [namesBelow, header, if_neg (by simpa using ne)]

theorem fills_blank : Fills mode overrides same names [[]] [[]] 0 names :=
  fills_plain (quiet_of_no_word (by decide)) (by decide)

/-! ## Filling the groups -/

theorem fills_bullets {files : List Text} (safe : ∀ file ∈ files, SafePath file)
    (unmarked : ∀ file ∈ files, ¬Text.mentions "Disposition:".toList file) :
    Fills mode overrides same names (files.map ("- ".toList ++ ·)) (files.map ("- ".toList ++ ·)) 0
      names := by
  induction files with
  | nil => exact fills_nil
  | cons file files ih =>
    rw [List.forall_mem_cons] at safe unmarked
    have bullet : Fills mode overrides same names ["- ".toList ++ file] ["- ".toList ++ file] 0
        names :=
      fills_plain (quiet_path (by decide) unmarked.1)
        (headerNames_of_ne (Text.BreakFree.append (by decide) safe.1.breakFree) nofun)
    exact bullet.append (ih safe.2 unmarked.2)

variable (mode overrides same) in
/-- What is filled in is as good as the words of a report for the decision. -/
def WritesLike : Prop :=
  ∀ names, same ("Disposition: ".toList ++ (decision mode overrides names).word)
    ("Disposition: ".toList ++ dispositionWords (decision mode overrides names))

/-- The line of a decision is filled, if there is none yet. -/
theorem fills_disposition (group : Group)
    (written : WritesLike mode overrides same) :
    Fills mode overrides same group.names
      ["Disposition: ".toList ++ dispositionWords group.disposition]
      ["Disposition: ".toList ++ dispositionWords (group.decided mode overrides).disposition]
      (unsetCount [group]) group.names := by
  -- A placeholder is replaced; a decision that was made is no placeholder.
  by_cases unset : group.disposition = .unset
  · have decided : (group.decided mode overrides).disposition =
        decision mode overrides group.names := by
      rw [Group.decided, if_pos unset]
    have count : unsetCount [group] = 1 := by simp [unsetCount, unset]
    rw [decided, count, unset]
    exact fills_placeholder (written group.names)
  · have same : group.decided mode overrides = group := if_neg unset
    have count : unsetCount [group] = 0 := by simp [unsetCount, unset]
    rw [same, count]
    cases kept : group.disposition with
    | unset => exact absurd kept unset
    | merge => exact fills_plain (quiet_of_no_placeholder (by decide)) (by decide)
    | keepAlias => exact fills_plain (quiet_of_no_placeholder (by decide)) (by decide)
    | ignore => exact fills_plain (quiet_of_no_placeholder (by decide)) (by decide)

variable {group : Group}

@[simp]
theorem decided_names : (group.decided mode overrides).names = group.names := by
  unfold Group.decided
  split_ifs <;> rfl

@[simp]
theorem decided_files : (group.decided mode overrides).files = group.files := by
  unfold Group.decided
  split_ifs <;> rfl

@[simp]
theorem decided_canonical : (group.decided mode overrides).canonical = group.canonical := by
  unfold Group.decided
  split_ifs <;> rfl

@[simp]
theorem decided_kind : (group.decided mode overrides).kind = group.kind := by
  unfold Group.decided
  split_ifs <;> rfl

@[simp]
theorem decided_matchType : (group.decided mode overrides).matchType = group.matchType := by
  unfold Group.decided
  split_ifs <;> rfl

/-- **The lines of a group** are filled with the decision for its names. -/
theorem fills_groupLines (h : group.Fillable)
    (written : WritesLike mode overrides same) :
    Fills mode overrides same group.names (groupLines group)
      (groupLines (group.decided mode overrides)) (unsetCount [group]) group.names := by
  have definedIn : Fills mode overrides same group.names ["Defined in:".toList]
      ["Defined in:".toList] 0 group.names :=
    fills_plain (quiet_of_no_word (by decide)) (by decide)
  have bullets : Fills mode overrides same group.names _ _ 0 group.names :=
    fills_bullets h.paths h.unmarked
  have preferred : Fills mode overrides same group.names
      ["Preferred source (auto-ranked): ".toList ++ group.canonical]
      ["Preferred source (auto-ranked): ".toList ++ group.canonical] 0 group.names :=
    fills_plain (quiet_path (by decide) (h.unmarked _ h.toReportable.isValid.canonical))
      (headerNames_of_ne (Text.BreakFree.append (by decide) h.toReportable.canonical.breakFree)
        nofun)
  -- Only the line of the decision is filled, and it counts if there was none.
  have all := ((definedIn.append bullets).append preferred).append
    ((fills_disposition group written).append fills_blank)
  rw [groupLines, groupLines, decided_files, decided_canonical]
  simpa only [List.append_assoc, List.cons_append, List.nil_append, Nat.zero_add, Nat.add_zero]
    using all

theorem fills_exactLines (h : group.Fillable) (hm : group.matchType = .exact)
    (written : WritesLike mode overrides same) :
    Fills mode overrides same names (exactLines group) (exactLines (group.decided mode overrides))
      (unsetCount [group]) group.names := by
  obtain ⟨name, names_eq⟩ := List.length_eq_one_iff.mp (h.toReportable.isValid.exact hm)
  have mem : name ∈ group.names := by simp [names_eq]
  -- The header holds no placeholder, since no blank of it stands where the placeholder has one.
  have chain : ("### Token: ".toList ++ name ++ ['\n']).IsChain HeaderNeighbours := by
    have front := isChain_append (t := "### Token: ".toList) (by decide)
      (isChain_of_noBlank (h.plain name mem).1.noBlank) (.inl (by decide))
    exact isChain_append front (by decide) (.inr (by decide))
  have header : Fills mode overrides same names ["### Token: ".toList ++ name]
      ["### Token: ".toList ++ name] 0 group.names := by
    rw [names_eq]
    exact fills_header (quiet_of_isChain chain) (headerNames_token (h.safeVariant mem)) nofun
  have all := header.append (fills_groupLines h written)
  rw [exactLines, exactLines, Group.representative, Group.representative, decided_names]
  rw [names_eq, Nat.zero_add] at all
  rw [names_eq]
  exact all

theorem fills_nearLines (h : group.Fillable)
    (written : WritesLike mode overrides same) :
    Fills mode overrides same names (nearLines group) (nearLines (group.decided mode overrides))
      (unsetCount [group]) group.names := by
  have chain : ("#### Variants: ".toList ++ Text.joined ", ".toList group.names ++
      ['\n']).IsChain HeaderNeighbours := by
    have front := isChain_append (t := "#### Variants: ".toList) (by decide)
      (isChain_joined fun name hn => (h.plain name hn).1) (.inl (by decide))
    exact isChain_append front (by decide) (.inr (by decide))
  have header : Fills mode overrides same names
      ["#### Variants: ".toList ++ Text.joined ", ".toList group.names]
      ["#### Variants: ".toList ++ Text.joined ", ".toList group.names] 0 group.names :=
    fills_header (quiet_of_isChain chain) (headerNames_variants h.toReportable.isValid.names
      fun name hn => h.safeVariant hn) h.toReportable.isValid.names
  have all := header.append (fills_groupLines h written)
  rw [nearLines, nearLines, decided_names]
  rwa [Nat.zero_add] at all

/-- The groups of a list are filled if each of them is, and the line that there are none stays. -/
theorem fills_groupsOr (none : Text) (lines : Group → List Text) {groups : List Group}
    (each : ∀ group ∈ groups, ∀ names, Fills mode overrides same names (lines group)
      (lines (group.decided mode overrides)) (unsetCount [group]) group.names)
    (quiet : Quiet (none ++ ['\n'])) (plain : headerNames (none ++ ['\n']) = [])
    (names : List Text) :
    ∃ names', Fills mode overrides same names (groupsOr none lines groups)
      (groupsOr none lines (groups.map (Group.decided mode overrides))) (unsetCount groups)
      names' := by
  have run : ∀ groups : List Group, (∀ group ∈ groups, ∀ names, Fills mode overrides same names
      (lines group) (lines (group.decided mode overrides)) (unsetCount [group]) group.names) →
      ∀ names, ∃ names', Fills mode overrides same names (groups.flatMap lines)
        ((groups.map (Group.decided mode overrides)).flatMap lines) (unsetCount groups) names' := by
    intro groups
    induction groups with
    | nil => exact fun _ names => ⟨names, fills_nil⟩
    | cons group groups ih =>
      intro each names
      rw [List.forall_mem_cons] at each
      obtain ⟨names', rest⟩ := ih each.2 group.names
      have all := (each.1 names).append rest
      rw [← List.singleton_append, unsetCount_append]
      exact ⟨names', all⟩
  -- Without groups, the section has the line that there are none.
  unfold groupsOr
  cases groups with
  | nil => exact ⟨names, (fills_plain quiet plain).append fills_blank⟩
  | cons group groups => exact run (group :: groups) each names

/-- The section of a kind is filled group by group. -/
theorem fills_kindLines {analysis : KindAnalysis} (h : analysis.Reportable)
    (exact : ∀ group ∈ analysis.exact, group.Fillable)
    (near : ∀ group ∈ analysis.near, group.Fillable)
    (written : WritesLike mode overrides same) (names : List Text) :
    ∃ names', Fills mode overrides same names (kindLines analysis)
      (kindLines (analysis.decided mode overrides))
      (unsetCount (analysis.exact ++ analysis.near)) names' := by
  have kindHeader : ∀ kind : TokenKind, ∀ names, Fills mode overrides same names
      ["## ".toList ++ kind.key ++ " Duplicates".toList]
      ["## ".toList ++ kind.key ++ " Duplicates".toList] 0 names := by
    intro kind names
    refine fills_plain (quiet_of_no_word ?_) ?_ <;> cases kind <;> decide
  have nearHeader : ∀ kind : TokenKind, ∀ names, Fills mode overrides same names
      ["### Near-Duplicate ".toList ++ kind.key] ["### Near-Duplicate ".toList ++ kind.key] 0
      names := by
    intro kind names
    refine fills_plain (quiet_of_no_word ?_) ?_ <;> cases kind <;> decide
  -- The names of the last group are carried into the next section, where a header replaces them.
  obtain ⟨names₁, exactFills⟩ := fills_groupsOr noExact exactLines
    (fun group hg names => fills_exactLines (exact group hg) (h.exact group hg).2.1 written)
    (quiet_of_no_word (by decide)) (by decide) names
  obtain ⟨names₂, nearFills⟩ := fills_groupsOr noNear nearLines
    (fun group hg names => fills_nearLines (near group hg) written)
    (quiet_of_no_word (by decide)) (by decide) names₁
  have all := (((kindHeader analysis.kind names).append fills_blank).append exactFills).append
    (((nearHeader analysis.kind names₁).append fills_blank).append nearFills)
  refine ⟨names₂, ?_⟩
  rw [kindLines, kindLines, KindAnalysis.decided, unsetCount_append]
  simpa only [List.append_assoc, List.singleton_append, List.cons_append, List.nil_append,
    Nat.zero_add] using all

theorem fills_lines {analysis : Analysis} (h : analysis.Fillable)
    (written : WritesLike mode overrides same) (names : List Text) :
    ∃ names', Fills mode overrides same names (lines analysis)
      (lines (analysis.decided mode overrides)) (unsetCount analysis.groups) names' := by
  -- The sections follow each other, each with the names that the one before it left.
  have sections : ∀ kinds : List KindAnalysis, (∀ kind ∈ kinds, kind.Reportable) →
      (∀ group ∈ kinds.flatMap fun k => k.exact ++ k.near, group.Fillable) →
      ∀ names, ∃ names', Fills mode overrides same names (kinds.flatMap kindLines)
        ((kinds.map (KindAnalysis.decided mode overrides)).flatMap kindLines)
        (unsetCount (kinds.flatMap fun k => k.exact ++ k.near)) names' := by
    intro kinds
    induction kinds with
    | nil => exact fun _ _ names => ⟨names, fills_nil⟩
    | cons kind kinds ih =>
      intro reportable fillable names
      rw [List.forall_mem_cons] at reportable
      simp only [List.flatMap_cons, List.mem_append] at fillable
      obtain ⟨names₁, first⟩ := fills_kindLines reportable.1
        (fun group hg => fillable group (.inl (.inl hg)))
        (fun group hg => fillable group (.inl (.inr hg))) written names
      obtain ⟨names₂, rest⟩ := ih reportable.2 (fun group hg => fillable group (.inr hg)) names₁
      refine ⟨names₂, ?_⟩
      rw [List.flatMap_cons, List.map_cons, List.flatMap_cons, List.flatMap_cons,
        unsetCount_append]
      exact first.append rest
  have first : Fills mode overrides same names [title] [title] 0 names :=
    fills_plain (quiet_of_no_word (by decide)) (by decide)
  obtain ⟨names', rest⟩ := sections analysis.kinds h.reportable h.groups names
  have all := (first.append fills_blank).append rest
  rw [Nat.zero_add] at all
  exact ⟨names', all⟩

/-! ## Whole reports -/

/-- Lines that end in one empty line. -/
def EndsBlank (ls : List Text) : Prop :=
  ∃ front last, ls = front ++ [last, []] ∧ last ≠ []

theorem EndsBlank.append_left (h : EndsBlank ls) (ks : List Text) : EndsBlank (ks ++ ls) := by
  obtain ⟨front, last, rfl, ne⟩ := h
  exact ⟨ks ++ front, last, by simp, ne⟩

theorem EndsBlank.flatMap {α : Type} {f : α → List Text} {xs : List α} (ne : xs ≠ [])
    (h : ∀ x ∈ xs, EndsBlank (f x)) : EndsBlank (xs.flatMap f) := by
  obtain ⟨front, x, rfl⟩ := (List.eq_nil_or_concat' xs).resolve_left ne
  rw [List.flatMap_append, List.flatMap_singleton]
  exact (h x (by simp)).append_left _

theorem endsBlank_groupLines (group : Group) : EndsBlank (groupLines group) := by
  refine EndsBlank.append_left ?_ _
  exact ⟨["Preferred source (auto-ranked): ".toList ++ group.canonical],
    "Disposition: ".toList ++ dispositionWords group.disposition, rfl, nofun⟩

theorem endsBlank_groupsOr {none : Text} {lines : Group → List Text} (ne : none ≠ [])
    (h : ∀ group, EndsBlank (lines group)) (groups : List Group) :
    EndsBlank (groupsOr none lines groups) := by
  unfold groupsOr
  split_ifs with empty
  · exact ⟨[], none, rfl, ne⟩
  · exact .flatMap (by simpa using empty) fun group _ => h group

/-- A report ends in one empty line, which is not written. -/
theorem endsBlank_lines (analysis : Analysis) : EndsBlank (lines analysis) := by
  have kindLines : ∀ kind, EndsBlank (kindLines kind) := fun kind =>
    (endsBlank_groupsOr (by decide) (fun group => (endsBlank_groupLines group).append_left [_])
      kind.near).append_left _
  by_cases empty : analysis.kinds = []
  · rw [lines, empty]
    exact ⟨[], title, rfl, by decide⟩
  · exact (EndsBlank.flatMap empty fun kind _ => kindLines kind).append_left _

theorem rdropWhile_lines (analysis : Analysis) :
    (lines analysis).rdropWhile List.isEmpty ++ [[]] = lines analysis := by
  obtain ⟨front, last, eq, ne⟩ := endsBlank_lines analysis
  have split : front ++ [last, []] = (front ++ [last]) ++ [[]] := by simp
  rw [eq, split, List.rdropWhile_concat_pos _ _ _ rfl,
    List.rdropWhile_concat_neg _ _ _ (by simpa using ne)]

theorem fillLines_append_blank (names : List Text) (ls : List Line) :
    fillLines mode overrides names (ls ++ [⟨[], ['\n']⟩]) =
      ((fillLines mode overrides names ls).1 ++ ['\n'], (fillLines mode overrides names ls).2) := by
  induction ls generalizing names with
  | nil => rfl
  | cons l ls ih =>
    rw [List.cons_append, fillLines, fillLines, ih]
    simp

/-- A decision does not change what can be written into a report. -/
theorem reportable_decided {group : Group} (h : group.Reportable) :
    (group.decided mode overrides).Reportable where
  valid := by
    obtain ⟨names, files, nodup, canonical, exact, near⟩ := h.isValid
    refine Group.check_eq_ok_iff.mpr ⟨?_, ?_, ?_, ?_, ?_, ?_⟩ <;> simpa
  sorted := by simpa using h.sorted
  paths := by simpa using h.paths
  names := by simpa using h.names

theorem reportable_decided_analysis {analysis : Analysis} (h : analysis.Reportable) :
    (analysis.decided mode overrides).Reportable := by
  intro decided hk
  obtain ⟨kind, mem, rfl⟩ := List.mem_map.mp hk
  constructor
  · intro decided hg
    obtain ⟨group, hg', rfl⟩ := List.mem_map.mp hg
    obtain ⟨kind_eq, match_eq, reportable⟩ := (h kind mem).exact group hg'
    exact ⟨decided_kind.trans kind_eq, decided_matchType.trans match_eq,
      reportable_decided reportable⟩
  · intro decided hg
    obtain ⟨group, hg', rfl⟩ := List.mem_map.mp hg
    obtain ⟨kind_eq, match_eq, reportable⟩ := (h kind mem).near group hg'
    exact ⟨decided_kind.trans kind_eq, decided_matchType.trans match_eq,
      reportable_decided reportable⟩

theorem groups_decided (analysis : Analysis) :
    (analysis.decided mode overrides).groups =
      analysis.groups.map (Group.decided mode overrides) := by
  simp [Analysis.groups, Analysis.decided, KindAnalysis.decided, List.map_flatMap,
    List.flatMap_map]

/-- The lines of the filled report are those of the report of the decided groups, up to `same`,
and there were as many placeholders as groups without a decision. -/
theorem exists_filled {analysis : Analysis} (h : analysis.Fillable)
    (written : WritesLike mode overrides same) :
    ∃ filled, List.Forall₂ same filled (lines (analysis.decided mode overrides)) ∧
      (fill mode overrides (render analysis)).1 ++ ['\n'] = Text.unlines filled ∧
      (fill mode overrides (render analysis)).2 = unsetCount analysis.groups := by
  obtain ⟨names', filled, alike, fills⟩ := fills_lines h written []
  -- the last line of the report is empty and not written, and stays so when the rest is filled
  have whole := fills []
  rw [List.append_nil, ← rdropWhile_lines, List.map_append, List.map_singleton,
    fillLines_append_blank, ← lines_render h.reportable.legible] at whole
  obtain ⟨text_eq, count_eq⟩ := Prod.mk.inj whole
  rw [fillLines, List.append_nil] at text_eq
  exact ⟨filled, alike, text_eq, count_eq⟩

/-- **The filled report is the report of the decided groups**, and there were as many
placeholders as groups without a decision. -/
theorem fill_render {analysis : Analysis} (h : analysis.Fillable)
    (decides : ∀ names, decision mode overrides names ≠ .unset) :
    fill mode overrides (render analysis) =
      (render (analysis.decided mode overrides), unsetCount analysis.groups) := by
  have written : WritesLike mode overrides Eq := by
    intro names
    rw [dispositionWords, if_neg (decides names)]
  obtain ⟨filled, alike, text_eq, count_eq⟩ := exists_filled h written
  rw [List.forall₂_eq_eq_eq] at alike
  subst alike
  have closed : Text.unlines (lines (analysis.decided mode overrides)) =
      render (analysis.decided mode overrides) ++ ['\n'] := by
    rw [render_eq_unlines (reportable_decided_analysis h.reportable).legible]
    conv_lhs => rw [← rdropWhile_lines]
    simp
  rw [closed] at text_eq
  exact Prod.ext (List.append_cancel_right text_eq) count_eq

end Report

end StyleTokens
