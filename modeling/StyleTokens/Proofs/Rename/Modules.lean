import StyleTokens.Proofs.Rename.Passes

/-!
# Names of modules

A rule `@include module.name` names a mixin of a module. Renaming looks for the mixin's name behind
the dot first, and if this is no name to be changed, it takes the module's name for that of a mixin.
So the module's name stays exactly if it has no new name of its own, or if the name behind it is one
of the names to be changed. To say where a name stands in the renamed text, the text is cut in front
of the rule: renaming sees nothing of what stands behind an `@`.

## Main definitions

* `Rename.Inclusion`: a place in a text where a mixin of a module is included
* `Rename.Inclusion.written`: the text with other parts in the same place

## Main results

* `Rename.nameAt?_eq`: a name that is found is a whole run
* `Rename.callableRule_append_at`: renaming sees nothing of what stands behind an `@`
* `Rename.module_kept_iff`: when the name of a module stays
* `Rename.module_kept_iff_dropped`: a module that gets the name of a mixin
-/

namespace StyleTokens.Rename

section

variable {names : List Text} {before : Option Char} {t u v w x run lead keyword blanks : Text}
  {fits : Text → Bool} {c : Char}

/-! ## Runs and keywords -/

theorem not_startsInName_cons (outside : isNameChar c = false) :
    Text.startsInName (c :: t) = false :=
  outside

theorem nameRun_append_at (x w : Text) : Text.nameRun (x ++ '@' :: w) = Text.nameRun x := by
  have stop : ('@' :: w).takeWhile isNameChar = [] := rfl
  rw [Text.nameRun, List.takeWhile_append, stop]
  split_ifs with all
  · rw [List.append_nil]
    exact ((List.takeWhile_prefix isNameChar).eq_of_length all).symm
  · rfl

theorem startsInName_append_at (x w : Text) :
    Text.startsInName (x ++ '@' :: w) = Text.startsInName x := by
  cases x with
  | nil => rfl
  | cons c x => rfl

theorem exists_eq_at_cons (mem : keyword ∈ callableRules) :
    ∃ letters, keyword = '@' :: letters ∧ ∀ c ∈ letters, isNameChar c := by
  have all : ∀ keyword ∈ callableRules,
      keyword.head? = some '@' ∧ ∀ c ∈ keyword.tail, isNameChar c := by decide
  obtain ⟨head, tail⟩ := all keyword mem
  cases keyword with
  | nil => cases head
  | cons c letters =>
    cases head
    exact ⟨letters, rfl, tail⟩

/-- No name stands in a rule where no rule starts. -/
theorem namedInRule?_eq_none (h : ∀ keyword ∈ callableRules, ¬keyword <+: t) :
    namedInRule? names t = none := by
  have none_found : callableRules.findSome? (fun keyword =>
      (keyword.isPrefixOf? t).map fun rest => (keyword, rest)) = none := by
    rw [List.findSome?_eq_none_iff]
    intro keyword mem
    rw [Option.map_eq_none_iff, Option.eq_none_iff_forall_ne_some]
    intro rest found
    exact h keyword mem ⟨rest, List.isPrefixOf?_eq_some_iff_append_eq.mp found⟩
  rw [namedInRule?, none_found]
  rfl

theorem namedInRule?_of_ne (hc : c ≠ '@') : namedInRule? names (c :: t) = none := by
  apply namedInRule?_eq_none
  intro keyword mem start
  obtain ⟨letters, rfl, -⟩ := exists_eq_at_cons mem
  exact hc (List.cons_prefix_cons.mp start).1.symm

/-- Only one of the rules starts at a place. -/
theorem findSome?_callableRules (mem : keyword ∈ callableRules) (rest : Text) :
    callableRules.findSome? (fun keyword' =>
      (keyword'.isPrefixOf? (keyword ++ rest)).map fun rest => (keyword', rest)) =
        some (keyword, rest) := by
  simp only [callableRules, List.map_cons, List.map_nil, List.mem_cons, List.not_mem_nil,
    or_false] at mem
  rcases mem with rfl | rfl | rfl <;> rfl

/-- The name behind all blanks of a rule: that of a module's mixin, or the one that stands there. -/
def namedBehind? (names : List Text) (lead t : Text) : Option Occurrence :=
  qualifiedName? names lead t <|> (nameAt? names endsName t).map fun old => ⟨lead, old⟩

section

variable (hn : ∀ name ∈ names, IsName name)
include hn

/-! ## Whole runs -/

/-- **A name that is found is a whole run**, if what may stand behind a name is no part of it. -/
theorem nameAt?_eq (ends : ∀ r, fits r → Text.startsInName r = false) (t : Text) :
    nameAt? names fits t =
      if t.nameRun ∈ names ∧ fits (t.drop t.nameRun.length) then some t.nameRun else none := by
  have whole : ∀ {old}, nameAt? names fits t = some old →
      old = t.nameRun ∧ old ∈ names ∧ fits (t.drop old.length) := by
    intro old found
    obtain ⟨mem, rest, rfl, fit⟩ := nameAt?_eq_some found
    rw [Text.nameRun_append (hn old mem).chars (ends rest fit)]
    exact ⟨rfl, mem, by simpa using fit⟩
  split_ifs with here
  · have found : (nameAt? names fits t).isSome := by
      rw [nameAt?, List.find?_isSome]
      refine ⟨t.nameRun, here.1, ?_⟩
      rw [Bool.and_eq_true, List.isPrefixOf_iff_prefix]
      exact ⟨List.takeWhile_prefix isNameChar, here.2⟩
    obtain ⟨old, found⟩ := Option.isSome_iff_exists.mp found
    rw [found, (whole found).1]
  · rw [Option.eq_none_iff_forall_ne_some]
    intro old found
    obtain ⟨rfl, mem, fit⟩ := whole found
    exact here ⟨mem, fit⟩

/-- Where no name starts, none is found. -/
theorem nameAt?_eq_none (outside : Text.startsInName t = false) :
    nameAt? names fits t = none := by
  rw [Option.eq_none_iff_forall_ne_some]
  intro old found
  obtain ⟨mem, rest, rfl, -⟩ := nameAt?_eq_some found
  rw [(hn old mem).startsInName rest] at outside
  cases outside

/-- A run is found if it is one of the names. -/
theorem nameAt?_run (ends : ∀ r, fits r → Text.startsInName r = false)
    (hr : ∀ c ∈ run, isNameChar c) (hv : Text.startsInName v = false) :
    nameAt? names fits (run ++ v) =
      if run ∈ names ∧ fits v then some run else none := by
  rw [nameAt?_eq hn ends, Text.nameRun_append hr hv, List.drop_left]

theorem nameAt?_endsName_run (hr : ∀ c ∈ run, isNameChar c)
    (hv : Text.startsInName v = false) : nameAt? names endsName (run ++ v) =
      if run ∈ names then some run else none := by
  have fit : endsName v := by simp [endsName, hv]
  rw [nameAt?_run hn (fun _ => not_startsInName_of_endsName) hr hv]
  simp [fit]

/-! ## Names in rules -/

/-- **A name in a rule stands behind all of its blanks**, of which there is at least one. -/
theorem namedInRule?_append (mem : keyword ∈ callableRules)
    (blank : ∀ c ∈ blanks, isBlank c) (ht : ∀ c ∈ t.head?, ¬isBlank c) :
    namedInRule? names (keyword ++ (blanks ++ t)) =
      if blanks = [] then none else namedBehind? names (keyword ++ blanks) t := by
  have all : ((blanks ++ t).takeWhile isBlank) = blanks := by
    rw [List.takeWhile_append_of_pos blank]
    cases t with
    | nil => simp
    | cons c t => simp [ht c rfl]
  have unfolded : namedInRule? names (keyword ++ (blanks ++ t)) =
      (List.range blanks.length).findSome? fun i =>
        ruleName? names keyword (blanks ++ t) (blanks.length - i) := by
    rw [namedInRule?, findSome?_callableRules mem]
    simp only [Option.bind_eq_bind, Option.bind_some, all]
  have last : ruleName? names keyword (blanks ++ t) blanks.length =
      namedBehind? names (keyword ++ blanks) t := by
    rw [ruleName?, List.take_left, List.drop_left]
    rfl
  rw [unfolded]
  split_ifs with empty
  · rw [empty]
    rfl
  · have pos : blanks.length ≠ 0 := mt List.length_eq_zero_iff.mp empty
    rw [Rule.findSome?_range_sub pos (Nat.le_succ _), last]
    -- behind fewer blanks stands a blank, where no name starts
    intro k hk
    have outside : isNameChar blanks[k] = false := by
      simpa using not_isNameChar_of_isBlank (blank _ (List.getElem_mem hk))
    rw [ruleName?, List.drop_append_of_le_length hk.le, List.drop_eq_getElem_cons hk,
      List.cons_append, nameAt?_eq_none hn (not_startsInName_cons outside)]
    simp [qualifiedName?, Text.nameRun, outside]

/-! ## In front of an `@` -/

theorem nameAt?_append_at (ends : ∀ r, fits r → Text.startsInName r = false)
    (same : ∀ r, fits (r ++ '@' :: w) = fits r) (x : Text) :
    nameAt? names fits (x ++ '@' :: w) = nameAt? names fits x := by
  have short : x.nameRun.length ≤ x.length := (List.takeWhile_prefix isNameChar).length_le
  rw [nameAt?_eq hn ends, nameAt?_eq hn ends, nameRun_append_at,
    List.drop_append_of_le_length short, same]

theorem nameAt?_endsName_append_at (x w : Text) :
    nameAt? names endsName (x ++ '@' :: w) = nameAt? names endsName x := by
  apply nameAt?_append_at hn (fun _ => not_startsInName_of_endsName)
  intro r
  rw [endsName, endsName, startsInName_append_at]

theorem qualifiedName?_append_at (lead x w : Text) :
    qualifiedName? names lead (x ++ '@' :: w) = qualifiedName? names lead x := by
  have short : x.nameRun.length ≤ x.length := (List.takeWhile_prefix isNameChar).length_le
  simp only [qualifiedName?, nameRun_append_at, List.drop_append_of_le_length short]
  split_ifs
  · rfl
  · cases x.drop x.nameRun.length with
    | nil => rfl
    | cons c rest =>
      by_cases dot : '.' = c
      · subst dot
        simp [List.isPrefixOf?, nameAt?_endsName_append_at hn]
      · simp [List.isPrefixOf?, dot]

theorem namedInRule?_append_at (ne : x ≠ []) (w : Text) :
    namedInRule? names (x ++ '@' :: w) = namedInRule? names x := by
  by_cases rule : ∃ keyword ∈ callableRules, keyword <+: x
  · obtain ⟨keyword, mem, rest, rfl⟩ := rule
    -- the blanks behind the keyword end in front of the `@`
    have blank : ∀ c ∈ rest.takeWhile isBlank, isBlank c := fun c => List.mem_takeWhile_imp
    have head : ∀ c ∈ (rest.dropWhile isBlank).head?, ¬isBlank c :=
      fun c => Text.not_of_mem_head?_dropWhile
    have head' : ∀ c ∈ (rest.dropWhile isBlank ++ '@' :: w).head?, ¬isBlank c :=
      fun c => Text.not_of_mem_head?_dropWhile_append (by decide)
    have split : rest.takeWhile isBlank ++ rest.dropWhile isBlank = rest :=
      List.takeWhile_append_dropWhile
    rw [← split, List.append_assoc, List.append_assoc, namedInRule?_append hn mem blank head,
      namedInRule?_append hn mem blank head', namedBehind?, namedBehind?,
      qualifiedName?_append_at hn, nameAt?_endsName_append_at hn]
  · rw [not_exists] at rule
    rw [namedInRule?_eq_none fun keyword mem start => rule keyword ⟨mem, start⟩]
    apply namedInRule?_eq_none
    rintro keyword mem ⟨rest, eq⟩
    rcases List.append_eq_append_iff.mp eq with ⟨more, rfl, -⟩ | ⟨more, rfl, more_eq⟩
    · exact rule keyword ⟨mem, more, rfl⟩
    · cases more with
      | nil => exact rule (x ++ []) ⟨mem, by simp⟩
      | cons d more =>
        -- a keyword has no second `@`
        obtain rfl : '@' = d := (List.cons.inj more_eq).1
        obtain ⟨letters, letters_eq, inName⟩ := exists_eq_at_cons mem
        obtain ⟨c, x, rfl⟩ := List.exists_cons_of_ne_nil ne
        rw [List.cons_append, List.cons.injEq] at letters_eq
        exact absurd (inName '@' (letters_eq.2 ▸ by simp)) (by decide)

theorem freshName?_append_at (x w : Text) :
    freshName? names parenFollows before (x ++ '@' :: w) =
      freshName? names parenFollows before x := by
  have same : nameAt? names parenFollows (x ++ '@' :: w) = nameAt? names parenFollows x := by
    apply nameAt?_append_at hn (fun _ => not_startsInName_of_parenFollows)
    intro r
    cases r with
    | nil => rfl
    | cons c r => rfl
  rw [freshName?, same]
  rfl

/-- **Renaming sees nothing of what stands behind an `@`.** -/
theorem callableRule_append_at (ne : x ≠ []) (w : Text) :
    callableRule names before (x ++ '@' :: w) = callableRule names before x := by
  rw [callableRule, namedInRule?_append_at hn ne, freshName?_append_at hn]
  rfl

/-! ## What is left alone -/

/-- Where no name starts, the rule looks for the keyword of a rule only. -/
theorem callableRule_of_outside (outside : Text.startsInName t = false) :
    callableRule names before t = (namedInRule? names t).map Occurrence.hit := by
  have fresh : freshName? names parenFollows before t = none := by
    rw [freshName?, nameAt?_eq_none hn outside]
    exact ite_self none
  rw [callableRule, fresh]
  cases namedInRule? names t <;> rfl

variable {f : Occurrence → Text}

/-- Where no name starts, it does not matter what stands in front. -/
theorem replacedFrom_of_outside (outside : Text.startsInName t = false) :
    (callableRule names).replacedFrom f before t = (callableRule names).replaced f t := by
  rw [Rule.replaced_eq]
  cases t with
  | nil => rfl
  | cons c t =>
    have same : callableRule names before (c :: t) = callableRule names none (c :: t) := by
      rw [callableRule_of_outside hn outside, callableRule_of_outside hn outside]
    rw [Rule.replacedFrom, Rule.replacedFrom, Rule.piecesFrom, Rule.piecesFrom, same]

/-- In front of an `@`, a text is renamed on its own. -/
theorem replaced_append_at (u w : Text) :
    (callableRule names).replaced f (u ++ '@' :: w) =
      (callableRule names).replaced f u ++ (callableRule names).replaced f ('@' :: w) := by
  have honest : (callableRule names).Honest :=
    (takesWhole_callableRule names).honest fun name mem => (hn name mem).ne_nil
  have start : Text.startsInName ('@' :: w) = false := not_startsInName_cons (by decide)
  rw [Rule.replaced_eq, Rule.replacedFrom_append honest, replacedFrom_of_outside hn start,
    ← Rule.replaced_eq]
  intro before x _ ne
  exact callableRule_append_at hn ne w

/-- A run is left alone if it is no name to be changed in front of a parenthesis. -/
theorem replacedFrom_run (hr : ∀ c ∈ run, isNameChar c)
    (hv : Text.startsInName v = false) (left : run ∈ names → parenFollows v = false) :
    (callableRule names).replacedFrom f before (run ++ v) =
      run ++ (callableRule names).replacedFrom f (run.getLast? <|> before) v := by
  have fresh : nameAt? names parenFollows (run ++ v) = none := by
    rw [nameAt?_run hn (fun _ => not_startsInName_of_parenFollows) hr hv, if_neg]
    rintro ⟨mem, paren⟩
    rw [left mem] at paren
    cases paren
  apply Rule.replacedFrom_left
  intro front x split ne
  obtain ⟨c, x, rfl⟩ := List.exists_cons_of_ne_nil ne
  have inName : isNameChar c := hr c (by simp [split])
  have other : c ≠ '@' := by
    rintro rfl
    exact absurd inName (by decide)
  rw [callableRule, List.cons_append, namedInRule?_of_ne other]
  rcases List.eq_nil_or_concat' front with rfl | ⟨front, d, rfl⟩
  · -- the run as a whole
    rw [split, List.nil_append, List.cons_append] at fresh
    rw [freshName?, fresh]
    split_ifs <;> rfl
  · -- inside of the run
    have inside : isNameChar d := hr d (by simp [split])
    simp [freshName?, inside]

theorem replacedFrom_separator (hw : ∀ c ∈ w, isNameChar c = false ∧ c ≠ '@') :
    (callableRule names).replacedFrom f before (w ++ v) =
      w ++ (callableRule names).replacedFrom f (w.getLast? <|> before) v := by
  apply Rule.replacedFrom_left
  intro front x split ne
  obtain ⟨c, x, rfl⟩ := List.exists_cons_of_ne_nil ne
  obtain ⟨outside, other⟩ := hw c (by simp [split])
  rw [List.cons_append, callableRule_of_outside hn (not_startsInName_cons outside),
    namedInRule?_of_ne other]
  rfl

end

end

/-! ## Mixins of modules -/

theorem include_mem : "@include".toList ∈ callableRules := by
  simp [callableRules]

/-- A place in a text where a mixin of a module is included. -/
structure Inclusion where
  /-- What stands in front of the rule. -/
  before : Text
  blanks : Text
  module : Text
  name : Text
  behind : Text
  blank : blanks ≠ [] ∧ ∀ c ∈ blanks, isBlank c
  isModule : IsName module
  isName : IsName name
  /-- The name ends in front of what stands behind it. -/
  ends : Text.startsInName behind = false

namespace Inclusion

/-- The rule up to the module's name. -/
def lead (i : Inclusion) : Text :=
  "@include".toList ++ i.blanks

theorem lead_eq (i : Inclusion) : i.lead = "@include".toList ++ i.blanks :=
  rfl

/-- The rule and what stands behind it, with the given names. -/
def rule (i : Inclusion) (module name behind : Text) : Text :=
  i.lead ++ (module ++ '.' :: (name ++ behind))

/-- The text with other parts in the same place. -/
def written (i : Inclusion) (before module name behind : Text) : Text :=
  before ++ i.rule module name behind

/-- The text. -/
def text (i : Inclusion) : Text :=
  i.written i.before i.module i.name i.behind

theorem rule_eq (i : Inclusion) (module name behind : Text) : i.rule module name behind =
    "@include".toList ++ (i.blanks ++ (module ++ '.' :: (name ++ behind))) :=
  List.append_assoc ..

theorem exists_rule_eq_cons (i : Inclusion) (module name behind : Text) :
    ∃ rest, i.rule module name behind = '@' :: rest := by
  obtain ⟨letters, keyword, -⟩ := exists_eq_at_cons include_mem
  rw [rule_eq, keyword]
  exact ⟨_, rfl⟩

end Inclusion

section

variable {names : List Text} {before : Option Char} {f : Occurrence → Text} (i : Inclusion)
  (hn : ∀ name ∈ names, IsName name)
include hn

/-- **The name behind the dot comes first**, and the module's name only if the other one is not to
be changed. -/
theorem namedInRule?_inclusion : namedInRule? names (i.rule i.module i.name i.behind) =
      if i.name ∈ names then some ⟨i.lead ++ i.module ++ ['.'], i.name⟩
      else if i.module ∈ names then some ⟨i.lead, i.module⟩
      else none := by
  have dot : Text.startsInName ('.' :: (i.name ++ i.behind)) = false :=
    not_startsInName_cons (by decide)
  have head : ∀ c ∈ (i.module ++ '.' :: (i.name ++ i.behind)).head?, ¬isBlank c := by
    obtain ⟨c, module, eq⟩ := List.exists_cons_of_ne_nil i.isModule.ne_nil
    rw [eq]
    rintro c ⟨⟩
    exact not_isBlank_of_isNameChar (i.isModule.chars c (by simp [eq]))
  have qualified : qualifiedName? names i.lead (i.module ++ '.' :: (i.name ++ i.behind)) =
      if i.name ∈ names then some ⟨i.lead ++ i.module ++ ['.'], i.name⟩ else none := by
    rw [qualifiedName?, Text.nameRun_append i.isModule.chars dot]
    simp only [List.isEmpty_iff, i.isModule.ne_nil, if_false, List.drop_left, List.isPrefixOf?,
      beq_self_eq_true, if_true, Option.bind_eq_bind, Option.bind_some,
      nameAt?_endsName_run hn i.isName.chars i.ends]
    split_ifs <;> rfl
  have behind : namedInRule? names (i.rule i.module i.name i.behind) =
      namedBehind? names i.lead (i.module ++ '.' :: (i.name ++ i.behind)) := by
    rw [Inclusion.rule_eq, namedInRule?_append hn include_mem i.blank.2 head, if_neg i.blank.1]
    rfl
  rw [behind, namedBehind?, qualified, nameAt?_endsName_run hn i.isModule.chars dot]
  split_ifs <;> rfl

/-- What stands in front of the module's name is no name to be changed. -/
theorem replacedFrom_lead {v : Text} (left : namedInRule? names (i.lead ++ v) = none) :
    ∃ last, (callableRule names).replacedFrom f before (i.lead ++ v) =
      i.lead ++ (callableRule names).replacedFrom f last v := by
  obtain ⟨letters, keyword, inName⟩ := exists_eq_at_cons include_mem
  have split : i.lead ++ v = '@' :: (letters ++ (i.blanks ++ v)) := by
    rw [i.lead_eq, keyword, List.append_assoc]
    rfl
  have outside : ∀ c ∈ i.blanks, isNameChar c = false ∧ c ≠ '@' ∧ c ≠ '(' := by
    intro c mem
    have blank := i.blank.2 c mem
    refine ⟨by simpa using not_isNameChar_of_isBlank blank, ?_, ?_⟩ <;>
    · rintro rfl
      exact absurd blank (by decide)
  have ends : Text.startsInName (i.blanks ++ v) = false ∧ parenFollows (i.blanks ++ v) = false := by
    obtain ⟨d, blanks, eq⟩ := List.exists_cons_of_ne_nil i.blank.1
    have first := outside d (by simp [eq])
    rw [eq]
    exact ⟨not_startsInName_cons first.1, by simp [parenFollows, first.2.2]⟩
  have plain : callableRule names before ('@' :: (letters ++ (i.blanks ++ v))) = none := by
    rw [callableRule_of_outside hn (not_startsInName_cons (by decide)), ← split, left]
    rfl
  refine ⟨i.blanks.getLast? <|> (letters.getLast? <|> some '@'), ?_⟩
  rw [split, Rule.replacedFrom_plain plain, replacedFrom_run hn inName ends.1 (fun _ => ends.2),
    replacedFrom_separator hn fun c mem => ⟨(outside c mem).1, (outside c mem).2.1⟩,
    i.lead_eq, keyword, List.append_assoc]
  rfl

/-- Behind the module's name, a name that is not to be changed stays. -/
theorem replacedFrom_dot (other : i.name ∉ names) :
    (callableRule names).replacedFrom f before ('.' :: (i.name ++ i.behind)) =
      '.' :: (i.name ++ (callableRule names).replaced f i.behind) := by
  have dot : ∀ c ∈ ['.'], isNameChar c = false ∧ c ≠ '@' := by decide
  calc (callableRule names).replacedFrom f before (['.'] ++ (i.name ++ i.behind))
      = '.' :: (callableRule names).replacedFrom f (some '.') (i.name ++ i.behind) :=
        replacedFrom_separator hn dot
    _ = '.' :: (i.name ++ (callableRule names).replaced f i.behind) := by
        rw [replacedFrom_run hn i.isName.chars i.ends (absurd · other),
          replacedFrom_of_outside hn i.ends]

/-- **What renaming makes of the rule.** -/
theorem replacedFrom_inclusion {m : Text → Text} (fixed : ∀ name, name ∉ names → m name = name) :
    (callableRule names).replacedFrom (fun o => o.lead ++ m o.old) before
        (i.rule i.module i.name i.behind) =
      i.rule (if i.name ∈ names then i.module else m i.module) (m i.name)
        ((callableRule names).replaced (fun o => o.lead ++ m o.old) i.behind) := by
  have outside : Text.startsInName (i.rule i.module i.name i.behind) = false := by
    obtain ⟨rest, eq⟩ := i.exists_rule_eq_cons i.module i.name i.behind
    rw [eq]
    exact not_startsInName_cons (by decide)
  have found : callableRule names before (i.rule i.module i.name i.behind) = _ :=
    callableRule_of_outside hn outside
  rw [namedInRule?_inclusion i hn] at found
  by_cases name : i.name ∈ names
  · -- the included name is an old one, and its module is part of the lead
    rw [if_pos name] at found
    have split : i.rule i.module i.name i.behind =
        i.lead ++ i.module ++ ['.'] ++ i.name ++ i.behind := by
      simp [Inclusion.rule]
    rw [split] at found ⊢
    rw [Rule.replacedFrom_hit found (by simp), if_pos name,
      replacedFrom_of_outside hn i.ends]
    simp [Inclusion.rule]
  · rw [if_neg name] at found ⊢
    by_cases module : i.module ∈ names
    · -- the module is taken for the included name, and behind the dot stands no old name
      rw [if_pos module] at found
      have split : i.rule i.module i.name i.behind =
          i.lead ++ i.module ++ '.' :: (i.name ++ i.behind) := by
        simp [Inclusion.rule]
      rw [split] at found ⊢
      rw [Rule.replacedFrom_hit found (by simp [i.isModule.ne_nil]),
        replacedFrom_dot i hn name, fixed i.name name]
      simp [Inclusion.rule]
    · -- neither is an old name, so the rule stays up to what stands behind it
      have dot : Text.startsInName ('.' :: (i.name ++ i.behind)) = false :=
        not_startsInName_cons (by decide)
      have left : namedInRule? names (i.rule i.module i.name i.behind) = none := by
        rw [namedInRule?_inclusion i hn, if_neg name, if_neg module]
      obtain ⟨last, eq⟩ := replacedFrom_lead i hn left
      rw [Inclusion.rule, eq, replacedFrom_run hn i.isModule.chars dot (absurd · module),
        replacedFrom_dot i hn name, fixed i.name name, fixed i.module module]
      rfl

end

/-! ## Modules that stay -/

section

variable {pairs : List (Text × Text)} {name module module' behind behind' : Text}

/-- Pairs without properties change nothing but mixins and functions. -/
theorem properties_eq_none (other : ∀ pair ∈ pairs, isProperty pair.1 = false)
    (before : Option Char) (t : Text) : properties pairs before t = none := by
  have none_property : ((effective pairs).map Prod.fst).filter isProperty = [] := by
    rw [List.filter_eq_nil_iff]
    intro name mem
    obtain ⟨pair, here, rfl⟩ := List.mem_map.mp mem
    simp [other pair (List.mem_of_mem_filter here)]
  have empty : inOrder [] = [] := by simp [inOrder]
  rw [properties, none_property, empty]
  simp [propertyRule, usedProperty?, freshName?, nameAt?]

theorem rename_eq_replaced (other : ∀ pair ∈ pairs, isProperty pair.1 = false) (t : Text) :
    (rename pairs t).1 = (callableRule (changedCallables pairs)).replaced
      (fun o => o.lead ++ newName pairs o.old) t := by
  have first : (properties pairs).replaced (renamed pairs) t = t :=
    Rule.replaced_of_forall (fun before u _ => properties_eq_none other before u) _
  rw [rename, first]
  rfl

theorem IsName.newName (hp : ∀ pair ∈ pairs, IsName pair.1 ∧ IsName pair.2) (h : IsName name) :
    IsName (newName pairs name) := by
  rcases newName_eq_or_mem pairs name with eq | mem
  · rwa [eq]
  · exact (hp _ mem).2

/-- What stands in front of a dot is the module's name. -/
theorem Inclusion.module_eq {i : Inclusion} {before name name' : Text} (h : IsName module)
    (h' : IsName module') (eq : i.written before module name behind =
      i.written before module' name' behind') : module = module' := by
  have dot : ∀ rest, Text.startsInName ('.' :: rest) = false :=
    fun rest => not_startsInName_cons (by decide)
  have same := List.append_cancel_left (List.append_cancel_left eq)
  rw [← Text.nameRun_append h.chars (dot (name ++ behind)), same,
    Text.nameRun_append h'.chars (dot _)]

/-- **The name of a module stays** if it has no new name, or if the name behind it is one of the
names to be changed; and it stays in no other case. -/
theorem module_kept_iff (i : Inclusion) (hp : ∀ pair ∈ pairs,
      IsName pair.1 ∧ IsName pair.2 ∧ isProperty pair.1 = false) :
    (rename pairs i.text).1 = i.written (rename pairs i.before).1
      (if i.name ∈ changedCallables pairs then i.module else newName pairs i.module)
      (newName pairs i.name) (rename pairs i.behind).1 ∧
    ((∃ name, IsName name ∧ (rename pairs i.text).1 =
        i.written (rename pairs i.before).1 i.module name (rename pairs i.behind).1) ↔
      newName pairs i.module = i.module ∨ i.name ∈ changedCallables pairs) := by
  have other : ∀ pair ∈ pairs, isProperty pair.1 = false := fun pair mem => (hp pair mem).2.2
  have names : ∀ pair ∈ pairs, IsName pair.1 ∧ IsName pair.2 :=
    fun pair mem => ⟨(hp pair mem).1, (hp pair mem).2.1⟩
  have hn : ∀ name ∈ changedCallables pairs, IsName name := by
    intro name mem
    obtain ⟨-, new, mem, -⟩ := mem_changedCallables.mp mem
    exact (hp _ mem).1
  have fixed : ∀ name, name ∉ changedCallables pairs → newName pairs name = name := by
    intro name left
    refine newName_eq_self (fun pair mem => ⟨(hp pair mem).1.ne_nil, (hp pair mem).2.1.ne_nil⟩) ?_
    exact fun new mem changes => left (mem_changedCallables.mpr ⟨other _ mem, new, mem, changes⟩)
  -- the text is cut in front of the rule and behind the name
  have text : (rename pairs i.text).1 = i.written (rename pairs i.before).1
      (if i.name ∈ changedCallables pairs then i.module else newName pairs i.module)
      (newName pairs i.name) (rename pairs i.behind).1 := by
    obtain ⟨rest, eq⟩ := i.exists_rule_eq_cons i.module i.name i.behind
    simp only [rename_eq_replaced other, Inclusion.text, Inclusion.written]
    rw [eq, replaced_append_at hn, ← eq, Rule.replaced_eq _ _ (i.rule _ _ _),
      replacedFrom_inclusion i hn fixed]
  refine ⟨text, ?_⟩
  rw [text]
  constructor
  · rintro ⟨name, -, eq⟩
    split_ifs at eq with changed
    · exact .inr changed
    · exact .inl (Inclusion.module_eq (i.isModule.newName names) i.isModule eq)
  · intro kept
    refine ⟨newName pairs i.name, i.isName.newName names, ?_⟩
    split_ifs with changed
    · rfl
    · rw [kept.resolve_right changed]

/-- A mixin gets a new name, and a module is named like the mixin. -/
def mixinPair : List (Text × Text) :=
  [("old".toList, "new".toList)]

/-- The mixin of a module that is named like it. -/
def sameNames : Inclusion where
  before := "old(".toList
  blanks := "  ".toList
  module := "old".toList
  name := "old".toList
  behind := ".old(".toList
  blank := by decide
  isModule := by decide
  isName := by decide
  ends := by decide

/-- The module's name stays where the mixin gets a new one. -/
theorem module_kept_iff_sameNames :
    (∀ pair ∈ mixinPair, IsName pair.1 ∧ IsName pair.2 ∧ isProperty pair.1 = false) ∧
    sameNames.text = "old(@include  old.old.old(".toList ∧
    (rename mixinPair sameNames.text).1 = "new(@include  old.new.new(".toList ∧
    ((∃ name, IsName name ∧ (rename mixinPair sameNames.text).1 =
        sameNames.written (rename mixinPair sameNames.before).1 sameNames.module name
          (rename mixinPair sameNames.behind).1) ↔
      newName mixinPair sameNames.module = sameNames.module ∨
        sameNames.name ∈ changedCallables mixinPair) := by
  have pairs : ∀ pair ∈ mixinPair,
      IsName pair.1 ∧ IsName pair.2 ∧ isProperty pair.1 = false := by decide
  exact ⟨pairs, rfl, by decide +kernel, (module_kept_iff sameNames pairs).2⟩

/-- **A module gets the new name of a mixin**: the module's mixin has no new name, so its module is
taken for a mixin. -/
theorem module_kept_iff_dropped :
    (∀ pair ∈ mixinPair, IsName pair.1 ∧ IsName pair.2 ∧ isProperty pair.1 = false ∧
      isProperty pair.2 = false) ∧
    rename mixinPair "@include old.foo;".toList = ("@include new.foo;".toList, 1) ∧
    ¬"@include old.".toList <+: (rename mixinPair "@include old.foo;".toList).1 := by
  decide +kernel

end

end StyleTokens.Rename
