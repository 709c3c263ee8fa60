import StyleTokens.Proofs.Data.Ascending
import StyleTokens.Proofs.Rename.Spelling
import StyleTokens.Proofs.Stylesheet.Run

/-!
# The names that a stylesheet can declare

The scanner finds nothing but statements that some text spells, so the names in the inventory of
a stylesheet are as statements spell them: the property of a declaration is not empty and holds
no blanks, and neither does the identifier of a mixin or a function. Nothing more can be said: a
property may hold any other character, commas and brackets among them.

## Main definitions

* `Statement.Spelled`: a statement that some text spells

## Main results

* `spelled_of_scan`: the scanner finds nothing else
* `Inventory.mem_names_ofTokens`: the names in the inventory of tokens
* `Inventory.noBlank_of_extract`: the names in the inventory of a stylesheet
-/

namespace StyleTokens

/-! ## Statements that a text spells -/

/-- Some text spells the statement. -/
def Statement.Spelled (statement : Statement) : Prop :=
  ∃ text line opensBlock, Statement.ofText text line opensBlock = some statement

namespace Scanner

variable {s s' : Scanner} {c : Char} {opensBlock : Bool}

/-- All that was found is spelled by some text. -/
def Genuine (s : Scanner) : Prop :=
  ∀ statement ∈ s.found, statement.Spelled

theorem Genuine.emit (h : s.Genuine) : (s.emit opensBlock).Genuine := by
  intro statement mem
  rcases List.mem_append.mp mem with before | now
  · exact h statement before
  · exact ⟨_, _, _, Option.mem_toList.mp now⟩

theorem found_count (s : Scanner) (c : Char) : (s.count c).found = s.found := by
  unfold count
  split_ifs <;> rfl

theorem Genuine.put (h : s.Genuine) (step : s.put c = .ok s') : s'.Genuine := by
  have counted : (s.count c).Genuine := by
    unfold Genuine
    rwa [found_count]
  cases put_eq_ok_iff.mp step with
  | interpolates | adds => exact counted
  | ends | opens | closes => exact counted.emit

theorem Genuine.code (h : s.Genuine) (step : s.code c = .ok s') : s'.Genuine := by
  unfold Scanner.code at step
  split_ifs at step
  · cases step
    exact h
  · cases step
    exact h
  · cases step
    exact h
  · cases step
    exact h
  · exact h.put step

theorem Genuine.step (h : s.Genuine) (step : s.step c = .ok s') : s'.Genuine := by
  cases step_eq_ok_iff.mp step with
  | code mode apart read =>
    have resumed : s.resume.Genuine := by
      rw [resume_eq mode]
      exact h
    exact resumed.code read
  -- comments and strings find nothing
  | _ => exact h

theorem Genuine.run {t : Text} (h : s.Genuine) (read : s.run t = .ok s') : s'.Genuine := by
  induction t generalizing s with
  | nil =>
    cases read
    exact h
  | cons c t ih =>
    obtain ⟨next, first, rest⟩ := Scanner.run_cons_eq_ok_iff.mp read
    exact ih (h.step first) rest

theorem Genuine.finish {statements : List Statement} (h : s.Genuine)
    (ended : s.finish = .ok statements) : ∀ statement ∈ statements, statement.Spelled := by
  obtain ⟨last, settled, -, -, rfl⟩ := Scanner.finish_eq_ok_iff.mp ended
  have found : last.found = s.found := by
    unfold settle at settled
    split at settled <;> cases settled <;> rfl
  have genuine : last.Genuine := by
    unfold Genuine
    rwa [found]
  exact genuine.emit

end Scanner

/-- **The scanner finds nothing but what a text spells.** -/
theorem spelled_of_scan {source : Text} {statements : List Statement}
    (h : scan source = .ok statements) : ∀ statement ∈ statements, statement.Spelled := by
  obtain ⟨s, read, ended⟩ := exists_finish h
  have start : Scanner.Genuine {} := nofun
  exact (start.run read).finish ended

/-! ## The names of a statement -/

namespace Statement

theorem noBlank_of_firstIdentifier? {params name : Text} (h : firstIdentifier? params = some name) :
    name ≠ [] ∧ ∀ c ∈ name, ¬isBlank c := by
  unfold firstIdentifier? at h
  split at h
  · cases h
  next c cs _ =>
    obtain ⟨start, eq⟩ := Option.ite_none_right_eq_some.mp h
    obtain rfl := Option.some.inj eq
    refine ⟨List.cons_ne_nil _ _, fun d hd => not_isBlank_of_isNameChar ?_⟩
    rcases List.mem_cons.mp hd with rfl | hd
    · simp only [Bool.or_eq_true, decide_eq_true_eq] at start
      rcases start with (alpha | rfl) | rfl
      · exact Rename.isNameChar_of_isAlpha alpha
      · decide
      · decide
    · exact List.mem_takeWhile_imp hd

theorem noBlank_of_ofText {text property value : Text} {n line : Nat} {opensBlock : Bool}
    (h : ofText text n opensBlock = some (.declaration property value line)) :
    property ≠ [] ∧ ∀ c ∈ property, ¬isBlank c := by
  unfold ofText at h
  split at h
  · cases h
  · -- behind an at sign stands an at-rule or nothing
    simp only [atRule?] at h
    split_ifs at h
    cases h
  · split_ifs at h
    simp only [declaration?] at h
    split_ifs at h with refused
    cases h
    simp only [Bool.or_eq_true, not_or, List.isEmpty_iff, List.any_eq_true, not_exists,
      not_and] at refused
    exact ⟨refused.1.2, refused.2⟩

/-- The name of a property, a block or a function is not empty and holds no blanks. -/
theorem noBlank_of_token? {statement : Statement} (h : statement.Spelled) {kind : TokenKind}
    {name : Text} (token : statement.token? = some (kind, name)) (other : kind ≠ .moduleRef) :
    name ≠ [] ∧ ∀ c ∈ name, ¬isBlank c := by
  cases statement with
  | declaration property value line =>
    obtain ⟨_, eq⟩ := Option.ite_none_right_eq_some.mp token
    obtain ⟨rfl, rfl⟩ := Prod.mk.inj (Option.some.inj eq)
    obtain ⟨text, n, opensBlock, spelled⟩ := h
    exact noBlank_of_ofText spelled
  | atRule rule params line opensBlock =>
    simp only [token?] at token
    split_ifs at token
    · obtain ⟨found, identifier, eq⟩ := Option.map_eq_some_iff.mp token
      obtain ⟨rfl, rfl⟩ := Prod.mk.inj eq
      exact noBlank_of_firstIdentifier? identifier
    · obtain ⟨found, identifier, eq⟩ := Option.map_eq_some_iff.mp token
      obtain ⟨rfl, rfl⟩ := Prod.mk.inj eq
      exact noBlank_of_firstIdentifier? identifier
    · obtain ⟨found, _, eq⟩ := Option.map_eq_some_iff.mp token
      exact absurd (Prod.mk.inj eq).1.symm other

end Statement

/-! ## The names of an inventory -/

namespace Inventory

variable {kind : TokenKind} {path name : Text} {tokens : List (TokenKind × Text)}

theorem names_ofTokens :
    (ofTokens path tokens).names kind = Ascending.ofList (ofKind kind tokens) := by
  cases kind <;> rfl

theorem mem_names_ofTokens : name ∈ (ofTokens path tokens).names kind ↔ (kind, name) ∈ tokens := by
  rw [names_ofTokens, Ascending.mem_ofList]
  simp [ofKind]

theorem strict_names_ofTokens : Ascending.Strict ((ofTokens path tokens).names kind) := by
  rw [names_ofTokens]
  exact Ascending.strict_ofList _

/-- The inventory of a stylesheet is that of its statements. -/
theorem exists_of_extract {source : Text} {inventory : Inventory}
    (h : extract source path = .ok inventory) : ∃ statements, scan source = .ok statements ∧
      inventory = ofTokens path (statements.filterMap Statement.token?) := by
  unfold extract at h
  split at h
  next statements scanned => exact ⟨statements, scanned, (Except.ok.inj h).symm⟩
  · cases h

/-- **The names in the inventory of a stylesheet** are not empty and hold no blanks. -/
theorem noBlank_of_extract {source : Text} {inventory : Inventory}
    (h : extract source path = .ok inventory) (other : kind ≠ .moduleRef)
    (hn : name ∈ inventory.names kind) : name ≠ [] ∧ ∀ c ∈ name, ¬isBlank c := by
  obtain ⟨statements, scanned, rfl⟩ := exists_of_extract h
  obtain ⟨statement, mem, token⟩ := List.mem_filterMap.mp (mem_names_ofTokens.mp hn)
  exact Statement.noBlank_of_token? (spelled_of_scan scanned statement mem) token other

end Inventory

end StyleTokens
