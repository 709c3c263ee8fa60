import StyleTokens.Proofs.Inventory
import StyleTokens.Proofs.Rename.Retold

/-!
# Renamed stylesheets

The scanner takes the name of a declared property from the text of a statement without comments:
all that stands in front of the first colon. Renaming looks at the text itself: a whole name is
one without name characters on its two sides, and a name is declared if a colon follows it behind
blanks. So `--x\.--a: 1` declares one property, of which renaming takes a part, and
`--a/* */: 1` declares a property that renaming does not see. Where the two agree, renaming
properties changes the names of the declared properties and nothing else that is declared.

## Main definitions

* `Rename.AgreesAt`, `Rename.Agrees`: the two agree about the names of a text
* `Rename.changed`, `Rename.newName`: the names that are changed, and the new ones

## Main results

* `Rename.exists_follows`: the scanner along the text with new names
* `Rename.extract_rename`: the inventory of a renamed stylesheet
-/

namespace StyleTokens.Rename

open Scanner (SameAddress Tells FindsWhole IsWord)

variable {names : List Text} {m : Text → Text} {A A₁ A₂ B : List Atom} {F : List Statement}
  {s : Scanner} {a : Atom} {source u w : Text} {c : Char}

/-! ## Agreement -/

/-- The text ends in the name, as a whole and outside of comments, and in blanks. -/
def EndsInName (name u : Text) : Prop :=
  ∃ before, u.rdropWhile isBlank = before ++ name ∧ before.getLast?.any isNameChar = false ∧
    ∀ s, Scanner.run {} before = .ok s → s.inComment = false

/-- A character goes on with a name of the statement, and on one of the two sides stands a name to
be changed. -/
def Joins (names : List Text) (c : Char) (w : Text) (s : Scanner) : Prop :=
  s.pending.getLast?.any isNameChar ∧ isNameChar c ∧
    ∃ name ∈ names, name <:+ s.pending ∨ name <+: c :: w

/-- If the text of the statement is a name to be changed, this name stands in front of here. -/
def StandsWhole (names : List Text) (u : Text) (s : Scanner) : Prop :=
  ':' ∉ s.pending → Text.trim s.pending ∈ names → EndsInName (Text.trim s.pending) u

/-- What the scanner and renaming have to agree about in front of a character. -/
@[mk_iff]
structure AgreesAt (names : List Text) (m : Text → Text) (u : Text) (c : Char) (w : Text)
    (s : Scanner) : Prop where
  /-- No comment stands between the two. -/
  joined : s.inComment = false → Joins names c w s → u.getLast?.any isNameChar
  /-- A name that is declared stands in front of its colon. -/
  declared : c = ':' → s.inComment = false → StandsWhole names u s
  call : c = '(' → s.inText = false → SameAddress names m s.pending

/-- The scanner and renaming agree about the names of a text. -/
def Agrees (names : List Text) (m : Text → Text) (source : Text) : Prop :=
  ∀ u c w s, source = u ++ c :: w → Scanner.run {} u = .ok s → AgreesAt names m u c w s

/-- Whether something holds of a result, if there is one. -/
@[reducible]
def decidableForallOk {ε α : Type} {p : α → Prop} [DecidablePred p] :
    (r : Except ε α) → Decidable (∀ x, r = .ok x → p x)
  | .ok x => decidable_of_iff (p x) ⟨fun h _ eq => Except.ok.inj eq ▸ h, fun h => h x rfl⟩
  | .error _ => isTrue nofun

instance (name u : Text) : Decidable (EndsInName name u) :=
  let t := u.rdropWhile isBlank
  let before := t.take (t.length - name.length)
  have := decidableForallOk (p := fun s : Scanner => s.inComment = false) (Scanner.run {} before)
  decidable_of_iff (name <:+ t ∧ before.getLast?.any isNameChar = false ∧
      ∀ s, Scanner.run {} before = .ok s → s.inComment = false) (by
    constructor
    · rintro ⟨⟨front, eq⟩, rest⟩
      have same : before = front := by simp [before, ← eq]
      exact ⟨front, eq.symm, same ▸ rest⟩
    · rintro ⟨front, eq, rest⟩
      have same : before = front := by simp [before, t, eq]
      exact ⟨⟨front, eq.symm⟩, same.symm ▸ rest⟩)

instance : Decidable (Joins names c w s) :=
  inferInstanceAs (Decidable (_ ∧ _))

instance : Decidable (StandsWhole names u s) :=
  inferInstanceAs (Decidable (_ → _))

instance : Decidable (AgreesAt names m u c w s) :=
  decidable_of_iff' _ (agreesAt_iff names m u c w s)

instance : Decidable (Agrees names m source) :=
  have (n : Fin source.length) := decidableForallOk
    (p := AgreesAt names m (source.take n) (source.get n) (source.drop (n + 1)))
    (Scanner.run {} (source.take n))
  decidable_of_iff (∀ n : Fin source.length, ∀ s, Scanner.run {} (source.take n) = .ok s →
      AgreesAt names m (source.take n) (source.get n) (source.drop (n + 1)) s) (by
    constructor
    · rintro h u c w s rfl read
      have here := h ⟨u.length, by simp⟩ s (by simpa using read)
      simpa using here
    · intro h n s read
      exact h _ _ _ s (by simp) read)

/-! ## The statement and the text -/

/-- Whether an atom has name characters or blanks only. -/
def Atom.isQuiet (a : Atom) : Bool :=
  a.inName || a.isBlank

/-- What is read outside of comments, names and blanks, stands at the end of the statement. -/
def Synced (A B : List Atom) (s : Scanner) : Prop :=
  ∀ A₀ X s₀, A = A₀ ++ X → X ≠ [] → (∀ a ∈ X, a.isQuiet) →
    Scanner.run {} (written id A₀) = .ok s₀ → s₀.inComment = false → X <:+ B ∧ s.Receptive

theorem synced_nil : Synced [] B s :=
  fun _ _ _ eq ne => absurd (List.append_eq_nil_iff.mp eq.symm).2 ne

/-- One more atom. -/
theorem Synced.concat {s₁ : Scanner} {B₁ : List Atom} (h : Synced A B s)
    (read : Scanner.run {} (written id A) = .ok s)
    (added : a.isQuiet → s.inComment = false →
      B₁ = B ++ s.held.map .plain ++ [a] ∧ s₁.Receptive) : Synced (A ++ [a]) B₁ s₁ := by
  intro A₀ X s₀ eq ne quiet start outside
  obtain ⟨X, b, rfl⟩ := List.eq_nil_or_concat' X |>.resolve_left ne
  rw [← List.append_assoc] at eq
  obtain ⟨rfl, last⟩ := List.append_inj' eq rfl
  cases last
  -- the stretch starts with this atom or goes on with it
  rcases List.eq_nil_or_concat' X with rfl | ⟨X', b, rfl⟩
  · rw [List.append_nil, start, Except.ok.injEq] at read
    subst read
    obtain ⟨rfl, receptive⟩ := added (quiet a (by simp)) outside
    exact ⟨List.suffix_append _ _, receptive⟩
  · obtain ⟨inside, receptive⟩ := h A₀ _ s₀ rfl (by simp)
      (fun d hd => quiet d (List.mem_append_left _ hd)) start outside
    obtain ⟨rfl, receptive'⟩ := added (quiet a (by simp)) receptive.inComment
    obtain ⟨front, rfl⟩ := inside
    refine ⟨⟨front, ?_⟩, receptive'⟩
    simp [receptive.held]

/-- Whether a text ends in a name character is settled by the last atom. -/
theorem getLast?_written (named : Named id (A ++ [a])) :
    (written id (A ++ [a])).getLast?.any isNameChar = a.inName := by
  cases a with
  | plain c => simp [Atom.lift]
  | name old =>
    have name : IsPropertyName old := named old (by simp)
    have last : (written id (A ++ [.name old])).getLast? = old.getLast? := by
      rw [written_append, written_name, written_nil, List.append_nil, id_eq,
        List.getLast?_append_of_ne_nil _ name.ne_nil]
    rw [last, List.getLast?_eq_some_getLast name.ne_nil]
    simpa [Atom.lift] using name.chars _ (List.getLast_mem name.ne_nil)

theorem Cut.isWord (cut : Cut names none A) (mem : a ∈ A) (inName : a.inName) : IsWord names a :=
  ⟨inName, fun _ eq => cut.mem (eq ▸ mem)⟩

theorem mem_of_mem_written (named : Named id A) (hc : isNameChar c = false)
    (mem : c ∈ written id A) : .plain c ∈ A := by
  obtain ⟨a, here, inside⟩ := List.mem_flatMap.mp mem
  cases a with
  | plain d =>
    obtain rfl : c = d := by simpa [Atom.written] using inside
    exact here
  | name old => exact absurd ((named old here).chars c inside) (by simp [hc])

/-- The two scanners have read the same atoms. -/
structure Follows (names : List Text) (m : Text → Text) (A : List Atom) (s : Scanner)
    (B : List Atom) (F : List Statement) : Prop where
  read : Scanner.run {} (written id A) = .ok s
  retold : Scanner.run {} (written m A) = .ok (s.retold m B F)
  tells : s.Tells names m B F
  synced : Synced A B s

theorem Follows.sound (h : Follows names m A s B F) : s.Sound :=
  Scanner.run_sound Scanner.fresh_initial.sound h.read

/-- A name at the end of the text stands at the end of the statement. -/
theorem Follows.last (hn : Renames names m) (cut : Cut names none (A₁ ++ [a] ++ A₂))
    (h : Follows names m (A₁ ++ [a]) s B F) (inName : a.inName) (inside : s.inComment = false) :
    [a] <:+ B ∧ s.held = [] := by
  have read := h.read
  rw [written_append, written_singleton, Scanner.run_append_eq_ok_iff] at read
  obtain ⟨s₀, start, last⟩ := read
  obtain ⟨ne, chars⟩ := ((cut.isWord (by simp) inName).written hn).1
  rw [Scanner.run_name (Scanner.run_sound Scanner.fresh_initial.sound start) ne chars,
    Except.ok.injEq] at last
  -- a name opens and closes no comment
  have outside : s₀.inComment = false := by rw [← inside, ← last, Scanner.inComment_readName]
  obtain ⟨ends, receptive⟩ := h.synced A₁ [a] s₀ rfl (by simp)
    (by simpa [Atom.isQuiet] using .inl inName) start outside
  exact ⟨ends, receptive.held⟩

section

variable (hn : Renames names m) (cut : Cut names none (A₁ ++ a :: A₂))
  (agrees : Agrees names m (written id (A₁ ++ a :: A₂))) (h : Follows names m A₁ s B F)
include hn cut agrees h

/-- An atom that is read next stands apart from the last one of the statement. -/
theorem Follows.apart (inside : s.inComment = false) :
    ∀ b ∈ (B ++ s.held.map Atom.plain).getLast?, b.Apart a := by
  intro b hb inName inName'
  obtain ⟨Y, split⟩ := List.getLast?_eq_some_iff.mp hb
  by_cases near : ∃ A₀ b', A₁ = A₀ ++ [b'] ∧ b'.inName
  · -- the last atom of the text is the last one of the statement
    obtain ⟨A₀, b', rfl, word⟩ := near
    have chain := cut.isChain hn.old
    obtain ⟨⟨Y', rfl⟩, held⟩ := h.last hn cut word inside
    obtain ⟨-, rfl⟩ : Y' = Y ∧ b' = b := by simpa [held] using split
    rw [List.append_assoc, List.singleton_append] at chain
    exact (List.isChain_append_cons_cons.mp chain).2.1 inName inName'
  · -- between the two stands something that is no name
    have far : (written id A₁).getLast?.any isNameChar = false := by
      rcases List.eq_nil_or_concat' A₁ with rfl | ⟨A₀, b', rfl⟩
      · rfl
      · rw [getLast?_written fun old mem => hn.old old (cut.mem (List.mem_append_left _ mem))]
        simpa using fun word => near ⟨A₀, b', rfl, word⟩
    have cutB := h.tells.resume.cut
    have isWord : IsWord names a := cut.isWord (by simp) inName'
    obtain ⟨ne, chars⟩ := (isWord.written hn).1
    obtain ⟨c, w, first⟩ := List.exists_cons_of_ne_nil ne
    have ends : s.pending.getLast?.any isNameChar := by
      rw [h.tells.pending, split, getLast?_written (split ▸ hn.named_id cutB)]
      exact inName
    have apart : ¬∃ name ∈ names, name <:+ s.pending ∨ name <+: c :: (w ++ written id A₂) := by
      intro one
      have agreed := agrees (written id A₁) c (w ++ written id A₂) s (by
        rw [written_append, ← List.cons_append, ← first]
        rfl) h.read
      rw [agreed.joined inside ⟨ends, chars c (by simp [first]), one⟩] at far
      cases far
    constructor
    · cases b with
      | plain c => exact ⟨c, rfl⟩
      | name old =>
        refine absurd ⟨old, cutB.mem old (by simp [split]), .inl ?_⟩ apart
        rw [h.tells.pending, split]
        exact ⟨written id Y, by simp⟩
    · cases a with
      | plain c => exact ⟨c, rfl⟩
      | name old =>
        refine absurd ⟨old, isWord.mem old rfl, .inr ?_⟩ apart
        rw [← List.cons_append, ← first]
        exact List.prefix_append _ _

/-- A head that is a name to be changed is cut out. -/
theorem Follows.headCut (colon : a = .plain ':') (inside : s.inComment = false)
    (none_before : .plain ':' ∉ B ++ s.held.map Atom.plain) :
    HeadCut names (B ++ s.held.map .plain) := by
  have cutB := h.tells.resume.cut
  have namedB := hn.named_id cutB
  have pending := h.tells.pending
  subst colon
  have eq : written id (A₁ ++ .plain ':' :: A₂) = written id A₁ ++ ':' :: written id A₂ := by simp
  rw [HeadCut, ← pending]
  intro mem
  obtain ⟨before, ends, outside, start⟩ := (agrees _ _ _ s eq h.read).declared rfl inside
    (pending ▸ fun colon => none_before (mem_of_mem_written namedB (by decide) colon)) mem
  have text : written id A₁ =
      before ++ (Text.trim s.pending ++ (written id A₁).rtakeWhile isBlank) := by
    rw [← List.append_assoc, ← ends, List.rdropWhile_append_rtakeWhile]
  have blank : ∀ c ∈ (written id A₁).rtakeWhile isBlank, isBlank c :=
    fun c => List.mem_rtakeWhile_imp
  generalize (written id A₁).rtakeWhile isBlank = blanks at text blank
  rcases exists_of_written_append text with ⟨A₀, X, rfl, rfl, textX⟩ | ⟨A₀, y, z, A', rfl, ne, rfl⟩
  · rw [List.append_assoc] at cut
    have whole := Cut.declared hn.old (cut.right hn.old) (by simpa using outside) mem textX blank
    have quiet : ∀ a ∈ X, a.isQuiet := by
      rw [whole, List.forall_mem_cons]
      refine ⟨rfl, fun a ha => ?_⟩
      obtain ⟨c, hc, rfl⟩ := List.mem_map.mp ha
      simpa [Atom.isQuiet, Atom.lift] using .inr (blank c hc)
    have read := h.read
    rw [written_append, Scanner.run_append_eq_ok_iff] at read
    obtain ⟨s₀, read₀, -⟩ := read
    obtain ⟨inB, receptive⟩ := h.synced A₀ X s₀ rfl (by simp [whole]) quiet read₀ (start s₀ read₀)
    -- the name is in the statement, and nothing else but blanks
    exact cutB.trimmed_eq hn (by rw [pending])
      (List.mem_append_left _ (inB.subset (by simp [whole])))
  · -- the name would start inside of a name
    have name : IsPropertyName (y ++ z) := hn.old _ (cut.mem (by simp))
    rw [List.getLast?_append_of_ne_nil _ ne, List.getLast?_eq_some_getLast ne, Option.any_some,
      name.chars _ (List.mem_append_left _ (List.getLast_mem ne))] at outside
    cases outside

/-- **One atom** takes the two scanners on together. -/
theorem Follows.concat {s₁ : Scanner} (step : s.run (a.written id) = .ok s₁)
    (whole : s₁.FindsWhole names) : ∃ B₁ F₁, Follows names m (A₁ ++ [a]) s₁ B₁ F₁ := by
  have read : Scanner.run {} (written id (A₁ ++ [a])) = .ok s₁ := by
    rw [written_append, written_singleton, Scanner.run_append h.read, step]
  have apart := h.apart hn cut agrees
  by_cases inName : a.inName
  · have isWord : IsWord names a := cut.isWord (by simp) inName
    obtain ⟨⟨ne, chars⟩, ne', chars'⟩ := isWord.written hn
    rw [Scanner.run_name h.sound ne chars, Except.ok.injEq] at step
    subst step
    refine ⟨s.behindName B a, F, read, ?_, h.tells.name isWord apart, ?_⟩
    · rw [written_append, written_singleton, Scanner.run_append h.retold,
        Scanner.run_name h.sound.retold ne' chars', Scanner.retold_readName hn isWord]
    · refine h.synced.concat h.read fun _ outside => ⟨?_, Scanner.receptive_readName outside⟩
      simp [Scanner.behindName, outside]
  · obtain ⟨c, rfl⟩ : ∃ c, a = .plain c := by
      cases a with
      | plain c => exact ⟨c, rfl⟩
      | name old => exact absurd rfl inName
    obtain ⟨s', step', rest⟩ := Scanner.run_cons_eq_ok_iff.mp step
    cases rest
    have agreed := agrees (written id A₁) c (written id A₂) s (by simp) h.read
    obtain ⟨B₁, F₁, retold, tells, blank⟩ := h.tells.step hn
      (fun inside => ⟨apart inside, fun colon => h.headCut hn cut agrees (by rw [colon]) inside⟩)
      agreed.call step' whole
    refine ⟨B₁, F₁, read, ?_, tells, h.synced.concat h.read fun quiet outside => ?_⟩
    · rw [written_append, Scanner.run_append h.retold]
      exact Scanner.run_cons_eq_ok_iff.mpr ⟨_, retold, rfl⟩
    · have isBlank : (Atom.plain c).isBlank := by simpa [Atom.isQuiet, inName] using quiet
      exact blank outside isBlank

end

/-- **The scanner along the text with new names** does what it does along the text. -/
theorem exists_follows (hn : Renames names m) (cut : Cut names none (A₁ ++ A₂))
    (agrees : Agrees names m (written id (A₁ ++ A₂)))
    (read : Scanner.run {} (written id A₁) = .ok s) (whole : s.FindsWhole names) :
    ∃ B F, Follows names m A₁ s B F := by
  induction A₁ using List.reverseRecOn generalizing A₂ s with
  | nil =>
    cases read
    exact ⟨[], [], rfl, rfl, ⟨rfl, statementCut_nil, rfl⟩, synced_nil⟩
  | append_singleton A₁ a ih =>
    -- what is found in front of the last atom is found in the end
    rw [written_append, written_singleton, Scanner.run_append_eq_ok_iff] at read
    obtain ⟨s₀, start, step⟩ := read
    have sound := Scanner.run_sound Scanner.fresh_initial.sound start
    have whole₀ : s₀.FindsWhole names := fun token found =>
      whole token (((Scanner.run_found sound step).filterMap _).subset found)
    rw [List.append_assoc, List.singleton_append] at cut agrees
    obtain ⟨B, F, follows⟩ := ih cut agrees start whole₀
    exact follows.concat hn cut agrees step whole

/-- **What a text with new names declares**, where the scanner and renaming agree about it. -/
theorem scan_written (hn : Renames names m) (cut : Cut names none A)
    (agrees : Agrees names m (written id A)) {statements : List Statement}
    (accepted : scan (written id A) = .ok statements)
    (whole : ∀ token ∈ statements.filterMap Statement.declared?, Whole names token) :
    ∃ statements', scan (written m A) = .ok statements' ∧
      statements'.filterMap Statement.declared? =
        (statements.filterMap Statement.declared?).map (renameToken m) := by
  obtain ⟨s, read, finish⟩ := exists_finish accepted
  have findsWhole : s.FindsWhole names := fun token found =>
    whole token (((Scanner.finish_found finish).filterMap _).subset found)
  rw [← List.append_nil A] at cut agrees
  obtain ⟨B, F, follows⟩ := exists_follows hn cut agrees read findsWhole
  obtain ⟨statements', finish', declared⟩ := follows.tells.finish hn finish whole
  refine ⟨statements', ?_, declared⟩
  rw [scan, follows.retold]
  exact finish'

/-! ## Inventories -/

/-- The names that pairs change. -/
def changed (pairs : List (Text × Text)) : List Text :=
  inOrder (((effective pairs).map Prod.fst).filter isProperty)

/-- The name that pairs give to a name. -/
def newName (pairs : List (Text × Text)) (name : Text) : Text :=
  (Entries.get? name pairs).getD name

variable {pairs : List (Text × Text)}

theorem mem_changed {name : Text} : name ∈ changed pairs ↔
    isProperty name ∧ ∃ new, (name, new) ∈ pairs ∧ RenameMap.changes name new := by
  simp [changed, inOrder, effective, and_comm]

theorem mem_of_get? {name new : Text} (h : Entries.get? name pairs = some new) :
    (name, new) ∈ pairs := by
  induction pairs with
  | nil => cases h
  | cons pair pairs ih =>
    rw [Entries.get?] at h
    split_ifs at h with here
    · cases h
      rw [← here]
      exact List.mem_cons_self
    · exact List.mem_cons_of_mem _ (ih h)

/-- Pairs give a name another one of theirs, or leave it. -/
theorem newName_eq_or_mem (pairs : List (Text × Text)) (name : Text) :
    newName pairs name = name ∨ (name, newName pairs name) ∈ pairs := by
  unfold newName
  cases found : Entries.get? name pairs with
  | none => exact .inl rfl
  | some new => exact .inr (mem_of_get? found)

theorem changes_of_ne {old new : Text} (h : old ≠ []) (h' : new ≠ []) (ne : old ≠ new) :
    RenameMap.changes old new := by
  simp [RenameMap.changes, h, h', ne]

/-- Where no pair changes a name, it stays. -/
theorem newName_eq_self {name : Text} (ne : ∀ pair ∈ pairs, pair.1 ≠ [] ∧ pair.2 ≠ [])
    (same : ∀ new, (name, new) ∈ pairs → ¬RenameMap.changes name new) :
    newName pairs name = name := by
  rcases newName_eq_or_mem pairs name with eq | mem
  · exact eq
  · by_contra other
    exact same _ mem (changes_of_ne (ne _ mem).1 (ne _ mem).2 (Ne.symm other))

/-- The names of one kind in the inventory of statements. -/
theorem mem_names {kind : TokenKind} (other : kind ≠ .moduleRef) {path name : Text}
    {statements : List Statement} :
    name ∈ (Inventory.ofTokens path (statements.filterMap Statement.token?)).names kind ↔
      (kind, name) ∈ statements.filterMap Statement.declared? := by
  rw [Inventory.mem_names_ofTokens]
  simp [Statement.declared?, Option.filter_eq_some_iff, other]

theorem strict_names (path : Text) (tokens : List (TokenKind × Text)) (kind : TokenKind) :
    Ascending.Strict ((Inventory.ofTokens path tokens).names kind) :=
  Inventory.strict_names_ofTokens

section

variable {statements statements' : List Statement} {path : Text}

/-- A token of the inventory is renamed as a whole or not at all. -/
theorem whole_of_inventory {inventory : Inventory}
    (eq : inventory = Inventory.ofTokens path (statements.filterMap Statement.token?))
    (properties : ∀ property ∈ inventory.properties, (∃ name ∈ names, name <:+: property) →
      ∀ c ∈ property, isNameChar c)
    (others : ∀ name ∈ names, name ∉ inventory.blocks ∧ name ∉ inventory.functions) :
    ∀ token ∈ statements.filterMap Statement.declared?, Whole names token := by
  rintro ⟨kind, name⟩ found
  have other : kind ≠ .moduleRef := by
    obtain ⟨x, -, declared⟩ := List.mem_filterMap.mp found
    exact of_decide_eq_true (Option.filter_eq_some_iff.mp declared).2
  have listed : name ∈ inventory.names kind := eq ▸ (mem_names other).mpr found
  unfold Whole
  cases kind with
  | property => exact properties name listed
  | block => exact fun mem => (others name mem).1 listed
  | function => exact fun mem => (others name mem).2 listed
  | moduleRef => exact absurd rfl other

/-- The inventory has the names of the renamed tokens. -/
theorem names_renamed (declared : statements'.filterMap Statement.declared? =
      (statements.filterMap Statement.declared?).map (renameToken m))
    (kind : TokenKind) (other : kind ≠ .moduleRef) :
    (Inventory.ofTokens path (statements'.filterMap Statement.token?)).names kind =
      Ascending.ofList (((Inventory.ofTokens path
        (statements.filterMap Statement.token?)).names kind).map
          (if kind = .property then m else id)) := by
  refine (strict_names path _ kind).ext (Ascending.strict_ofList _) fun name => ?_
  simp only [Ascending.mem_ofList, List.mem_map, mem_names other, declared, renameToken,
    Prod.exists, Prod.mk.injEq]
  constructor
  · rintro ⟨_, old, found, rfl, rfl⟩
    refine ⟨old, found, ?_⟩
    split_ifs <;> rfl
  · rintro ⟨old, found, rfl⟩
    refine ⟨kind, old, found, rfl, ?_⟩
    split_ifs <;> rfl

end

section

variable (hp : ∀ pair ∈ pairs, IsPropertyName pair.1 ∧ IsPropertyName pair.2)
include hp

theorem renames_changed : Renames (changed pairs) (newName pairs) where
  old name mem := by
    obtain ⟨-, new, mem, -⟩ := mem_changed.mp mem
    exact (hp _ mem).1
  new name mem := by
    obtain ⟨-, new, mem, -⟩ := mem_changed.mp mem
    rcases newName_eq_or_mem pairs name with eq | here
    · rw [eq]
      exact (hp _ mem).1
    · exact (hp _ here).2
  fixed name mem := by
    refine newName_eq_self (fun pair here => ⟨(hp pair here).1.ne_nil, (hp pair here).2.ne_nil⟩) ?_
    intro new here changes
    have sigil := List.isPrefixOf_iff_prefix.mpr (hp _ here).1.sigil
    exact mem (mem_changed.mpr ⟨sigil, new, here, changes⟩)

/-- Pairs of properties change nothing but properties. -/
theorem callables_eq_none (before : Option Char) (t : Text) : callables pairs before t = none := by
  have none_other :
      ((effective pairs).map Prod.fst).filter (fun name => !isProperty name) = [] := by
    rw [List.filter_eq_nil_iff]
    intro name mem
    obtain ⟨pair, here, rfl⟩ := List.mem_map.mp mem
    have sigil := (hp pair (List.mem_of_mem_filter here)).1.sigil
    simpa [isProperty] using List.isPrefixOf_iff_prefix.mpr sigil
  have empty : inOrder [] = [] := by simp [inOrder]
  rw [callables, none_other, empty]
  simp [callableRule, namedInRule?, ruleName?, qualifiedName?, freshName?, nameAt?]

theorem rename_eq (t : Text) :
    (rename pairs t).1 = written (newName pairs) (atoms (changed pairs) none t) := by
  rw [atoms, written_atomsBy]
  exact Rule.replaced_of_forall (fun before u _ => callables_eq_none hp before u) _

/-- All changes are changes of properties. -/
theorem rename_snd_eq (t : Text) : (rename pairs t).2 = (properties pairs).hitCount t :=
  congrArg _ (Rule.hitCount_of_forall fun before u _ => callables_eq_none hp before u)

/-- **Renaming properties changes the names of the declared properties, and nothing else that is
declared**, where the scanner and renaming agree about the names of the stylesheet, a property
that has a changed name in it is one name, and no mixin or function has a changed name. -/
theorem extract_rename {source path : Text} {inventory : Inventory}
    (accepted : Inventory.extract source path = .ok inventory)
    (agrees : Agrees (changed pairs) (newName pairs) source)
    (whole : ∀ property ∈ inventory.properties, (∃ name ∈ changed pairs, name <:+: property) →
      ∀ c ∈ property, isNameChar c)
    (others : ∀ name ∈ changed pairs, name ∉ inventory.blocks ∧ name ∉ inventory.functions) :
    ∃ renamed, Inventory.extract (rename pairs source).1 path = .ok renamed ∧
      renamed.properties = Ascending.ofList (inventory.properties.map (newName pairs)) ∧
      renamed.blocks = inventory.blocks ∧ renamed.functions = inventory.functions := by
  -- the source and the renamed text are made of the same atoms
  obtain ⟨text, cut⟩ := cut_atoms (renames_changed hp).old none source
  unfold Inventory.extract at accepted
  cases scanned : scan source with
  | error e => simp [scanned] at accepted
  | ok statements =>
    simp only [scanned, Except.ok.injEq] at accepted
    subst accepted
    obtain ⟨statements', scanned', declared⟩ := scan_written (renames_changed hp) cut
      (text.symm ▸ agrees) (text.symm ▸ scanned) (whole_of_inventory rfl whole others)
    have kept : ∀ kind, kind ≠ .moduleRef → kind ≠ .property →
        (Inventory.ofTokens path (statements'.filterMap Statement.token?)).names kind =
          (Inventory.ofTokens path (statements.filterMap Statement.token?)).names kind := by
      intro kind other other'
      rw [names_renamed declared kind other, if_neg other', List.map_id,
        Ascending.ofList_eq_self (strict_names path _ kind)]
    refine ⟨Inventory.ofTokens path (statements'.filterMap Statement.token?), ?_,
      names_renamed declared .property (by decide), kept .block (by decide) (by decide),
      kept .function (by decide) (by decide)⟩
    rw [Inventory.extract, rename_eq hp, scanned']

end

/-- A mixin that has one of the names in its own, and a property that is renamed. -/
def mixinSheet : Text :=
  "@mixin tip--a\x7b--a :var(--a)\x7d/*--a:*/".toList

/-- One property gets a new name. -/
def onePair : List (Text × Text) :=
  [("--a".toList, "--b".toList)]

theorem extract_rename_mixinSheet :
    (∀ pair ∈ onePair, IsPropertyName pair.1 ∧ IsPropertyName pair.2) ∧
    Agrees (changed onePair) (newName onePair) mixinSheet ∧
    ∃ renamed, Inventory.extract (rename onePair mixinSheet).1 [] = .ok renamed ∧
      renamed.properties = ["--b".toList] ∧ renamed.blocks = ["tip--a".toList] ∧
      renamed.functions = [] := by
  have pairs : ∀ pair ∈ onePair, IsPropertyName pair.1 ∧ IsPropertyName pair.2 := by decide
  have agrees : Agrees (changed onePair) (newName onePair) mixinSheet := by decide +kernel
  have accepted : Inventory.extract mixinSheet [] =
      .ok ⟨[], ["--a".toList], ["tip--a".toList], [], []⟩ := rfl
  have renamed := extract_rename pairs accepted agrees (by decide +kernel) (by decide +kernel)
  exact ⟨pairs, agrees, renamed⟩

/-- An escaped dot in the name of a property. -/
def escapedSheet : Text :=
  "a\x7b--x\\.--a:1\x7d".toList

/-- Renaming takes a part of the name of another property. -/
theorem extract_rename_escapedSheet :
    (∀ pair ∈ onePair, IsPropertyName pair.1 ∧ IsPropertyName pair.2) ∧
    ∃ inventory renamed, Inventory.extract escapedSheet [] = .ok inventory ∧
      Inventory.extract (rename onePair escapedSheet).1 [] = .ok renamed ∧
      renamed.properties ≠ Ascending.ofList (inventory.properties.map (newName onePair)) := by
  refine ⟨by decide, ⟨[], ["--x\\.--a".toList], [], [], []⟩,
    ⟨[], ["--x\\.--b".toList], [], [], []⟩, rfl, by decide +kernel, by decide +kernel⟩

end StyleTokens.Rename
