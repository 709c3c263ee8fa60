import StyleTokens.Proofs.Data.Entries
import StyleTokens.Proofs.Json.Text
import StyleTokens.Proofs.Text.Lines

/-!
# Written documents are read back

The values that are kept in files are texts, and lists and objects of such values. Their documents
are read back if no object has a key twice and there are not too many brackets inside one another.
A written value starts with a quote or a bracket and ends with the one that belongs to it, so the
reader stops where the value ends, and the line breaks and the indentation around it are passed
over. Each step of the reader takes at least one character, so the steps do not run out.

## Main definitions

* `Json.Storable`: the values that are kept in files
* `Json.separated`: written parts with commas and line breaks between them
* `Json.Takes`: a reader takes a part of a sequence
* `Json.ReadsBack`: a value that is read back from where it is written

## Main results

* `Json.read_separated`: a sequence is read back if its parts are
* `Json.takes_item`, `Json.takes_member`: the parts of lists and objects
* `Json.Storable.readsBack`: all values that are kept in files are read back
* `Json.read_document`: so are their documents
-/

namespace StyleTokens.Json

/-- A value of texts, lists, and objects with distinct keys, with at most so many brackets inside
one another. -/
inductive Storable : Nat → Value → Prop
  /-- A text has no brackets. -/
  | text (depth : Nat) (t : Text) : Storable depth (.text t)
  | array {depth : Nat} {items : List Value} (parts : ∀ v ∈ items, Storable depth v) :
    Storable (depth + 1) (.array items)
  | object {depth : Nat} {members : List (Text × Value)}
    (distinct : (members.map Prod.fst).Nodup) (parts : ∀ m ∈ members, Storable depth m.2) :
    Storable (depth + 1) (.object members)

variable {depth fuel level outer : Nat} {v : Value} {vs items : List Value} {c : Char}
  {key t t₁ t₂ t₃ rest : Text} {ms members : List (Text × Value)}

/-! ## Blanks -/

theorem skipBlanks_cons (h : isDocumentBlank c = false) (t : Text) :
    skipBlanks (c :: t) = c :: t := by
  rw [skipBlanks, List.dropWhile_cons_of_neg (by simpa using h)]

theorem skipBlanks_newline (level : Nat) (t : Text) :
    skipBlanks (newline level ++ t) = skipBlanks t := by
  refine List.dropWhile_append_of_pos fun c mem => ?_
  rcases List.mem_cons.mp mem with rfl | mem
  · rfl
  · rw [List.eq_of_mem_replicate mem]
    rfl

/-! ## One step of the reader -/

theorem readValue_text (h : readText t = .ok (key, rest)) :
    readValue depth (fuel + 1) ('"' :: t) = .ok (.text key, rest) := by
  rw [readValue, h]
  rfl

theorem readItems_last (first : readValue depth fuel t = .ok (v, t₁))
    (behind : skipBlanks t₁ = ']' :: rest) :
    readItems depth (fuel + 1) t = .ok ([v], rest) := by
  simp only [readItems, first, behind, bind, Except.bind, pure, Except.pure]

theorem readItems_more (first : readValue depth fuel t = .ok (v, t₁))
    (behind : skipBlanks t₁ = ',' :: t₂)
    (more : readItems depth fuel (skipBlanks t₂) = .ok (vs, rest)) :
    readItems depth (fuel + 1) t = .ok (v :: vs, rest) := by
  simp only [readItems, first, behind, more, bind, Except.bind, pure, Except.pure]

theorem readMembers_last (name : readText t = .ok (key, ':' :: t₁))
    (value : readValue depth fuel (skipBlanks t₁) = .ok (v, t₂))
    (behind : skipBlanks t₂ = '}' :: rest) :
    readMembers depth (fuel + 1) ('"' :: t) = .ok ([(key, v)], rest) := by
  have colon : skipBlanks (':' :: t₁) = ':' :: t₁ := skipBlanks_cons rfl t₁
  simp only [readMembers, name, colon, value, behind, bind, Except.bind, pure, Except.pure]

theorem readMembers_more (name : readText t = .ok (key, ':' :: t₁))
    (value : readValue depth fuel (skipBlanks t₁) = .ok (v, t₂))
    (behind : skipBlanks t₂ = ',' :: t₃)
    (more : readMembers depth fuel (skipBlanks t₃) = .ok (ms, rest)) :
    readMembers depth (fuel + 1) ('"' :: t) = .ok ((key, v) :: ms, rest) := by
  have colon : skipBlanks (':' :: t₁) = ':' :: t₁ := skipBlanks_cons rfl t₁
  simp only [readMembers, name, colon, value, behind, more, bind, Except.bind, pure, Except.pure]

theorem readValue_items (first : skipBlanks t = t₁) (some_item : ∀ u, t₁ ≠ ']' :: u)
    (read : readItems depth fuel t₁ = .ok (vs, rest)) :
    readValue (depth + 1) (fuel + 1) ('[' :: t) = .ok (.array vs, rest) := by
  rw [readValue, first]
  split
  · exact absurd rfl (some_item _)
  · rw [read]
    rfl

theorem readValue_members (first : skipBlanks t = t₁) (some_member : ∀ u, t₁ ≠ '}' :: u)
    (read : readMembers depth fuel t₁ = .ok (ms, rest)) :
    readValue (depth + 1) (fuel + 1) ('{' :: t) = .ok (.object (Entries.ofList ms), rest) := by
  rw [readValue, first]
  split
  · exact absurd rfl (some_member _)
  · rw [read]
    rfl

/-! ## Written parts -/

theorem writeItems_eq (level : Nat) (items : List Value) :
    writeItems level items = items.map (write level) := by
  induction items with
  | nil => rw [writeItems, List.map_nil]
  | cons v items ih => rw [writeItems, ih, List.map_cons]

/-- A written member of an object. -/
def writeMember (level : Nat) (member : Text × Value) : Text :=
  writeText member.1 ++ ':' :: ' ' :: write level member.2

theorem writeMembers_eq (level : Nat) (members : List (Text × Value)) :
    writeMembers level members = members.map (writeMember level) := by
  induction members with
  | nil => rw [writeMembers, List.map_nil]
  | cons member members ih => rw [writeMembers, ih, List.map_cons, writeMember]

/-- The character starts a value that is kept in files. -/
def Starts (c : Char) : Prop :=
  c = '"' ∨ c = '[' ∨ c = '{'

theorem Starts.not_blank (h : Starts c) : isDocumentBlank c = false := by
  rcases h with rfl | rfl | rfl <;> rfl

theorem Starts.not_closing (h : Starts c) : c ≠ ']' ∧ c ≠ '}' := by
  rcases h with rfl | rfl | rfl <;> decide

theorem exists_bracketed_eq (level : Nat) (left right : Char) (parts : List Text) :
    ∃ t, bracketed level left right parts = left :: t := by
  unfold bracketed
  split_ifs
  · exact ⟨_, rfl⟩
  · exact ⟨_, rfl⟩

theorem Storable.exists_write_eq (h : Storable depth v) (level : Nat) :
    ∃ c t, write level v = c :: t ∧ Starts c := by
  cases h with
  | text _ t => exact ⟨'"', _, by rw [write]; rfl, .inl rfl⟩
  | array _ =>
    obtain ⟨t, eq⟩ := exists_bracketed_eq level '[' ']' _
    exact ⟨'[', t, by rw [write, eq], .inr (.inl rfl)⟩
  | object _ _ =>
    obtain ⟨t, eq⟩ := exists_bracketed_eq level '{' '}' _
    exact ⟨'{', t, by rw [write, eq], .inr (.inr rfl)⟩

theorem exists_writeMember_eq (level : Nat) (member : Text × Value) :
    ∃ c t, writeMember level member = c :: t ∧ Starts c :=
  ⟨'"', _, rfl, .inl rfl⟩

/-- A bound of the length leaves room for one step. -/
theorem Storable.exists_eq_add_one (h : Storable depth v)
    (enough : (write level v).length ≤ fuel) : ∃ n, fuel = n + 1 := by
  obtain ⟨c, t, eq, -⟩ := h.exists_write_eq level
  rw [eq, List.length_cons] at enough
  exact Nat.exists_eq_add_one_of_ne_zero (by omega)

/-- No blanks stand before a written value. -/
theorem Storable.skipBlanks_write (h : Storable depth v) (level : Nat) (t : Text) :
    skipBlanks (write level v ++ t) = write level v ++ t := by
  obtain ⟨c, u, eq, starts⟩ := h.exists_write_eq level
  rw [eq, List.cons_append, skipBlanks_cons starts.not_blank]

/-! ## Parts on lines of their own -/

/-- Written parts with commas and line breaks between them. -/
def separated (level : Nat) (parts : List Text) : Text :=
  Text.joined (',' :: newline level) parts

theorem separated_singleton (level : Nat) (part : Text) : separated level [part] = part :=
  rfl

theorem separated_cons_cons_append (level : Nat) (part part' : Text) (parts : List Text)
    (behind : Text) :
    separated level (part :: part' :: parts) ++ behind =
      part ++ ',' :: (newline level ++ (separated level (part' :: parts) ++ behind)) := by
  simp [separated, Text.joined_cons_cons]

theorem length_separated_cons_cons (level : Nat) (part part' : Text) (parts : List Text) :
    part.length + (separated level (part' :: parts)).length <
      (separated level (part :: part' :: parts)).length := by
  simp only [separated, Text.joined_cons_cons, List.length_append, List.length_cons]
  omega

/-- The first part comes first. -/
theorem exists_separated_cons_eq (level : Nat) (part : Text) (parts : List Text) :
    ∃ t, separated level (part :: parts) = part ++ t := by
  cases parts with
  | nil => exact ⟨[], (List.append_nil part).symm⟩
  | cons part' parts => exact ⟨_, by rw [separated, Text.joined_cons_cons, List.append_assoc]⟩

theorem skipBlanks_separated {part : Text} (starts : ∃ c t, part = c :: t ∧ Starts c)
    (level : Nat) (parts : List Text) (behind : Text) :
    skipBlanks (newline level ++ (separated level (part :: parts) ++ behind)) =
        separated level (part :: parts) ++ behind ∧
      ∀ c t, separated level (part :: parts) ++ behind = c :: t → Starts c := by
  obtain ⟨first, t, rfl, starts⟩ := starts
  obtain ⟨u, eq⟩ := exists_separated_cons_eq level (first :: t) parts
  rw [skipBlanks_newline, eq]
  refine ⟨skipBlanks_cons starts.not_blank _, fun c t eq => ?_⟩
  rwa [← (List.cons.inj eq).1]

theorem bracketed_append (level : Nat) (left right : Char) {parts : List Text} (ne : parts ≠ [])
    (behind : Text) :
    bracketed level left right parts ++ behind =
      left :: (newline (level + 1) ++ (separated (level + 1) parts ++
        (newline level ++ right :: behind))) := by
  rw [bracketed, if_neg (by simpa using ne)]
  simp [separated]

theorem length_separated_lt (level : Nat) (left right : Char) {parts : List Text}
    (ne : parts ≠ []) :
    (separated (level + 1) parts).length + 1 < (bracketed level left right parts).length := by
  have whole := congrArg List.length (bracketed_append level left right ne [])
  simp only [List.append_nil, List.length_cons, List.length_append] at whole
  omega

/-- A reader takes a part of a sequence: it is the last one before the closing bracket, and another
one follows behind a comma. -/
structure Takes {α : Type} (reader : Nat → Text → Except ReadFault (List α × Text))
    (written : α → Text) (closing : Char) (x : α) : Prop where
  starts : ∃ c t, written x = c :: t ∧ Starts c
  last : ∀ {fuel behind rest}, (written x).length ≤ fuel → skipBlanks behind = closing :: rest →
    reader (fuel + 1) (written x ++ behind) = .ok ([x], rest)
  more : ∀ {fuel behind t xs rest}, (written x).length ≤ fuel → skipBlanks behind = ',' :: t →
    reader fuel (skipBlanks t) = .ok (xs, rest) →
    reader (fuel + 1) (written x ++ behind) = .ok (x :: xs, rest)

/-- **A sequence is read back** if the reader takes each of its parts. -/
theorem read_separated {α : Type} {reader : Nat → Text → Except ReadFault (List α × Text)}
    {written : α → Text} {closing : Char} {xs : List α} (ne : xs ≠ [])
    (parts : ∀ x ∈ xs, Takes reader written closing x) (visible : isDocumentBlank closing = false)
    (enough : (separated level (xs.map written)).length < fuel) :
    reader fuel (separated level (xs.map written) ++ (newline outer ++ closing :: rest)) =
      .ok (xs, rest) := by
  induction xs generalizing fuel with
  | nil => exact absurd rfl ne
  | cons x xs ih =>
    rw [List.forall_mem_cons] at parts
    obtain ⟨fuel, rfl⟩ := Nat.exists_eq_add_one_of_ne_zero (Nat.ne_zero_of_lt enough)
    cases xs with
    | nil =>
      rw [List.map_singleton, separated_singleton] at enough ⊢
      refine parts.1.last (by omega) ?_
      rw [skipBlanks_newline, skipBlanks_cons visible]
    | cons y xs =>
      have shorter := length_separated_cons_cons level (written x) (written y) (xs.map written)
      simp only [List.map_cons] at enough ih ⊢
      rw [separated_cons_cons_append]
      refine parts.1.more (by omega) (skipBlanks_cons rfl _) ?_
      rw [(skipBlanks_separated (parts.2 y List.mem_cons_self).starts level _ _).1]
      exact ih (List.cons_ne_nil y xs) parts.2 (by omega)

/-! ## Whole values -/

/-- The value is read back from where it is written, whatever is behind it. -/
def ReadsBack (depth : Nat) (v : Value) : Prop :=
  ∀ level fuel rest, (write level v).length ≤ fuel →
    readValue depth fuel (write level v ++ rest) = .ok (v, rest)

theorem takes_item (storable : Storable depth v) (h : ReadsBack depth v) (level : Nat) :
    Takes (readItems depth) (write level) ']' v where
  starts := storable.exists_write_eq level
  last room behind := readItems_last (h level _ _ room) behind
  more room behind more := readItems_more (h level _ _ room) behind more

theorem takes_member {member : Text × Value} (storable : Storable depth member.2)
    (h : ReadsBack depth member.2) (level : Nat) :
    Takes (readMembers depth) (writeMember level) '}' member := by
  -- the name is read as a text, and the value from behind the blank
  have name : ∀ behind, ∃ t, writeMember level member ++ behind = '"' :: t ∧
      readText t = .ok (member.1, ':' :: ' ' :: (write level member.2 ++ behind)) := by
    intro behind
    rw [writeMember, List.append_assoc]
    exact readText_writeText _ _
  have value : ∀ {fuel} behind, (writeMember level member).length ≤ fuel →
      readValue depth fuel (skipBlanks (' ' :: (write level member.2 ++ behind))) =
        .ok (member.2, behind) := by
    intro fuel behind room
    have skipped : skipBlanks (' ' :: (write level member.2 ++ behind)) =
        write level member.2 ++ behind :=
      (List.dropWhile_cons_of_pos rfl).trans (storable.skipBlanks_write level behind)
    rw [skipped]
    refine h level fuel behind ?_
    simp only [writeMember, List.length_append, List.length_cons] at room
    omega
  refine ⟨exists_writeMember_eq level member, ?_, ?_⟩
  · intro fuel behind rest room last
    obtain ⟨t, eq, read⟩ := name behind
    rw [eq]
    exact readMembers_last read (value behind room) last
  · intro fuel behind t ms rest room comma more
    obtain ⟨u, eq, read⟩ := name behind
    rw [eq]
    exact readMembers_more read (value behind room) comma more

/-- **A value that is kept in files is read back.** -/
theorem Storable.readsBack (h : Storable depth v) : ReadsBack depth v := by
  induction h with
  | text depth t =>
    intro level fuel rest enough
    obtain ⟨fuel, rfl⟩ := (Storable.text depth t).exists_eq_add_one enough
    obtain ⟨u, eq, read⟩ := readText_writeText t rest
    rw [write, eq]
    exact readValue_text read
  | @array depth items parts ih =>
    intro level fuel rest enough
    obtain ⟨fuel, rfl⟩ := (Storable.array parts).exists_eq_add_one enough
    rw [write, writeItems_eq] at enough ⊢
    cases items with
    | nil => rfl
    | cons v items =>
      have ne : (v :: items).map (write (level + 1)) ≠ [] := List.cons_ne_nil _ _
      have room : (separated (level + 1) ((v :: items).map (write (level + 1)))).length < fuel := by
        have := length_separated_lt level '[' ']' ne
        omega
      rw [bracketed_append level '[' ']' ne]
      obtain ⟨skipped, starts⟩ := skipBlanks_separated
        ((parts v List.mem_cons_self).exists_write_eq (level + 1)) (level + 1)
        (items.map (write (level + 1))) (newline level ++ ']' :: rest)
      refine readValue_items skipped (fun u eq => (starts _ _ eq).not_closing.1 rfl) ?_
      exact read_separated (List.cons_ne_nil v items)
        (fun w mem => takes_item (parts w mem) (ih w mem) (level + 1)) rfl room
  | @object depth members distinct parts ih =>
    intro level fuel rest enough
    obtain ⟨fuel, rfl⟩ := (Storable.object distinct parts).exists_eq_add_one enough
    rw [write, writeMembers_eq] at enough ⊢
    cases members with
    | nil => rfl
    | cons member members =>
      have ne : (member :: members).map (writeMember (level + 1)) ≠ [] := List.cons_ne_nil _ _
      have room : (separated (level + 1)
          ((member :: members).map (writeMember (level + 1)))).length < fuel := by
        have := length_separated_lt level '{' '}' ne
        omega
      rw [bracketed_append level '{' '}' ne]
      obtain ⟨skipped, starts⟩ := skipBlanks_separated
        (exists_writeMember_eq (level + 1) member) (level + 1)
        (members.map (writeMember (level + 1))) (newline level ++ '}' :: rest)
      have read := readValue_members skipped (fun u eq => (starts _ _ eq).not_closing.2 rfl)
        (read_separated (List.cons_ne_nil member members)
          (fun m mem => takes_member (parts m mem) (ih m mem) (level + 1)) rfl room)
      -- the keys are distinct, so no member takes the place of another one
      rwa [Entries.ofList_eq_self distinct] at read

/-- **The document of a value** that is kept in files is read back. -/
theorem read_document (h : Storable depthLimit v) : read (document v) = .ok v := by
  have start : skipBlanks (document v) = write 0 v ++ ['\n'] := h.skipBlanks_write 0 ['\n']
  have room : (write 0 v).length ≤ 2 * (document v).length + 2 := by
    rw [document, List.length_append]
    omega
  rw [read, start, h.readsBack 0 _ ['\n'] room]
  rfl

end StyleTokens.Json
