import StyleTokens.Csv
import StyleTokens.Proofs.Text.Lines

/-!
# Reading comma-separated records

A reader of comma-separated records takes one character after the other. A field starts with a
double quote or stands bare; between quotes every character counts, and two quotes stand for one. A
comma ends a field and a line feed ends a record. Behind a closing quote there is nothing else, and
no quote stands in a bare field. What is written is read back, whatever the fields hold.

## Main definitions

* `Csv.Reader`: what has been read so far
* `Csv.Reader.step`, `Csv.Reader.run`: reading a character and a text
* `Csv.read`: the records of a document

## Main results

* `Csv.Reader.run_field`: a written field is read back
* `Csv.Reader.run_record`: so is a record
* `Csv.read_records`: so is a document
-/

namespace StyleTokens.Csv

/-! ## The reader -/

/-- Where the reader stands in a field. -/
inductive Place where
  /-- Before its first character. -/
  | start
  /-- Behind a character of a field without quotes. -/
  | bare
  /-- Between its quotes. -/
  | quoted
  /-- Behind a quote that closes it, if no second one follows. -/
  | closed
  deriving DecidableEq, Repr

/-- A reader of records. -/
structure Reader where
  /-- The records that are ended. -/
  records : List (List Text) := []
  /-- The fields of the next record that are ended. -/
  fields : List Text := []
  /-- The characters of the next field. -/
  field : Text := []
  place : Place := .start
  deriving DecidableEq, Repr

namespace Reader

variable {r : Reader} {t : Text} {c : Char}

/-- One more character in the field. -/
def add (r : Reader) (c : Char) (place : Place) : Reader :=
  { r with field := r.field ++ [c], place }

/-- The field is ended. -/
def endField (r : Reader) : Reader :=
  { r with fields := r.fields ++ [r.field], field := [], place := .start }

/-- The field and the record are ended. -/
def endRecord (r : Reader) : Reader :=
  { records := r.records ++ [r.fields ++ [r.field]] }

/-- A character that ends a field. -/
def separate? (r : Reader) (c : Char) : Option Reader :=
  if c = ',' then some r.endField else if c = '\n' then some r.endRecord else none

/-- One more character is read. -/
def step (r : Reader) (c : Char) : Option Reader :=
  match r.place with
  | .start =>
    if c = '"' then some { r with place := .quoted }
    else (r.separate? c).or (some (r.add c .bare))
  | .bare => if c = '"' then none else (r.separate? c).or (some (r.add c .bare))
  | .quoted => if c = '"' then some { r with place := .closed } else some (r.add c .quoted)
  | .closed => if c = '"' then some (r.add c .quoted) else r.separate? c

/-- All characters of a text are read. -/
def run (r : Reader) (t : Text) : Option Reader :=
  t.foldlM step r

theorem run_cons (r : Reader) (c : Char) (t : Text) :
    r.run (c :: t) = (r.step c).bind fun r => r.run t :=
  List.foldlM_cons

theorem run_append (r : Reader) (t u : Text) :
    r.run (t ++ u) = (r.run t).bind fun r => r.run u :=
  List.foldlM_append

end Reader

/-- The records of a document, each of them ended by a line feed. -/
def read (t : Text) : Option (List (List Text)) := do
  let r ← Reader.run {} t
  if r = { records := r.records } then some r.records else none

/-! ## Written records -/

theorem not_special_of_needsQuotes {t : Text} (h : needsQuotes t = false) :
    ∀ c ∈ t, c ≠ ',' ∧ c ≠ '"' ∧ c ≠ '\n' := by
  intro c mem
  simpa [not_or, and_assoc] using List.any_eq_false.mp h c mem

namespace Reader

variable {r : Reader} {t : Text} {c : Char}

theorem step_comma (h : r.place ≠ .quoted) : r.step ',' = some r.endField := by
  unfold step
  cases place : r.place with
  | quoted => exact absurd place h
  | start => rfl
  | bare => rfl
  | closed => rfl

theorem step_newline (h : r.place ≠ .quoted) : r.step '\n' = some r.endRecord := by
  unfold step
  cases place : r.place with
  | quoted => exact absurd place h
  | start => rfl
  | bare => rfl
  | closed => rfl

/-- A character that is not special stands bare. -/
theorem step_plain (h : r.place = .start ∨ r.place = .bare) (plain : c ≠ ',' ∧ c ≠ '"' ∧ c ≠ '\n') :
    r.step c = some (r.add c .bare) := by
  obtain ⟨comma, quote, newline⟩ := plain
  rcases h with place | place <;> simp [step, place, separate?, comma, quote, newline]

/-- Characters that are not special are read as they stand. -/
theorem run_plain (place : r.place = .bare) (plain : ∀ c ∈ t, c ≠ ',' ∧ c ≠ '"' ∧ c ≠ '\n') :
    r.run t = some { r with field := r.field ++ t, place := .bare } := by
  induction t generalizing r with
  | nil =>
    rw [List.append_nil, ← place]
    rfl
  | cons c t ih =>
    rw [List.forall_mem_cons] at plain
    rw [run_cons, step_plain (.inr place) plain.1, Option.bind_some, ih rfl plain.2]
    simp [add]

/-- Between quotes, two quotes are read as one and all else as it stands. -/
theorem run_doubleQuotes (place : r.place = .quoted) :
    r.run (doubleQuotes t) = some { r with field := r.field ++ t } := by
  induction t generalizing r with
  | nil =>
    rw [List.append_nil]
    rfl
  | cons c t ih =>
    have read : r.run (if c = '"' then ['"', '"'] else [c]) = some (r.add c .quoted) := by
      split_ifs with quote
      · simp [run, step, place, quote, add]
      · simp [run, step, place, quote]
    rw [doubleQuotes, List.flatMap_cons, run_append, read, Option.bind_some]
    exact (ih rfl).trans (by simp [add, place])

/-- **A written field is read back**, and what ends it is still to come. -/
theorem run_field (start : r.place = .start) (fresh : r.field = []) (t : Text) :
    ∃ place, place ≠ .quoted ∧ r.run (Csv.field t) = some { r with field := t, place } := by
  unfold Csv.field
  split_ifs with quotes
  · refine ⟨.closed, nofun, ?_⟩
    have opened : r.step '"' = some { r with place := .quoted } := by
      simp [step, start]
    rw [List.cons_append, run_cons, opened, Option.bind_some, run_append, run_doubleQuotes rfl]
    simp [run, step, fresh]
  · have plain := not_special_of_needsQuotes (Bool.eq_false_iff.mpr quotes)
    cases t with
    | nil =>
      refine ⟨.start, nofun, ?_⟩
      have same : { r with field := [], place := .start } = r := by
        rw [← fresh, ← start]
      rw [same]
      rfl
    | cons c t =>
      rw [List.forall_mem_cons] at plain
      refine ⟨.bare, nofun, ?_⟩
      rw [run_cons, step_plain (.inl start) plain.1, Option.bind_some, run_plain rfl plain.2]
      simp [add, fresh]

/-- **A written record is read back**, behind the records and the fields before it. -/
theorem run_record (records : List (List Text)) (fields : List Text) {more : List Text}
    (ne : more ≠ []) :
    run { records, fields } (record more) = some { records := records ++ [fields ++ more] } := by
  induction more generalizing fields with
  | nil => exact absurd rfl ne
  | cons t more ih =>
    obtain ⟨place, ended, read⟩ := run_field (r := { records, fields }) rfl rfl t
    cases more with
    | nil =>
      rw [record, List.map_singleton, Text.joined, run_append, read, Option.bind_some, run_cons,
        step_newline ended]
      rfl
    | cons u more =>
      have split : record (t :: u :: more) = Csv.field t ++ ',' :: record (u :: more) := by
        simp [record, Text.joined_cons_cons]
      rw [split, run_append, read, Option.bind_some, run_cons, step_comma ended, Option.bind_some]
      simpa [endField] using ih (fields ++ [t]) (List.cons_ne_nil u more)

/-- Written records are read back one after the other. -/
theorem run_records (records : List (List Text)) {rows : List (List Text)}
    (ne : ∀ row ∈ rows, row ≠ []) :
    run { records } (rows.flatMap record) = some { records := records ++ rows } := by
  induction rows generalizing records with
  | nil =>
    rw [List.append_nil]
    rfl
  | cons row rows ih =>
    rw [List.forall_mem_cons] at ne
    rw [List.flatMap_cons, run_append, run_record records [] ne.1, Option.bind_some,
      List.nil_append, ih _ ne.2, List.append_assoc, List.singleton_append]

end Reader

/-- **A written document is read back**, whatever its fields hold. -/
theorem read_records {rows : List (List Text)} (ne : ∀ row ∈ rows, row ≠ []) :
    read (rows.flatMap record) = some rows := by
  have run := Reader.run_records [] ne
  rw [List.nil_append] at run
  simp [read, run]

/-- A quote in a bare field, or behind a quoted one, is no field that is ever written. -/
example : read "a\"b\n".toList = none ∧ read "\"a\"b\n".toList = none := by
  decide

end StyleTokens.Csv
