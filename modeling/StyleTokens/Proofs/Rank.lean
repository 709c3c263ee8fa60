import StyleTokens.Proofs.Data.Ascending
import StyleTokens.Rank

/-!
# The canonical file is one of the files

It is the first of them, by rank and then by path.

## Main definitions

* `Rank.Precedes`: the order of files by rank and then by path

## Main results

* `Rank.canonical?_eq_some`: of some files, one is canonical
* `Rank.precedes_of_canonical?`: the canonical file precedes the others
-/

namespace StyleTokens.Rank

variable {priority files : List Text}

theorem better_mem (priority : List Text) (first second : Text) :
    better priority first second = first ∨ better priority first second = second := by
  unfold better
  split
  · exact .inr rfl
  · exact .inl rfl

theorem foldl_better_mem (rest : List Text) (file : Text) :
    rest.foldl (better priority) file ∈ file :: rest := by
  induction rest generalizing file with
  | nil => exact List.mem_singleton.mpr rfl
  | cons next rest ih =>
    rw [List.foldl_cons]
    rcases List.mem_cons.mp (ih (better priority file next)) with eq | mem
    · rw [eq]
      rcases better_mem priority file next with first | second
      · rw [first]
        exact List.mem_cons_self
      · rw [second]
        exact List.mem_cons_of_mem _ List.mem_cons_self
    · exact List.mem_cons_of_mem _ (List.mem_cons_of_mem _ mem)

/-- **Of some files, one is canonical.** -/
theorem canonical?_eq_some (priority : List Text) (ne : files ≠ []) :
    ∃ file ∈ files, canonical? priority files = some file := by
  unfold canonical?
  cases eq : Ascending.ofList files with
  | nil =>
    obtain ⟨file, rest, rfl⟩ := List.exists_cons_of_ne_nil ne
    have : file ∈ Ascending.ofList (file :: rest) := Ascending.mem_ofList.mpr List.mem_cons_self
    rw [eq] at this
    cases this
  | cons file rest =>
    refine ⟨rest.foldl (better priority) file, ?_, rfl⟩
    exact Ascending.mem_ofList.mp (eq ▸ foldl_better_mem rest file)

/-! ## The first of the files -/

/-- A file stands before another one, by rank and then by path. -/
def Precedes (priority : List Text) (file other : Text) : Prop :=
  ofPath priority file < ofPath priority other ∨
    ofPath priority file = ofPath priority other ∧ file < other

/-- A file that precedes all others so far goes on to do so behind the next one, which has a later
path. -/
theorem better_first {seen : List Text} {best next : Text}
    (first : ∀ file ∈ seen, file = best ∨ Precedes priority best file)
    (later : best < next) :
    ∀ file ∈ next :: seen, file = better priority best next ∨
      Precedes priority (better priority best next) file := by
  intro file mem
  unfold better
  rcases List.mem_cons.mp mem with rfl | mem
  · split_ifs with lower
    · exact .inl rfl
    · rcases Nat.lt_or_eq_of_le (Nat.le_of_not_lt lower) with lt | eq
      · exact .inr (.inl lt)
      · exact .inr (.inr ⟨eq, later⟩)
  · split_ifs with lower
    · rcases first file mem with rfl | lt | ⟨eq, -⟩
      · exact .inr (.inl lower)
      · exact .inr (.inl (lower.trans lt))
      · exact .inr (.inl (eq ▸ lower))
    · exact first file mem

/-- The last file that was the better one precedes all others. -/
theorem foldl_better_first {rest seen : List Text} {best : Text}
    (first : ∀ file ∈ seen, file = best ∨ Precedes priority best file)
    (later : ∀ next ∈ rest, best < next) (strict : Ascending.Strict rest) :
    ∀ file ∈ rest ++ seen, file = rest.foldl (better priority) best ∨
      Precedes priority (rest.foldl (better priority) best) file := by
  induction rest generalizing seen best with
  | nil => exact first
  | cons next rest ih =>
    obtain ⟨least, strict⟩ := Ascending.strict_cons.mp strict
    rw [List.forall_mem_cons] at later
    intro file mem
    refine ih (better_first first later.1) (fun other listed => ?_) strict file ?_
    · rcases better_mem priority best next with eq | eq
      · rw [eq]
        exact later.2 other listed
      · rw [eq]
        exact least other listed
    · simp only [List.cons_append, List.mem_cons, List.mem_append] at mem ⊢
      tauto

/-- **The canonical file precedes the others.** -/
theorem precedes_of_canonical? {canonical : Text} (h : canonical? priority files = some canonical) :
    ∀ file ∈ files, file = canonical ∨ Precedes priority canonical file := by
  intro file mem
  have strict := Ascending.strict_ofList files
  rw [← Ascending.mem_ofList] at mem
  unfold canonical? at h
  cases sorted : Ascending.ofList files with
  | nil =>
    rw [sorted] at mem
    cases mem
  | cons start rest =>
    rw [sorted] at h mem strict
    obtain ⟨least, strict⟩ := Ascending.strict_cons.mp strict
    cases h
    have first : ∀ other ∈ [start], other = start ∨ Precedes priority start other := by simp
    exact foldl_better_first first least strict file (by simpa [or_comm] using mem)

end StyleTokens.Rank
