import StyleTokens.Path
import StyleTokens.Proofs.Text.Lines

/-!
# Paths and their texts

The text of a path tells its segments, as long as none of them holds a slash or is a single dot.
How a path is shown from a base is a matter of its resolved segments: what it has in common with
the base goes, and double dots lead out of the rest of the base. The number of these double dots
tells where the two part, so two different files under one directory are never shown alike.

## Main definitions

* `Path.IsSegment`: a text that can be a segment
* `Path.below`: the path of what lies below a directory

## Main results

* `Path.mem_text`: the characters of the text of a path
* `Path.textOf_injective`: the text of segments tells the segments
* `Path.steps_injective`: the way from a base tells where it leads to
* `Path.relative_below_injective`: different files under a directory are shown differently
-/

namespace StyleTokens.Path

variable {path : Path} {segments rest base target other : List Text} {segment : Text}

/-- A text that can be a segment of a path. -/
def IsSegment (segment : Text) : Prop :=
  '/' ∉ segment ∧ segment ≠ ['.']

instance : DecidablePred IsSegment := fun _ => inferInstanceAs (Decidable (_ ∧ _))

/-- The path of what lies below a directory, behind some segments. -/
def below (root : Path) (rest : List Text) : Path :=
  { root with segments := root.segments ++ rest }

@[simp] theorem isAbsolute_below (root : Path) (rest : List Text) :
    (root.below rest).isAbsolute = root.isAbsolute :=
  rfl

@[simp] theorem segments_below (root : Path) (rest : List Text) :
    (root.below rest).segments = root.segments ++ rest :=
  rfl

theorem isSegment_up : IsSegment up := by
  decide

theorem isSegment_of_mem_parse {t : Text} (h : segment ∈ (parse t).segments) :
    IsSegment segment := by
  obtain ⟨part, kept⟩ := List.mem_filter.mp h
  simp only [Bool.and_eq_true, decide_eq_true_eq] at kept
  exact ⟨(Text.of_mem_splitOn part).1, kept.2⟩

/-! ## Texts -/

/-- The characters of the text of a path, apart from those that the spelling adds. -/
theorem mem_text {c : Char} (slash : c ≠ '/') (dot : c ≠ '.') :
    c ∈ path.text ↔ c ∈ path.root ∨ ∃ segment ∈ path.segments, c ∈ segment := by
  have inside : c ∈ Text.joined ['/'] path.segments ↔ ∃ segment ∈ path.segments, c ∈ segment :=
    Text.mem_joined (by simpa using slash)
  unfold text
  by_cases relative : path.root = []
  · rw [if_pos (by simpa using relative), relative, textOf]
    split_ifs with none
    · simp [List.isEmpty_iff.mp none, dot]
    · simpa using inside
  · rw [if_neg (by simpa using relative), List.mem_append, inside]

/-- A longer last segment makes the text longer at its end. -/
theorem text_append (root : Text) (segments : List Text) (last more : Text) :
    text ⟨root, segments ++ [last ++ more]⟩ = text ⟨root, segments ++ [last]⟩ ++ more := by
  have joined : Text.joined ['/'] (segments ++ [last ++ more]) =
      Text.joined ['/'] (segments ++ [last]) ++ more := by
    rcases eq_or_ne segments [] with rfl | ne
    · rfl
    · rw [Text.joined_concat _ _ ne, Text.joined_concat _ _ ne]
      simp
  simp only [text, textOf, joined]
  split_ifs <;> simp_all

theorem text_concat (root last : Text) (ne : segments ≠ []) :
    text ⟨root, segments ++ [last]⟩ = text ⟨root, segments⟩ ++ '/' :: last := by
  simp only [text, textOf, Text.joined_concat _ _ ne]
  split_ifs <;> simp_all

/-- **The text of segments tells the segments.** -/
theorem textOf_injective (h : ∀ segment ∈ segments, IsSegment segment)
    (h' : ∀ segment ∈ rest, IsSegment segment) (eq : textOf segments = textOf rest) :
    segments = rest := by
  have dot : ∀ segments : List Text, (∀ segment ∈ segments, IsSegment segment) →
      segments ≠ [] → textOf segments ≠ ['.'] := by
    intro segments h ne eq
    rw [textOf, if_neg (by simpa using ne)] at eq
    have split := Text.splitOn_joined (fun t ht => (h t ht).1) ne
    rw [eq, List.splitOn_eq_singleton (by decide)] at split
    exact (h ['.'] (by rw [← split]; simp)).2 rfl
  rcases eq_or_ne segments [] with rfl | ne
  · rcases eq_or_ne rest [] with rfl | ne'
    · rfl
    · exact absurd eq.symm (dot rest h' ne')
  · rcases eq_or_ne rest [] with rfl | ne'
    · exact absurd eq (dot segments h ne)
    · -- both are cut at the slashes again
      rw [textOf, textOf, if_neg (by simpa using ne), if_neg (by simpa using ne')] at eq
      rw [← Text.splitOn_joined (fun t ht => (h t ht).1) ne, eq,
        Text.splitOn_joined (fun t ht => (h' t ht).1) ne']

/-! ## Resolved segments -/

theorem mem_foldl_resolveStep {done : List Text}
    (h : segment ∈ segments.foldl resolveStep done) : segment ∈ done ∨ segment ∈ segments := by
  induction segments generalizing done with
  | nil => exact .inl h
  | cons first segments ih =>
    rcases ih h with before | later
    · unfold resolveStep at before
      split_ifs at before
      · exact .inl (List.dropLast_subset _ before)
      · rcases List.mem_append.mp before with before | now
        · exact .inl before
        · exact .inr (by simp [List.mem_singleton.mp now])
    · exact .inr (List.mem_cons_of_mem _ later)

/-- No double dot is left. -/
theorem up_notMem_foldl_resolveStep {done : List Text} (h : up ∉ done) :
    up ∉ segments.foldl resolveStep done := by
  induction segments generalizing done with
  | nil => exact h
  | cons first segments ih =>
    refine ih ?_
    unfold resolveStep
    split_ifs with leads
    · exact fun mem => h (List.dropLast_subset _ mem)
    · simp only [List.mem_append, List.mem_singleton, not_or]
      exact ⟨h, fun eq => leads eq.symm⟩

/-- Segments that lead inwards stay as they are. -/
theorem resolved_append (h : up ∉ rest) :
    resolved (segments ++ rest) = resolved segments ++ rest := by
  have inwards : ∀ (rest done : List Text), up ∉ rest →
      rest.foldl resolveStep done = done ++ rest := by
    intro rest
    induction rest with
    | nil => simp
    | cons first rest ih =>
      intro done h
      simp only [List.mem_cons, not_or] at h
      rw [List.foldl_cons, ih _ h.2, resolveStep, if_neg (Ne.symm h.1)]
      simp
  rw [resolved, List.foldl_append, inwards rest _ h]
  rfl

/-! ## The way from a base -/

theorem mem_steps (h : segment ∈ steps base target) : segment = up ∨ segment ∈ target := by
  fun_induction steps base target with
  | case1 target => exact .inr h
  | case2 base _ =>
    obtain ⟨_, _, rfl⟩ := List.mem_map.mp h
    exact .inl rfl
  | case3 base target b ih =>
    rcases ih h with here | behind
    · exact .inl here
    · exact .inr (List.mem_cons_of_mem _ behind)
  | case4 b base t target _ =>
    rcases List.mem_append.mp h with out | behind
    · obtain ⟨_, _, rfl⟩ := List.mem_map.mp out
      exact .inl rfl
    · exact .inr behind

/-- No more double dots are needed than the base has segments. -/
theorem count_steps (base : List Text) (h : up ∉ target) :
    (steps base target).count up ≤ base.length := by
  fun_induction steps base target with
  | case1 target => simp [List.count_eq_zero.mpr h]
  | case2 base _ => exact (List.count_le_length).trans (by simp)
  | case3 base target b ih =>
    have := ih fun mem => h (List.mem_cons_of_mem _ mem)
    simp only [List.length_cons]
    omega
  | case4 b base t target _ =>
    rw [List.count_append, List.count_eq_zero.mpr h]
    exact (List.count_le_length).trans (by simp)

/-- To a target that does not start as the base does, the way leads out of the whole base. -/
theorem steps_of_head?_ne {b : Text} (ne : target.head? ≠ some b) :
    steps (b :: base) target = List.replicate (base.length + 1) up ++ target := by
  cases target with
  | nil =>
    rw [List.append_nil, ← List.length_cons (a := b), ← List.map_const']
    rfl
  | cons t target =>
    have apart : b ≠ t := fun eq => ne (by rw [eq, List.head?_cons])
    rw [steps, if_neg apart, List.map_const', List.length_cons]

/-- A way that starts by leading out of the whole base is no way that goes on inside it. -/
theorem steps_ne_replicate_append (h : up ∉ target) :
    steps base target ≠ List.replicate (base.length + 1) up ++ other := by
  intro eq
  have few := count_steps base h
  rw [eq, List.count_append, List.count_replicate_self] at few
  omega

/-- **The way from a base tells where it leads to.** -/
theorem steps_injective (ht : up ∉ target) (ho : up ∉ other)
    (eq : steps base target = steps base other) : target = other := by
  induction base generalizing target other with
  | nil => simpa [steps] using eq
  | cons b base ih =>
    -- a target that starts as the base does is reached inside it; no other one can be, as the way
    -- to it has more double dots than are left then
    by_cases here : target.head? = some b
    · obtain ⟨target, rfl⟩ := List.head?_eq_some_iff.mp here
      have ht' : up ∉ target := fun mem => ht (List.mem_cons_of_mem b mem)
      by_cases there : other.head? = some b
      · obtain ⟨other, rfl⟩ := List.head?_eq_some_iff.mp there
        have ho' : up ∉ other := fun mem => ho (List.mem_cons_of_mem b mem)
        rw [steps, steps, if_pos rfl, if_pos rfl] at eq
        rw [ih ht' ho' eq]
      · rw [steps_of_head?_ne there, steps, if_pos rfl] at eq
        exact absurd eq (steps_ne_replicate_append ht')
    · by_cases there : other.head? = some b
      · obtain ⟨other, rfl⟩ := List.head?_eq_some_iff.mp there
        rw [steps_of_head?_ne here, steps, if_pos rfl] at eq
        exact absurd eq.symm
          (steps_ne_replicate_append fun mem => ho (List.mem_cons_of_mem b mem))
      · rw [steps_of_head?_ne here, steps_of_head?_ne there] at eq
        exact List.append_cancel_left eq

/-! ## Shown paths -/

theorem absolute_below (working : List Text) (root : Path) (rest : List Text) :
    (root.below rest).absolute working = root.absolute working ++ rest := by
  rw [absolute, absolute, isAbsolute_below, segments_below]
  split_ifs
  · rfl
  · rw [List.append_assoc]

/-- The segments of a shown path can be told apart. -/
theorem isSegment_of_mem_steps {working : List Text} {root : Path}
    (plain : ∀ segment ∈ working, IsSegment segment)
    (start : ∀ segment ∈ root.segments, IsSegment segment)
    (h : ∀ segment ∈ rest, IsSegment segment ∧ segment ≠ up)
    (mem : segment ∈ steps base (resolved (root.absolute working) ++ rest)) :
    IsSegment segment := by
  rcases mem_steps mem with rfl | mem
  · exact isSegment_up
  rcases List.mem_append.mp mem with front | behind
  · rcases mem_foldl_resolveStep front with none | front
    · cases none
    · unfold absolute at front
      split_ifs at front
      · exact start _ front
      · rcases List.mem_append.mp front with front | front
        · exact plain _ front
        · exact start _ front
  · exact (h _ behind).1

/-- **Different files under a directory are shown differently.** -/
theorem relative_below_injective {working : List Text} {root shownFrom : Path}
    (plain : ∀ segment ∈ working, IsSegment segment)
    (start : ∀ segment ∈ root.segments, IsSegment segment)
    (h : ∀ segment ∈ rest, IsSegment segment ∧ segment ≠ up)
    (h' : ∀ segment ∈ other, IsSegment segment ∧ segment ≠ up)
    (eq : (root.below rest).relative working shownFrom =
      (root.below other).relative working shownFrom) : rest = other := by
  have inwards : up ∉ rest := fun mem => (h up mem).2 rfl
  have inwards' : up ∉ other := fun mem => (h' up mem).2 rfl
  have resolved_root : up ∉ resolved (root.absolute working) :=
    up_notMem_foldl_resolveStep List.not_mem_nil
  simp only [relative, absolute_below, resolved_append inwards, resolved_append inwards'] at eq
  have ways := textOf_injective (fun segment => isSegment_of_mem_steps plain start h)
    (fun segment => isSegment_of_mem_steps plain start h') eq
  have targets := steps_injective (by simp [resolved_root, inwards])
    (by simp [resolved_root, inwards']) ways
  exact List.append_cancel_left targets

end StyleTokens.Path
