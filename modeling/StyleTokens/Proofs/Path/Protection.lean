import StyleTokens.Proofs.Path

/-!
# Protected directories

What lies in a directory has the segments of the directory in front of its own. A protected
directory is compared as a text, with no change but for the slashes at its ends and its backslashes,
while a path is shown with one slash between neighbouring segments and nothing else. So a directory
protects what lies in it if it is spelled in the same way, and nothing at all if it is not: empty
segments, single dots and backslashes at its ends make it another text. One text protects the root
itself and no file below it, the single dot.

## Main definitions

* `Path.directorySegments`: the segments that the text of a directory spells
* `Path.Encloses`: what lies in a directory
* `Path.IsPlain`: a directory that is spelled as paths are shown

## Main results

* `Path.segmentsOf_protectedText`: the text that is compared spells the segments of the directory
* `Path.isInside_joined_iff`: the comparison of texts, as one of segments
* `Path.isProtected_iff`: the paths that are protected
* `Path.not_isProtected_of_enclosed`: directories that do not protect what lies in them
-/

namespace StyleTokens

namespace Text

theorem slashed_append (t u : Text) : slashed (t ++ u) = slashed t ++ slashed u :=
  List.map_append

theorem slashed_slashes {t : Text} (h : ∀ c ∈ t, c = '/') : ∀ c ∈ slashed t, c = '/' := by
  intro c mem
  obtain ⟨d, d_mem, rfl⟩ := List.mem_map.mp mem
  rw [h d d_mem]
  rfl

end Text

namespace Path

variable {directory t u segment : Text} {segments rest : List Text}

/-- The segments that the text of a directory spells, with backslashes for slashes. -/
def directorySegments (directory : Text) : List Text :=
  segmentsOf (Text.slashed directory)

/-- What has these segments behind those of the root lies in the directory. -/
def Encloses (directory : Text) (segments : List Text) : Prop :=
  directorySegments directory ≠ [] ∧ directorySegments directory <+: segments

/-- The directory is spelled as paths are shown, slashes at its ends and backslashes between its
segments apart. -/
def IsPlain (directory : Text) : Prop :=
  protectedText directory = Text.joined ['/'] (directorySegments directory)

instance (directory : Text) (segments : List Text) : Decidable (Encloses directory segments) :=
  inferInstanceAs (Decidable (_ ∧ _))

instance : DecidablePred IsPlain := fun directory =>
  inferInstanceAs (Decidable (protectedText directory = _))

/-! ## The segments of a text -/

/-- The parts between slashes that are segments of a path. -/
theorem mem_segmentsOf :
    segment ∈ segmentsOf t ↔ segment ∈ t.splitOn '/' ∧ segment ≠ [] ∧ segment ≠ ['.'] := by
  simp [segmentsOf]

theorem slash_notMem_of_mem_segmentsOf (h : segment ∈ segmentsOf t) : '/' ∉ segment :=
  (Text.of_mem_splitOn (mem_segmentsOf.mp h).1).1

/-- A text is cut into its segments alone if there is nothing to leave out. -/
theorem segmentsOf_eq_splitOn (h : ∀ segment ∈ t.splitOn '/', segment ≠ [] ∧ segment ≠ ['.']) :
    segmentsOf t = t.splitOn '/' := by
  refine List.filter_eq_self.mpr fun segment mem => ?_
  simpa using h segment mem

theorem splitOn_append_slash (t u : Text) :
    (t ++ '/' :: u).splitOn '/' = t.splitOn '/' ++ u.splitOn '/' := by
  simp only [List.splitOn_eq_splitOnP]
  exact List.splitOnP_append_cons t u rfl

theorem segmentsOf_append_slash (t u : Text) :
    segmentsOf (t ++ '/' :: u) = segmentsOf t ++ segmentsOf u := by
  rw [segmentsOf, splitOn_append_slash, List.filter_append]
  rfl

/-- Slashes in front do not count. -/
theorem segmentsOf_slashes_append (h : ∀ c ∈ u, c = '/') (t : Text) :
    segmentsOf (u ++ t) = segmentsOf t := by
  induction u with
  | nil => rfl
  | cons c u ih =>
    rw [List.forall_mem_cons] at h
    rw [h.1, List.cons_append]
    exact (segmentsOf_append_slash [] (u ++ t)).trans (ih h.2)

/-- Slashes at the end do not count. -/
theorem segmentsOf_append_slashes (h : ∀ c ∈ u, c = '/') (t : Text) :
    segmentsOf (t ++ u) = segmentsOf t := by
  cases u with
  | nil => rw [List.append_nil]
  | cons c u =>
    rw [List.forall_mem_cons] at h
    have rest := segmentsOf_slashes_append h.2 []
    rw [List.append_nil] at rest
    rw [h.1, segmentsOf_append_slash, rest]
    exact List.append_nil _

/-- **The text that is compared** spells the segments of the directory. -/
theorem segmentsOf_protectedText (directory : Text) :
    segmentsOf (protectedText directory) = directorySegments directory := by
  obtain ⟨front, back, front_slashes, back_slashes, split⟩ :=
    Text.exists_append_trimWhile_append (· = '/') directory
  simp only [decide_eq_true_eq] at front_slashes back_slashes
  rw [directorySegments, congrArg Text.slashed split, Text.slashed_append, Text.slashed_append,
    segmentsOf_slashes_append (Text.slashed_slashes front_slashes),
    segmentsOf_append_slashes (Text.slashed_slashes back_slashes)]
  rfl

/-! ## Texts and segments -/

/-- **One text is the beginning of another**, up to a slash, if the segments are. -/
theorem isInside_joined_iff (ne : segments ≠ []) (h : ∀ segment ∈ segments, '/' ∉ segment) :
    isInside t (Text.joined ['/'] segments) ↔ t ≠ [] ∧ t.splitOn '/' <+: segments := by
  have back : Text.joined ['/'] (t.splitOn '/') = t := by
    rw [Text.joined_eq_intercalate]
    exact List.intercalate_splitOn '/'
  have cut : (Text.joined ['/'] segments).splitOn '/' = segments := Text.splitOn_joined h ne
  simp only [isInside, Bool.and_eq_true, Bool.not_eq_true', Bool.or_eq_true, decide_eq_true_eq,
    List.isPrefixOf_iff_prefix, List.isEmpty_eq_false_iff]
  refine and_congr_right fun _ => ⟨?_, ?_⟩
  · rintro (same | ⟨rest, split⟩)
    · have whole : t.splitOn '/' = segments := same ▸ cut
      exact whole ▸ List.prefix_rfl
    · refine ⟨rest.splitOn '/', ?_⟩
      rw [← splitOn_append_slash, ← cut, ← split]
      simp
  · rintro ⟨more, rfl⟩
    rcases eq_or_ne more [] with rfl | some_more
    · left
      rw [List.append_nil, back]
    · right
      refine ⟨Text.joined ['/'] more, ?_⟩
      rw [Text.joined_append (List.splitOn_ne_nil _ _) some_more, back]

/-- A path behind the root lies in a directory, as texts, if it does so and the directory is
spelled as the path is shown. -/
theorem isInside_protectedText_joined (ne : segments ≠ [])
    (h : ∀ segment ∈ segments, '/' ∉ segment ∧ segment ≠ [] ∧ segment ≠ ['.']) :
    isInside (protectedText directory) (Text.joined ['/'] segments) ↔
      IsPlain directory ∧ Encloses directory segments := by
  rw [isInside_joined_iff ne fun segment mem => (h segment mem).1]
  have spelled := segmentsOf_protectedText directory
  constructor
  · rintro ⟨-, front⟩
    -- the parts are segments of the path, so none of them is left out
    have whole : segmentsOf (protectedText directory) = (protectedText directory).splitOn '/' :=
      segmentsOf_eq_splitOn fun segment mem => (h segment (front.subset mem)).2
    rw [spelled] at whole
    refine ⟨?_, ?_, ?_⟩
    · rw [IsPlain, whole, Text.joined_eq_intercalate]
      exact (List.intercalate_splitOn '/').symm
    · rw [whole]
      exact List.splitOn_ne_nil _ _
    · rw [whole]
      exact front
  · rintro ⟨plain, some_segment, front⟩
    have cut : (protectedText directory).splitOn '/' = directorySegments directory := by
      rw [show protectedText directory = _ from plain]
      exact Text.splitOn_joined (fun segment mem => (h segment (front.subset mem)).1) some_segment
    refine ⟨fun empty => some_segment ?_, cut ▸ front⟩
    rw [← spelled, empty]
    rfl

/-- Only a single dot is compared with success to the root itself. -/
theorem isInside_dot_iff : isInside t ['.'] ↔ t = ['.'] := by
  constructor
  · intro inside
    simp only [isInside, Bool.and_eq_true, Bool.not_eq_true', Bool.or_eq_true, decide_eq_true_eq,
      List.isPrefixOf_iff_prefix, List.isEmpty_eq_false_iff] at inside
    obtain ⟨ne, same | longer⟩ := inside
    · exact same.symm
    · -- one character has no room for a directory and a slash
      have room := longer.length_le
      rw [List.length_append, List.length_singleton, List.length_singleton] at room
      have := List.length_pos_iff.mpr ne
      omega
  · rintro rfl
    rfl

/-! ## Paths under a root -/

theorem under?_eq_some_iff {path base : Path} :
    path.under? base = some rest ↔
      path.root = base.root ∧ path.segments = base.segments ++ rest := by
  unfold under?
  split_ifs with same
  · rw [List.isPrefixOf?_eq_some_iff_append_eq]
    exact ⟨fun split => ⟨same, split.symm⟩, fun split => split.2.symm⟩
  · exact ⟨nofun, fun split => absurd split.1 same⟩

/-- **The paths that are protected** lie in a directory that is spelled as they are shown. The
single dot also stands for the root itself. -/
theorem isProtected_iff (path root : Text) (directories : List Text) :
    (parse path).isProtected (parse root) directories ↔
      ∃ rest, (parse path).under? (parse root) = some rest ∧ ∃ directory ∈ directories,
        IsPlain directory ∧ Encloses directory rest ∨
          rest = [] ∧ protectedText directory = ['.'] := by
  unfold isProtected
  cases under : (parse path).under? (parse root) with
  | none => simp
  | some rest =>
    have own : ∀ segment ∈ rest, segment ∈ segmentsOf path := by
      intro segment mem
      have split : segmentsOf path = segmentsOf root ++ rest := (under?_eq_some_iff.mp under).2
      rw [split]
      exact List.mem_append_right _ mem
    simp only [List.any_eq_true, Option.some.injEq, exists_eq_left']
    refine exists_congr fun directory => and_congr_right fun _ => ?_
    by_cases here : rest = []
    · have outside : ¬Encloses directory [] := fun encloses =>
        encloses.1 (List.prefix_nil.mp encloses.2)
      simp [here, textOf, isInside_dot_iff, outside]
    · have proper : ∀ segment ∈ rest, '/' ∉ segment ∧ segment ≠ [] ∧ segment ≠ ['.'] := by
        intro segment mem
        exact ⟨slash_notMem_of_mem_segmentsOf (own segment mem),
          (mem_segmentsOf.mp (own segment mem)).2⟩
      rw [textOf, if_neg (by simpa using here), isInside_protectedText_joined here proper]
      simp [here]

/-- A file below the directories `core` and `core/ui` is not protected by any of some other
spellings of the two. -/
theorem not_isProtected_of_enclosed :
    let root := parse "src".toList
    let path := parse "src/core/ui/a.scss".toList
    let directories := ["./core".toList, "core/.".toList, "core\\".toList, "core//ui".toList]
    path.isProtected root directories = false ∧
      path.under? root = some ["core".toList, "ui".toList, "a.scss".toList] ∧
      ∀ directory ∈ directories,
        Encloses directory ["core".toList, "ui".toList, "a.scss".toList] := by
  decide

end Path

end StyleTokens
