import StyleTokens.Proofs.Report.Fill

/-!
# Reading a filled report back

Whoever fills a report in looks for the names of the last header above a placeholder; whoever
reads the report collects the lines of one group until its decision. Both find the same group: a
filled report is read as the groups that it was rendered from, each with the decision that was
given for it. A given decision may also be that there is none. It is written as a word then, and
no longer as the placeholder, and both are read alike.

## Main definitions

* `Report.ReadsAs`: two lines that the reader does not tell apart

## Main results

* `Report.foldl_readsAs`: the reader behind lines that it does not tell apart
* `Report.read_fill_render`: the groups of a filled report
-/

namespace StyleTokens

instance : DecidablePred Group.Fillable := fun group =>
  decidable_of_iff (group.Reportable ∧
      (∀ name ∈ group.names, Report.SafeName name ∧ ',' ∉ name) ∧
      ∀ file ∈ group.files, ¬Text.mentions "Disposition:".toList file)
    ⟨fun ⟨reportable, plain, unmarked⟩ => ⟨reportable, plain, unmarked⟩,
      fun h => ⟨h.toReportable, h.plain, h.unmarked⟩⟩

instance : DecidablePred Analysis.Fillable := fun analysis =>
  decidable_of_iff (analysis.Reportable ∧ ∀ group ∈ analysis.groups, group.Fillable)
    ⟨fun ⟨reportable, groups⟩ => ⟨reportable, groups⟩, fun h => ⟨h.reportable, h.groups⟩⟩

namespace Report

open ReportReader

variable {l l' : Text} {ls ls' : List Text} {analysis : Analysis}

/-- Two lines that the reader does not tell apart: a line and itself, and the two ways to write a
decision. -/
inductive ReadsAs : Text → Text → Prop
  | refl (l : Text) : ReadsAs l l
  | decision (d : Disposition) :
    ReadsAs ("Disposition: ".toList ++ d.word) ("Disposition: ".toList ++ dispositionWords d)

instance : Std.Refl ReadsAs :=
  ⟨ReadsAs.refl⟩

theorem ReadsAs.breakFree (h : ReadsAs l l') (intact : l'.BreakFree) : l.BreakFree := by
  cases h with
  | refl => exact intact
  | decision d => cases d <;> decide

theorem ReadsAs.eq_nil (h : ReadsAs l []) : l = [] := by
  cases h
  rfl

/-- The word for a decision expresses it. -/
theorem ofWords_word (d : Disposition) : Disposition.ofWords (Text.trim d.word) = d := by
  cases d <;> rfl

/-- A decision ends the group, however it is written. -/
theorem ReadsAs.step (h : ReadsAs l l') (r : ReportReader) :
    r.step (Mark.ofLine l) = r.step (Mark.ofLine l') := by
  cases h with
  | refl => rfl
  | decision d =>
    rw [Mark.ofLine_disposition, Mark.ofLine_disposition]
    cases hk : r.kind with
    | none => simp only [ReportReader.step, hk]
    | some kind =>
      cases hp : r.pending with
      | none => simp only [ReportReader.step, hk, stepSection, hp]
      | some pending =>
        simp only [ReportReader.step, hk, stepSection, hp, stepGroup, conclude, ofWords_word,
          Disposition.ofWords_dispositionWords]

theorem foldl_readsAs (h : List.Forall₂ ReadsAs ls ls') (r : ReportReader) :
    (ls.map Mark.ofLine).foldl ReportReader.step r =
      (ls'.map Mark.ofLine).foldl ReportReader.step r := by
  induction h generalizing r with
  | nil => rfl
  | cons alike _ ih =>
    rw [List.map_cons, List.foldl_cons, alike.step r]
    exact ih _

theorem breakFree_readsAs (h : List.Forall₂ ReadsAs ls ls') (intact : ∀ l ∈ ls', l.BreakFree) :
    ∀ l ∈ ls, l.BreakFree := by
  induction h with
  | nil => simp
  | cons alike _ ih =>
    rw [List.forall_mem_cons] at intact ⊢
    exact ⟨alike.breakFree intact.1, ih intact.2⟩

/-- A text that is written like a report is read like it. -/
theorem read_of_readsAs {t : Text} (h : analysis.Reportable)
    (alike : List.Forall₂ ReadsAs ls (lines analysis)) (written : t ++ ['\n'] = Text.unlines ls) :
    read t = analysis.groups := by
  have intact : ∀ l ∈ ls, l.BreakFree := breakFree_readsAs alike (breakFree_lines h.legible)
  -- the last of the lines is empty, and was not written
  have last : (lines analysis).rdropWhile List.isEmpty ++ [[]] = lines analysis :=
    rdropWhile_lines analysis
  obtain ⟨front, rfl⟩ : ∃ front, ls = front ++ [[]] := by
    rw [← last] at alike
    have back := List.forall₂_drop_append _ _ _ alike
    obtain ⟨l, _, same, nothing, eq⟩ := List.forall₂_cons_right_iff.mp back
    rw [List.forall₂_nil_right_iff] at nothing
    rw [same.eq_nil, nothing] at eq
    exact ⟨_, (List.take_append_drop _ ls).symm.trans (congrArg (_ ++ ·) eq)⟩
  have text : t = Text.unlines front := by
    have ended : Text.unlines (front ++ [[]]) = Text.unlines front ++ ['\n'] := by
      rw [Text.unlines_append, Text.unlines_cons, Text.unlines_nil]
      rfl
    exact List.append_cancel_right (written.trans ended)
  have marks : (front.map Mark.ofLine).foldl ReportReader.step {} =
      ((lines analysis).map Mark.ofLine).foldl ReportReader.step {} := by
    rw [← foldl_readsAs alike, List.map_append, List.foldl_append]
    exact (step_blank _).symm
  rw [read, readAll_eq, text, Text.lines_unlines fun l hl => intact l (by simp [hl]),
    ← groups_foldl_lines h.legible, ← marks]
  simp [Function.comp_def]

/-- **A filled report is read as the decided groups**: as many placeholders are filled as there
are groups without a decision; each of these groups gets the first of the decisions that are given
for its names, or else the one for all, and the groups with a decision stay. -/
theorem read_fill_render (analysis : Analysis) (h : analysis.Fillable) (mode : Disposition)
    (overrides : Entries Text Disposition) :
    (fill mode overrides (render analysis)).2 =
        analysis.groups.countP (fun group => group.disposition = .unset) ∧
      read (fill mode overrides (render analysis)).1 = analysis.groups.map fun group =>
        if group.disposition = .unset then
          { group with
            disposition := ((group.names.filterMap overrides.get?).head?).getD mode }
        else group := by
  have written : WritesLike mode overrides ReadsAs := fun names => .decision _
  obtain ⟨filled, alike, text_eq, count_eq⟩ := exists_filled h written
  refine ⟨count_eq, ?_⟩
  rw [read_of_readsAs (reportable_decided_analysis h.reportable) alike text_eq, groups_decided]
  simp only [List.head?_filterMap]
  rfl

/-- Groups of two kinds and of both match types, one of them decided. -/
def undecided : Analysis where
  kinds :=
    [{ kind := .property
       exact := [{ kind := .property, matchType := .exact, names := ["--gap".toList]
                   files := ["a.scss".toList, "b c.scss".toList]
                   canonical := "b c.scss".toList },
                 { kind := .property, matchType := .exact, names := ["--pad".toList]
                   files := ["a.scss".toList, "b c.scss".toList]
                   canonical := "a.scss".toList, disposition := .ignore }]
       near := [{ kind := .property, matchType := .near
                  names := ["--gap".toList, "--gaps".toList]
                  files := ["a.scss".toList, "b c.scss".toList]
                  canonical := "a.scss".toList }] },
     { kind := .block
       near := [{ kind := .block, matchType := .near, names := ["card".toList, "cards".toList]
                  files := ["a.scss".toList, "d.scss".toList]
                  canonical := "d.scss".toList }] }]

/-- A decision for one of two names, and none for one of two others. -/
def givenDecisions : Entries Text Disposition :=
  [("--gaps".toList, .keepAlias), ("card".toList, .unset)]

theorem read_fill_render_undecided : undecided.Fillable ∧
    (fill .merge givenDecisions (render undecided)).2 = 3 ∧
      (read (fill .merge givenDecisions (render undecided)).1).map (·.disposition) =
        [.merge, .ignore, .keepAlias, .unset] := by
  have fillable : undecided.Fillable := by decide
  obtain ⟨count, groups⟩ := read_fill_render undecided fillable .merge givenDecisions
  refine ⟨fillable, count.trans (by decide), ?_⟩
  rw [groups]
  decide

end Report

end StyleTokens
