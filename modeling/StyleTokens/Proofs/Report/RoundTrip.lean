import StyleTokens.Proofs.Data.Ascending
import StyleTokens.Proofs.Group
import StyleTokens.Proofs.Report.Marks

/-!
# Reading a rendered report back

A report gives back the groups it was rendered from. What a reader adds between the groups does
not matter, unless it is a header.

## Main definitions

* `Group.Reportable`, `Analysis.Reportable`: groups that can be written into a report
* `Group.Legible`, `Analysis.Legible`: groups that their own lines give back
* `Report.Annotated`: lines with remarks put in where no group is open

## Main results

* `ReportReader.foldl_groupLines`: the lines of a group give the group back
* `ReportReader.foldl_annotated`: remarks outside the groups do not change what is read
* `Report.read_render_legible`, `Report.read_render`: the groups of a rendered report
* `Report.read_render_annotated`: remarks between the groups do not matter
-/

namespace StyleTokens

open Report (SafePath LinePath SafeName SafeVariant HeaderName)

/-! ## Groups that can be written into a report -/

/-- A group that can be written into a report and read back. -/
@[mk_iff]
structure Group.Reportable (group : Group) : Prop where
  valid : group.check = .ok group
  sorted : group.files.Pairwise (· ≤ ·)
  paths : ∀ file ∈ group.files, SafePath file
  names : ∀ name ∈ group.names, HeaderName group.matchType name

/-- The groups of a kind stand where they belong, and can be written into a report. -/
@[mk_iff]
structure KindAnalysis.Reportable (analysis : KindAnalysis) : Prop where
  exact : ∀ group ∈ analysis.exact,
    group.kind = analysis.kind ∧ group.matchType = .exact ∧ group.Reportable
  near : ∀ group ∈ analysis.near,
    group.kind = analysis.kind ∧ group.matchType = .near ∧ group.Reportable

/-- All groups of an analysis can be written into a report. -/
def Analysis.Reportable (analysis : Analysis) : Prop :=
  ∀ kind ∈ analysis.kinds, kind.Reportable

instance : DecidablePred Group.Reportable := fun group =>
  decidable_of_iff _ (Group.reportable_iff group).symm

instance : DecidablePred KindAnalysis.Reportable := fun analysis =>
  decidable_of_iff _ (KindAnalysis.reportable_iff analysis).symm

instance : DecidablePred Analysis.Reportable := fun analysis =>
  inferInstanceAs (Decidable (∀ kind ∈ analysis.kinds, kind.Reportable))

/-! ## Groups that their own lines give back -/

/-- A group that its own lines give back. -/
structure Group.Legible (group : Group) : Prop where
  valid : group.check = .ok group
  sorted : group.files.Pairwise (· ≤ ·)
  paths : ∀ file ∈ group.files, LinePath file
  names : ∀ name ∈ group.names, HeaderName group.matchType name

/-- The groups of a kind stand where they belong, and their own lines give them back. -/
structure KindAnalysis.Legible (analysis : KindAnalysis) : Prop where
  exact : ∀ group ∈ analysis.exact,
    group.kind = analysis.kind ∧ group.matchType = .exact ∧ group.Legible
  near : ∀ group ∈ analysis.near,
    group.kind = analysis.kind ∧ group.matchType = .near ∧ group.Legible

/-- The own lines of all groups of an analysis give them back. -/
def Analysis.Legible (analysis : Analysis) : Prop :=
  ∀ kind ∈ analysis.kinds, kind.Legible

namespace Group

variable {group : Group}

theorem Reportable.isValid (h : group.Reportable) : group.Valid :=
  check_eq_ok_iff.mp h.valid

theorem Reportable.canonical (h : group.Reportable) : SafePath group.canonical :=
  h.paths _ h.isValid.canonical

theorem Reportable.legible (h : group.Reportable) : group.Legible :=
  ⟨h.valid, h.sorted, fun file hf => (h.paths file hf).linePath, h.names⟩

namespace Legible

theorem isValid (h : group.Legible) : group.Valid :=
  check_eq_ok_iff.mp h.valid

theorem canonical (h : group.Legible) : LinePath group.canonical :=
  h.paths _ h.isValid.canonical

theorem strict (h : group.Legible) : Ascending.Strict group.files :=
  (h.sorted.and h.isValid.nodup).imp fun ⟨le, ne⟩ => lt_of_le_of_ne le ne

theorem ofList_files (h : group.Legible) : Ascending.ofList group.files = group.files :=
  Ascending.ofList_eq_self h.strict

end Legible

end Group

theorem Analysis.Reportable.legible {analysis : Analysis} (h : analysis.Reportable) :
    analysis.Legible := by
  refine fun kind hk => ⟨fun group hg => ?_, fun group hg => ?_⟩
  · obtain ⟨kind_eq, match_eq, reportable⟩ := (h kind hk).exact group hg
    exact ⟨kind_eq, match_eq, reportable.legible⟩
  · obtain ⟨kind_eq, match_eq, reportable⟩ := (h kind hk).near group hg
    exact ⟨kind_eq, match_eq, reportable.legible⟩

/-! ## The reader along the lines of a group -/

namespace ReportReader

variable {r : ReportReader} {kind : TokenKind} {group : Group}

theorem step_blank (r : ReportReader) : r.step .blank = r := by
  unfold step
  cases hk : r.kind with
  | none => rfl
  | some kind =>
    cases hp : r.pending <;> simp [stepSection, hp, stepGroup]

/-- The files of a group are collected one after another. -/
theorem foldl_bullets (hk : r.kind = some kind) (pending : PendingGroup)
    (hc : pending.collecting = true) (files : List Text) :
    (files.map Mark.bullet).foldl step { r with pending := some pending } =
      { r with pending := some { pending with files := pending.files ++ files } } := by
  induction files generalizing pending with
  | nil => simp
  | cons file files ih =>
    have once : step { r with pending := some pending } (.bullet file) =
        { r with pending := some { pending with files := pending.files ++ [file] } } := by
      simp [step, hk, stepSection, stepGroup, hc]
    rw [List.map_cons, List.foldl_cons, once,
      ih { pending with files := pending.files ++ [file] } hc]
    simp

/-- **The lines of a group give the group back**, behind a header with its names. -/
theorem foldl_groupLines (h : group.Legible) (hk : r.kind = some group.kind) :
    ((Report.groupLines group).map Mark.ofLine).foldl step
        { r with pending := some ⟨group.kind, group.matchType, group.names, [], none, false⟩ } =
      { r with pending := none, groups := r.groups ++ [group] } := by
  have bullets : (group.files.map ("- ".toList ++ ·)).map Mark.ofLine =
      group.files.map Mark.bullet := by
    rw [List.map_map]
    exact List.map_congr_left fun file hf => Mark.ofLine_bullet (h.paths file hf)
  rw [Report.groupLines, List.map_append, List.map_cons, Mark.ofLine_definedIn, bullets]
  simp only [List.map_cons, List.map_nil, Mark.ofLine_preferred h.canonical,
    Mark.ofLine_disposition, Mark.ofLine_nil, List.foldl_append, List.foldl_cons, List.foldl_nil]
  -- the list of files opens, is read, and the two last lines close the group
  have opened : step { r with
        pending := some ⟨group.kind, group.matchType, group.names, [], none, false⟩ } .definedIn =
      { r with pending := some ⟨group.kind, group.matchType, group.names, [], none, true⟩ } := by
    simp [step, hk, stepSection, stepGroup]
  rw [opened, foldl_bullets hk _ rfl]
  have finished : PendingGroup.finish
      ⟨group.kind, group.matchType, group.names, group.files, some group.canonical, false⟩
      group.disposition = .ok group := by
    simp only [PendingGroup.finish, h.ofList_files]
    rw [h.valid]
    rfl
  simp only [step, hk, stepSection, stepGroup, conclude, List.nil_append,
    Disposition.ofWords_dispositionWords, finished]

/-- Outside the groups, only headers change the reader. -/
theorem step_of_not_isHeader {mark : Mark} (hp : r.pending = none) (hm : mark.isHeader = false) :
    r.step mark = r := by
  cases mark <;> cases hk : r.kind <;> simp_all [step, stepSection, Mark.isHeader]

theorem foldl_of_not_isHeader {marks : List Mark} (hp : r.pending = none)
    (hm : ∀ mark ∈ marks, mark.isHeader = false) : marks.foldl step r = r := by
  induction marks with
  | nil => rfl
  | cons mark marks ih =>
    rw [List.foldl_cons, step_of_not_isHeader hp (hm mark (by simp)),
      ih fun m h => hm m (by simp [h])]

/-- A group of one name is read from its lines. -/
theorem foldl_exactLines (hk : r.kind = some group.kind) (hp : r.pending = none)
    (hm : group.matchType = .exact) (h : group.Legible) :
    ((Report.exactLines group).map Mark.ofLine).foldl step r =
      { r with groups := r.groups ++ [group] } := by
  obtain ⟨name, names_eq⟩ := List.length_eq_one_iff.mp (h.isValid.exact hm)
  have safe : SafeName name := by
    simpa [hm, HeaderName] using h.names name (by simp [names_eq])
  have header : r.step (.token name) =
      { r with pending := some ⟨group.kind, group.matchType, group.names, [], none, false⟩ } := by
    simp [step, hk, stepSection, hm, names_eq]
  have representative : group.representative = name := by
    simp [Group.representative, names_eq]
  rw [Report.exactLines, List.map_cons, List.foldl_cons, representative, Mark.ofLine_token safe,
    header, foldl_groupLines h hk, ← hp]

/-- A group of similar names is read from its lines. -/
theorem foldl_nearLines (hk : r.kind = some group.kind) (hp : r.pending = none)
    (hm : group.matchType = .near) (h : group.Legible) :
    ((Report.nearLines group).map Mark.ofLine).foldl step r =
      { r with groups := r.groups ++ [group] } := by
  have safe : ∀ name ∈ group.names, SafeVariant name := by
    intro name hn
    simpa [hm, HeaderName] using h.names name hn
  have header : r.step (.variants group.names) =
      { r with pending := some ⟨group.kind, group.matchType, group.names, [], none, false⟩ } := by
    simp [step, hk, stepSection, hm]
  rw [Report.nearLines, List.map_cons, List.foldl_cons, Mark.ofLine_variants h.isValid.names safe,
    header, foldl_groupLines h hk, ← hp]

/-- The groups of a list are read from their lines if each of them is, and the line that there
are none is passed over. -/
theorem foldl_groupsOr {lines : Group → List Text} {none : Text} {groups : List Group}
    (each : ∀ group ∈ groups, ∀ r : ReportReader, r.kind = some kind → r.pending = .none →
      ((lines group).map Mark.ofLine).foldl step r = { r with groups := r.groups ++ [group] })
    (remark : Mark.ofLine none = .prose) (hk : r.kind = some kind) (hp : r.pending = .none) :
    ((Report.groupsOr none lines groups).map Mark.ofLine).foldl step r =
      { r with groups := r.groups ++ groups } := by
  -- Induction on the groups: each is closed by its own lines.
  have run : ∀ (groups : List Group) (r : ReportReader), r.kind = some kind → r.pending = .none →
      (∀ group ∈ groups, ∀ r : ReportReader, r.kind = some kind → r.pending = .none →
        ((lines group).map Mark.ofLine).foldl step r = { r with groups := r.groups ++ [group] }) →
      ((groups.flatMap lines).map Mark.ofLine).foldl step r =
        { r with groups := r.groups ++ groups } := by
    intro groups
    induction groups with
    | nil => simp
    | cons group groups ih =>
      intro r hk hp each
      rw [List.flatMap_cons, List.map_append, List.foldl_append, each group (by simp) r hk hp,
        ih { r with groups := r.groups ++ [group] } hk hp fun g hg => each g (by simp [hg])]
      simp
  rw [Report.groupsOr]
  split_ifs with empty
  · rw [List.isEmpty_iff.mp empty, foldl_of_not_isHeader hp (by simp [remark, Mark.ofLine_nil,
      Mark.isHeader]), List.append_nil]
  · exact run groups r hk hp each

/-- **The section of a kind** gives its groups back. -/
theorem foldl_kindLines {analysis : KindAnalysis} (h : analysis.Legible) :
    ((Report.kindLines analysis).map Mark.ofLine).foldl step r =
      { r with kind := some analysis.kind, pending := none,
               groups := r.groups ++ (analysis.exact ++ analysis.near) } := by
  -- The header opens the section, and the heading of the similar names is passed over.
  have key : TokenKind.ofKey? analysis.kind.key = some analysis.kind := by
    cases analysis.kind <;> rfl
  have near : Mark.ofLine ("### Near-Duplicate ".toList ++ analysis.kind.key) = .prose := by
    cases analysis.kind <;> rfl
  have opened : r.step (.kind analysis.kind.key) =
      { r with kind := some analysis.kind, pending := none } := by
    simp [step, key]
  have exact : ((Report.groupsOr Report.noExact Report.exactLines analysis.exact).map
        Mark.ofLine).foldl step { r with kind := some analysis.kind, pending := none } =
      { r with kind := some analysis.kind, pending := none,
               groups := r.groups ++ analysis.exact } := by
    refine foldl_groupsOr (fun group hg r hk hp => ?_) rfl rfl rfl
    obtain ⟨kind_eq, match_eq, legible⟩ := h.exact group hg
    exact foldl_exactLines (hk.trans (congrArg some kind_eq.symm)) hp match_eq legible
  have similar : ((Report.groupsOr Report.noNear Report.nearLines analysis.near).map
        Mark.ofLine).foldl step { r with kind := some analysis.kind, pending := none,
                                         groups := r.groups ++ analysis.exact } =
      { r with kind := some analysis.kind, pending := none,
               groups := r.groups ++ analysis.exact ++ analysis.near } := by
    refine foldl_groupsOr (fun group hg r hk hp => ?_) rfl rfl rfl
    obtain ⟨kind_eq, match_eq, legible⟩ := h.near group hg
    exact foldl_nearLines (hk.trans (congrArg some kind_eq.symm)) hp match_eq legible
  rw [Report.kindLines]
  simp only [List.map_append, List.map_cons, List.map_nil, List.foldl_append, List.foldl_cons,
    List.foldl_nil, Mark.ofLine_kind, Mark.ofLine_nil, near, step_blank]
  rw [opened, exact, step_of_not_isHeader rfl rfl, similar, List.append_assoc]

end ReportReader

namespace Report

open ReportReader

variable {analysis : Analysis}

/-! ## The lines of a rendered report -/

/-- The lines of the report give the groups back. -/
theorem groups_foldl_lines (h : analysis.Legible) :
    (((lines analysis).map Mark.ofLine).foldl step {}).groups = analysis.groups := by
  -- A section is read from any state, since its header closes what was open.
  have sections : ∀ (kinds : List KindAnalysis) (r : ReportReader),
      (∀ kind ∈ kinds, kind.Legible) →
      (((kinds.flatMap kindLines).map Mark.ofLine).foldl step r).groups =
        r.groups ++ kinds.flatMap fun k => k.exact ++ k.near := by
    intro kinds
    induction kinds with
    | nil => simp
    | cons kind kinds ih =>
      intro r h
      rw [List.flatMap_cons, List.map_append, List.foldl_append,
        foldl_kindLines (h kind (by simp)), ih _ fun k hk => h k (by simp [hk])]
      simp
  rw [lines, List.map_append, List.foldl_append, Analysis.groups]
  exact sections analysis.kinds _ h

theorem breakFree_groupLines {group : Group} (h : group.Legible) :
    ∀ line ∈ groupLines group, line.BreakFree := by
  intro line hl
  simp only [groupLines, List.mem_append, List.mem_cons, List.mem_map, List.not_mem_nil,
    or_false] at hl
  rcases hl with (rfl | ⟨file, hf, rfl⟩) | rfl | rfl | rfl
  · decide
  · exact Text.BreakFree.append (by decide) (h.paths file hf).breakFree
  · exact Text.BreakFree.append (by decide) h.canonical.breakFree
  · exact Text.BreakFree.append (by decide) (by cases group.disposition <;> decide)
  · decide

theorem breakFree_joined {sep : Text} {ts : List Text} (hs : sep.BreakFree)
    (ht : ∀ t ∈ ts, t.BreakFree) : (Text.joined sep ts).BreakFree := by
  induction ts with
  | nil => simp [Text.joined, Text.BreakFree]
  | cons t ts ih =>
    cases ts with
    | nil => exact ht t (by simp)
    | cons u ts =>
      exact ((ht t (by simp)).append hs).append (ih fun x hx => ht x (by simp [hx]))

theorem breakFree_exactLines {group : Group} (hm : group.matchType = .exact)
    (h : group.Legible) : ∀ line ∈ exactLines group, line.BreakFree := by
  obtain ⟨name, names_eq⟩ := List.length_eq_one_iff.mp (h.isValid.exact hm)
  have safe : SafeName name := by
    simpa [hm, HeaderName] using h.names name (by simp [names_eq])
  refine List.forall_mem_cons.mpr ⟨?_, breakFree_groupLines h⟩
  rw [Group.representative, names_eq]
  exact Text.BreakFree.append (by decide) (Text.breakFree_of_forall safe.noBlank)

theorem breakFree_nearLines {group : Group} (hm : group.matchType = .near)
    (h : group.Legible) : ∀ line ∈ nearLines group, line.BreakFree := by
  refine List.forall_mem_cons.mpr ⟨?_, breakFree_groupLines h⟩
  refine Text.BreakFree.append (by decide) (breakFree_joined (by decide) fun name hn => ?_)
  have safe : SafeVariant name := by
    simpa [hm, HeaderName] using h.names name hn
  exact safe.breakFree

theorem breakFree_groupsOr {none : Text} {lines : Group → List Text} {groups : List Group}
    (hn : none.BreakFree) (h : ∀ group ∈ groups, ∀ line ∈ lines group, line.BreakFree) :
    ∀ line ∈ groupsOr none lines groups, line.BreakFree := by
  intro line hl
  rw [groupsOr] at hl
  split_ifs at hl with empty
  · rcases List.mem_pair.mp hl with rfl | rfl
    · exact hn
    · exact fun c hc => absurd hc List.not_mem_nil
  · obtain ⟨group, hg, hl⟩ := List.mem_flatMap.mp hl
    exact h group hg line hl

theorem breakFree_kindLines {analysis : KindAnalysis} (h : analysis.Legible) :
    ∀ line ∈ kindLines analysis, line.BreakFree := by
  have header : ∀ kind : TokenKind,
      ∀ line ∈ ["## ".toList ++ kind.key ++ " Duplicates".toList, []], Text.BreakFree line := by
    intro kind
    cases kind <;> decide
  have near : ∀ kind : TokenKind,
      ∀ line ∈ ["### Near-Duplicate ".toList ++ kind.key, []], Text.BreakFree line := by
    intro kind
    cases kind <;> decide
  intro line hl
  simp only [kindLines, List.mem_append] at hl
  rcases hl with ((hl | hl) | hl) | hl
  · exact header _ line hl
  · exact breakFree_groupsOr (by decide)
      (fun g hg => breakFree_exactLines (h.exact g hg).2.1 (h.exact g hg).2.2) line hl
  · exact near _ line hl
  · exact breakFree_groupsOr (by decide)
      (fun g hg => breakFree_nearLines (h.near g hg).2.1 (h.near g hg).2.2) line hl

theorem breakFree_lines (h : analysis.Legible) :
    ∀ line ∈ lines analysis, line.BreakFree := by
  intro line hl
  rw [lines, List.mem_append, List.mem_flatMap] at hl
  rcases hl with hl | ⟨kind, hk, hl⟩
  · revert line
    decide
  · exact breakFree_kindLines (h kind hk) line hl

/-- A rendered report is its lines without the empty ones at its end. -/
theorem render_eq_unlines (h : analysis.Legible) :
    render analysis = Text.unlines ((lines analysis).rdropWhile List.isEmpty) := by
  rw [render, Text.dropEndWhile_joined (breakFree_lines h), Text.joined_newline_append]
  intro nil
  -- the title is not empty
  have := List.rdropWhile_eq_nil_iff.mp nil title (by simp [lines])
  exact absurd this (by decide)

theorem lines_render (h : analysis.Legible) :
    (render analysis).lines =
      ((lines analysis).rdropWhile List.isEmpty).map fun l => ⟨l, ['\n']⟩ := by
  rw [render_eq_unlines h, Text.lines_unlines]
  intro line hl
  have kept : (lines analysis).rdropWhile List.isEmpty <+: lines analysis :=
    List.rdropWhile_prefix _ _
  exact breakFree_lines h line (kept.subset hl)

/-- Empty lines at the end do not matter. -/
theorem foldl_rdropWhile (r : ReportReader) (ls : List Text) :
    ((ls.rdropWhile List.isEmpty).map Mark.ofLine).foldl step r =
      (ls.map Mark.ofLine).foldl step r := by
  induction ls using List.reverseRecOn with
  | nil => rfl
  | append_singleton ls l ih =>
    rw [List.rdropWhile_concat]
    split_ifs with empty
    · rw [ih, List.isEmpty_iff.mp empty]
      simp [Mark.ofLine_nil, step_blank]
    · rfl

theorem readAll_eq (t : Text) :
    readAll t = ((t.lines.map Line.body).map Mark.ofLine).foldl step {} := by
  rw [readAll, List.map_map]
  rfl

/-- A rendered report gives its groups back, if the lines of each of them do. -/
theorem read_render_legible (h : analysis.Legible) :
    read (render analysis) = analysis.groups := by
  rw [read, readAll_eq, lines_render h, List.map_map, ← groups_foldl_lines h, ← foldl_rdropWhile]
  simp [Function.comp_def]

theorem read_render (h : analysis.Reportable) : read (render analysis) = analysis.groups :=
  read_render_legible h.legible

/-! ## Remarks between the groups -/

/-- Whether no group is open behind a line with the given mark, where `free` tells it in front
of the line. -/
def freeAfter (free : Bool) : Mark → Bool
  | .kind _ | .disposition _ => true
  | .token _ | .variants _ => false
  | _ => free

/-- Lines with remarks put in where no group is open: in front of the first group, and behind
the decision of a group up to the header of the next. A remark is no header. -/
inductive Annotated : Bool → List Text → List Text → Prop
  | nil {free : Bool} : Annotated free [] []
  | line {free : Bool} {lines annotated : List Text} (l : Text) :
    Annotated (freeAfter free (Mark.ofLine l)) lines annotated →
      Annotated free (l :: lines) (l :: annotated)
  /-- A remark. -/
  | remark {lines annotated : List Text} (l : Text) : l.BreakFree → Mark.IsNoHeader l →
    Annotated true lines annotated → Annotated true lines (l :: annotated)

theorem Annotated.breakFree {free : Bool} {ls annotated : List Text}
    (h : Annotated free ls annotated) (hl : ∀ l ∈ ls, l.BreakFree) :
    ∀ l ∈ annotated, l.BreakFree := by
  induction h with
  | nil => simp
  | line l _ ih =>
    rw [List.forall_mem_cons] at hl ⊢
    exact ⟨hl.1, ih hl.2⟩
  | remark l intact _ _ ih => exact List.forall_mem_cons.mpr ⟨intact, ih hl⟩

/-- What is known about the reader where no group is open, or no section. -/
structure Settled (free : Bool) (r : ReportReader) : Prop where
  free : free = true → r.pending = none
  outside : r.kind = none → r.pending = none

theorem kind_conclude (r : ReportReader) (pending : PendingGroup) (words : Text) :
    (r.conclude pending words).kind = r.kind := by
  unfold conclude
  split <;> rfl

theorem pending_conclude (r : ReportReader) (pending : PendingGroup) (words : Text) :
    (r.conclude pending words).pending = none := by
  unfold conclude
  split <;> rfl

theorem kind_stepGroup (r : ReportReader) (pending : PendingGroup) (mark : Mark) :
    (r.stepGroup pending mark).kind = r.kind := by
  cases mark with
  | disposition words => exact kind_conclude r pending words
  | bullet path =>
    simp only [stepGroup]
    split_ifs <;> rfl
  | _ => rfl

/-- A section ends only at the header of the next. -/
theorem kind_stepSection (r : ReportReader) (kind : TokenKind) (mark : Mark) :
    (r.stepSection kind mark).kind = r.kind := by
  unfold stepSection
  split
  · rfl
  · rfl
  · split
    · exact kind_stepGroup ..
    · rfl

theorem Settled.step {free : Bool} {r : ReportReader} (h : Settled free r) (mark : Mark) :
    Settled (freeAfter free mark) (r.step mark) := by
  by_cases header : ∃ key, mark = .kind key
  · obtain ⟨key, rfl⟩ := header
    exact ⟨fun _ => rfl, fun _ => rfl⟩
  cases hk : r.kind with
  | none =>
    -- nothing is read outside the sections
    have same : r.step mark = r := by
      cases mark <;> simp_all [ReportReader.step]
    rw [same]
    exact ⟨fun _ => h.outside hk, h.outside⟩
  | some kind =>
    have inside : r.step mark = r.stepSection kind mark := by
      cases mark <;> simp_all [ReportReader.step]
    refine ⟨fun free_eq => ?_, fun none_eq => ?_⟩
    · cases mark with
      | kind key => rfl
      | token _ => cases free_eq
      | variants _ => cases free_eq
      | disposition words =>
        rw [inside, stepSection]
        · split
          · exact pending_conclude ..
          · assumption
        all_goals nofun
      | _ => rw [step_of_not_isHeader (h.free free_eq) rfl, h.free free_eq]
    · rw [inside, kind_stepSection, hk] at none_eq
      cases none_eq

/-- **Remarks outside the groups do not change what is read.** -/
theorem foldl_annotated {free : Bool} {ls annotated : List Text} (h : Annotated free ls annotated)
    {r : ReportReader} (hr : Settled free r) :
    (annotated.map Mark.ofLine).foldl ReportReader.step r =
      (ls.map Mark.ofLine).foldl ReportReader.step r := by
  induction h generalizing r with
  | nil => rfl
  | line l _ ih => exact ih (hr.step (Mark.ofLine l))
  | remark l _ noHeader _ ih =>
    rw [List.map_cons, List.foldl_cons,
      step_of_not_isHeader (hr.free rfl) (Mark.isHeader_ofLine noHeader), ih hr]

theorem readAll_annotated {t : Text} {annotated : List Text}
    (h : Annotated true (t.lines.map Line.body) annotated) :
    readAll (Text.unlines annotated) = readAll t := by
  have intact : ∀ l ∈ annotated, l.BreakFree := by
    refine h.breakFree fun l hl => ?_
    obtain ⟨line, hline, rfl⟩ := List.mem_map.mp hl
    exact Text.breakFree_of_mem_lines hline
  rw [readAll_eq, readAll_eq, Text.lines_unlines intact,
    ← foldl_annotated h ⟨fun _ => rfl, fun _ => rfl⟩]
  simp [Function.comp_def]

/-- **A rendered report gives its groups back**, in order and with all their parts, also when
remarks that are no headers are put in where no group is open. -/
theorem read_render_annotated (analysis : Analysis) (h : analysis.Reportable) :
    read (render analysis) = analysis.groups ∧
      ∀ annotated, Annotated true ((render analysis).lines.map Line.body) annotated →
        read (Text.unlines annotated) = analysis.groups := by
  refine ⟨read_render h, fun annotated ha => ?_⟩
  rw [read, readAll_annotated ha]
  exact read_render h

/-- The lines with the same remarks at every place where no group is open. -/
def annotate (remarks : List Text) : Bool → List Text → List Text
  | free, [] => if free then remarks else []
  | free, l :: lines =>
    (if free then remarks else []) ++ l :: annotate remarks (freeAfter free (Mark.ofLine l)) lines

theorem Annotated.append_remarks {remarks ls annotated : List Text}
    (h : ∀ l ∈ remarks, l.BreakFree ∧ Mark.IsNoHeader l) (ha : Annotated true ls annotated) :
    Annotated true ls (remarks ++ annotated) := by
  induction remarks with
  | nil => exact ha
  | cons l remarks ih =>
    rw [List.forall_mem_cons] at h
    exact .remark l h.1.1 h.1.2 (ih h.2)

theorem annotated_annotate {remarks : List Text}
    (h : ∀ l ∈ remarks, l.BreakFree ∧ Mark.IsNoHeader l) (free : Bool) (ls : List Text) :
    Annotated free ls (annotate remarks free ls) := by
  induction ls generalizing free with
  | nil =>
    cases free with
    | true => simpa [annotate] using Annotated.append_remarks h .nil
    | false => exact .nil
  | cons l ls ih =>
    cases free with
    | true => exact .append_remarks h (.line l (ih _))
    | false => exact .line l (ih _)

/-- Groups of both match types, decided and undecided. -/
def sample : Analysis where
  kinds :=
    [{ kind := .property
       exact := [{ kind := .property, matchType := .exact, names := ["--gap".toList]
                   files := ["a b.scss".toList, "src/- c.scss".toList]
                   canonical := "src/- c.scss".toList }]
       near := [{ kind := .property, matchType := .near
                  names := ["--gap".toList, "-- Token: gaps".toList]
                  files := ["a b.scss".toList, "src/- c.scss".toList]
                  canonical := "a b.scss".toList, disposition := .keepAlias }] },
     { kind := .function }]

/-- Lines that look like parts of a group. -/
def sampleRemarks : List Text :=
  ["- a b.scss".toList, "Disposition: ignore".toList, "Preferred source: b".toList,
    "### Tokens".toList, []]

theorem read_render_annotated_sample :
    sample.Reportable ∧ (∀ l ∈ sampleRemarks, l.BreakFree ∧ Mark.IsNoHeader l) ∧
      read (render sample) = sample.groups ∧
      read (Text.unlines
        (annotate sampleRemarks true ((render sample).lines.map Line.body))) = sample.groups := by
  have reportable : sample.Reportable := by decide
  have remarks : ∀ l ∈ sampleRemarks, l.BreakFree ∧ Mark.IsNoHeader l := by decide
  obtain ⟨plain, annotated⟩ := read_render_annotated sample reportable
  exact ⟨reportable, remarks, plain, annotated _ (annotated_annotate remarks true _)⟩

end Report

end StyleTokens
