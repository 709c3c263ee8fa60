import StyleTokens.Proofs.Report.RoundTrip

/-!
# What a report can give

Whatever text is read as a report, the groups that come out of it can be written into a report
again, and that report gives them back. A header gives names without blanks or commas, a line
with a path gives a path that can stand on such a line, and only groups that keep the rules
are read.

A path need not be trimmed: where nothing but blanks stands behind a bullet, the last of them
is the path, and it is read again behind the next bullet.

## Main definitions

* `Mark.Legible`: a mark whose parts can stand on a line again
* `ReportReader.Legible`: a reader that has collected nothing else
* `Analysis.ofGroups`: groups in the given order, each in a section of its own

## Main results

* `Mark.legible_ofLine`: the mark of a line is legible
* `ReportReader.Legible.step`: a legible mark leaves the reader legible
* `Report.legible_of_mem_read`: the groups of any text are legible
* `Report.read_render_read`: reading a report of what was read gives the same groups
-/

namespace StyleTokens

open Report (LinePath SafeName SafeVariant HeaderName)

/-! ## Parts of a line -/

namespace Text

variable {t : Text}

theorem isBlank_swap (c : Char) : isBlank (if c = '\\' then '/' else c) = isBlank c := by
  split_ifs with h
  · rw [h]
    decide
  · rfl

/-- Blanks stay where they are when backslashes become slashes. -/
theorem trim_slashed (t : Text) : trim (slashed t) = slashed (trim t) := by
  have same : (isBlank ∘ fun c => if c = '\\' then '/' else c) = isBlank :=
    funext isBlank_swap
  simp only [trim_eq, slashed, swap, dropEndWhile, List.dropWhile_map, ← List.map_reverse, same]

theorem backslash_notMem_slashed (t : Text) : '\\' ∉ slashed t := by
  intro h
  obtain ⟨c, -, eq⟩ := List.mem_map.mp h
  split_ifs at eq with hc
  · exact absurd eq (by decide)
  · exact hc eq

theorem BreakFree.slashed (h : BreakFree t) : BreakFree (slashed t) := by
  intro c hc
  obtain ⟨d, hd, rfl⟩ := List.mem_map.mp hc
  split_ifs
  · decide
  · exact h d hd

end Text

/-! ## Legible marks -/

namespace Report

/-- **The value at the end of a line** is a path that such a line gives back, once its
backslashes are slashes. -/
theorem linePath_lineValue {t : Text} (ne : t ≠ []) (h : t.BreakFree) :
    LinePath (Text.slashed (Text.lineValue t)) := by
  rw [Text.lineValue]
  split_ifs with blank
  · -- the last blank is the value of the blanks up to it
    obtain ⟨front, c, rfl⟩ := (List.eq_nil_or_concat' t).resolve_left ne
    have hc : isBlank c := Text.allBlank_iff.mp blank c (by simp)
    have single : Text.slashed [c] = [c] := by
      refine Text.slashed_eq fun mem => ?_
      rw [← List.mem_singleton.mp mem] at hc
      exact absurd hc (by decide)
    rw [List.getLast?_concat, Option.toList_some, single]
    refine ⟨fun d hd => h d (List.mem_append_right front hd), ?_, ?_⟩
    · rw [← single]
      exact Text.backslash_notMem_slashed _
    · have all : Text.allBlank [' ', c] = true := by
        rw [Text.allBlank_iff]
        intro d hd
        rcases List.mem_pair.mp hd with rfl | rfl
        · decide
        · exact hc
      rw [Text.lineValue, if_pos all]
      rfl
  · refine ⟨Text.BreakFree.slashed fun c hc => h c (Text.mem_of_mem_trim hc),
      Text.backslash_notMem_slashed _, ?_⟩
    refine Text.lineValue_cons ?_ ?_
    · intro nil
      have : Text.trim t = [] := List.map_eq_nil_iff.mp nil
      exact blank (Text.allBlank_iff.mpr (Text.forall_of_trim_eq_nil this))
    · rw [Text.Trimmed, Text.trim_slashed, Text.trimmed_trim t]

theorem safeVariant_of_mem_commaParts {t name : Text} (h : t.BreakFree)
    (hn : name ∈ Text.commaParts t) : SafeVariant name := by
  obtain ⟨mem, ne⟩ := List.mem_filter.mp hn
  obtain ⟨part, hp, rfl⟩ := List.mem_map.mp mem
  obtain ⟨noComma, inside⟩ := Text.of_mem_splitOn hp
  exact ⟨by simpa using ne, fun comma => noComma (Text.mem_of_mem_trim comma),
    fun c hc => h c (inside (Text.mem_of_mem_trim hc)), Text.trimmed_trim part⟩

end Report

namespace Mark

variable {line : Text} {mark : Mark}

/-- The parts of a mark can stand on a line again. -/
def Legible : Mark → Prop
  | .token name => SafeName name
  | .variants names => ∀ name ∈ names, SafeVariant name
  | .preferred path => LinePath path
  | .bullet path => LinePath path
  | _ => True

theorem legible_of_token? (h : token? line = some mark) : mark.Legible := by
  simp only [token?, Option.bind_eq_bind, Option.bind_eq_some_iff,
    Option.ite_none_right_eq_some, Option.some.injEq, Bool.and_eq_true] at h
  obtain ⟨_, _, rest, _, ⟨ne, _⟩, rfl⟩ := h
  refine ⟨by simpa using ne, fun c hc => ?_⟩
  simpa using List.mem_takeWhile_imp hc

/-- What stands behind something in a line without line breaks has none. -/
theorem breakFree_of_isPrefixOf? {front rest : Text} (h : line.BreakFree)
    (hr : front.isPrefixOf? line = some rest) : rest.BreakFree := by
  obtain rfl := List.isPrefixOf?_eq_some_iff_append_eq.mp hr
  exact fun c hc => h c (List.mem_append_right front hc)

theorem breakFree_dropWhile (h : line.BreakFree) (p : Char → Bool) :
    Text.BreakFree (line.dropWhile p) :=
  fun c hc => h c ((List.dropWhile_sublist p).subset hc)

theorem legible_of_variants? (intact : line.BreakFree) (h : variants? line = some mark) :
    mark.Legible := by
  simp only [variants?, Option.bind_eq_bind, Option.bind_eq_some_iff, Text.afterBlanks?,
    Option.ite_none_left_eq_some, Option.ite_none_right_eq_some, Option.some.injEq] at h
  obtain ⟨_, ⟨rest, hr, _, rfl⟩, names, hn, _, rfl⟩ := h
  intro name mem
  exact Report.safeVariant_of_mem_commaParts
    (breakFree_of_isPrefixOf? (breakFree_dropWhile (breakFree_of_isPrefixOf? intact hr) _) hn) mem

theorem legible_of_preferred? (intact : line.BreakFree) (h : preferred? line = some mark) :
    mark.Legible := by
  simp only [preferred?, Option.bind_eq_bind, Option.bind_eq_some_iff] at h
  obtain ⟨rest, hr, h⟩ := h
  have behind : Text.BreakFree (rest.dropWhile (· ≠ ':')) :=
    breakFree_dropWhile (breakFree_of_isPrefixOf? (breakFree_dropWhile intact _) hr) _
  split at h
  · cases h
  next colon value eq =>
    obtain ⟨ne, h⟩ := Option.ite_none_left_eq_some.mp h
    cases h
    rw [eq] at behind
    exact Report.linePath_lineValue (by simpa using ne)
      fun c hc => behind c (List.mem_cons_of_mem colon hc)

theorem legible_of_bullet? (intact : line.BreakFree) (h : bullet? line = some mark) :
    mark.Legible := by
  have behind : Text.BreakFree (line.dropWhile isBlank) := breakFree_dropWhile intact _
  unfold bullet? at h
  split at h
  next rest eq =>
    obtain ⟨two, h⟩ := Option.ite_none_left_eq_some.mp h
    cases h
    rw [eq] at behind
    refine Report.linePath_lineValue ?_ fun c hc => behind c (List.mem_cons_of_mem '-' hc)
    rintro rfl
    simp at two
  · cases h

theorem legible_of_kind? (h : kind? line = some mark) : mark.Legible := by
  simp only [kind?, Option.bind_eq_bind, Option.bind_eq_some_iff] at h
  obtain ⟨_, _, h⟩ := h
  split_ifs at h
  · obtain ⟨_, none, _⟩ := Option.bind_eq_some_iff.mp h
    cases none
  · simp only [Option.bind_eq_some_iff, Option.ite_none_right_eq_some, Option.some.injEq] at h
    obtain ⟨_, _, _, _, _, rfl⟩ := h
    trivial

theorem legible_of_definedIn? (h : definedIn? line = some mark) : mark.Legible := by
  simp only [definedIn?, Option.bind_eq_bind, Option.bind_eq_some_iff,
    Option.ite_none_right_eq_some, Option.some.injEq] at h
  obtain ⟨_, _, _, rfl⟩ := h
  trivial

theorem legible_of_disposition? (h : disposition? line = some mark) : mark.Legible := by
  simp only [disposition?, Option.bind_eq_bind, Option.bind_eq_some_iff, Option.pure_def,
    Option.some.injEq] at h
  obtain ⟨_, _, rfl⟩ := h
  trivial

/-- **The mark of a line** is legible. -/
theorem legible_ofLine (intact : line.BreakFree) : (ofLine line).Legible := by
  rw [ofLine]
  cases h : (kind? line <|> token? line <|> variants? line <|> definedIn? line <|>
    preferred? line <|> disposition? line <|> bullet? line) with
  | none =>
    rw [Option.getD_none]
    split_ifs <;> trivial
  | some mark =>
    rw [Option.getD_some]
    simp only [Option.orElse_eq_some] at h
    -- one case for each test, in the order in which they are tried
    rcases h with h | ⟨-, h | ⟨-, h | ⟨-, h | ⟨-, h | ⟨-, h | ⟨-, h⟩⟩⟩⟩⟩⟩
    · exact legible_of_kind? h
    · exact legible_of_token? h
    · exact legible_of_variants? intact h
    · exact legible_of_definedIn? h
    · exact legible_of_preferred? intact h
    · exact legible_of_disposition? h
    · exact legible_of_bullet? intact h

end Mark

/-! ## Legible readers -/

/-- The names and files that were collected for a group can stand on a line again. -/
structure PendingGroup.Legible (pending : PendingGroup) : Prop where
  names : ∀ name ∈ pending.names, HeaderName pending.matchType name
  files : ∀ file ∈ pending.files, LinePath file

/-- **A group that is read is legible**, if its parts are: it keeps the rules, and its files are
put in order. -/
theorem PendingGroup.Legible.finish {pending : PendingGroup} (h : pending.Legible)
    {disposition : Disposition} {group : Group} (read : pending.finish disposition = .ok group) :
    group.Legible := by
  unfold PendingGroup.finish at read
  split at read
  · cases read
  next canonical _ =>
    obtain ⟨rfl, valid⟩ := Group.of_mapError_check read
    exact ⟨Group.check_eq_ok_iff.mpr valid,
      (Ascending.strict_ofList pending.files).imp fun lt => le_of_lt lt,
      fun file hf => h.files file (Ascending.mem_ofList.mp hf), h.names⟩

namespace ReportReader

variable {r : ReportReader} {mark : Mark}

/-- All that was collected can stand on a line again. -/
structure Legible (r : ReportReader) : Prop where
  pending : ∀ pending ∈ r.pending, pending.Legible
  groups : ∀ group ∈ r.groups, group.Legible

theorem Legible.conclude (h : r.Legible) {pending : PendingGroup} (hp : pending.Legible)
    (words : Text) : (r.conclude pending words).Legible := by
  unfold ReportReader.conclude
  split
  next group read =>
    refine ⟨nofun, fun other ho => ?_⟩
    rcases List.mem_append.mp ho with ho | ho
    · exact h.groups other ho
    · rw [List.mem_singleton.mp ho]
      exact hp.finish read
  · exact ⟨nofun, h.groups⟩

theorem Legible.stepGroup (h : r.Legible) {pending : PendingGroup} (hp : pending.Legible)
    (hm : mark.Legible) : (r.stepGroup pending mark).Legible := by
  -- what the group becomes, in every case but the last, is still open
  have opened : ∀ {pending : PendingGroup}, pending.Legible →
      ReportReader.Legible { r with pending := some pending } := by
    intro pending hp
    refine ⟨fun other ho => ?_, h.groups⟩
    rw [← Option.some.inj ho]
    exact hp
  cases mark with
  | disposition words => exact h.conclude hp words
  | bullet path =>
    simp only [ReportReader.stepGroup]
    split_ifs
    · refine opened ⟨hp.names, fun file hf => ?_⟩
      rcases List.mem_append.mp hf with hf | hf
      · exact hp.files file hf
      · rw [List.mem_singleton.mp hf]
        exact hm
    · exact h
  | blank => exact h
  | definedIn | preferred _ | kind _ | token _ | variants _ | prose =>
    exact opened ⟨hp.names, hp.files⟩

/-- **A legible mark leaves the reader legible.** -/
theorem Legible.step (h : r.Legible) (hm : mark.Legible) : (r.step mark).Legible := by
  have fresh : ∀ {kind : TokenKind} {matchType : MatchType} {names : List Text},
      (∀ name ∈ names, HeaderName matchType name) →
      ReportReader.Legible
        { r with pending := some ⟨kind, matchType, names, [], none, false⟩ } := by
    intro kind matchType names headers
    refine ⟨fun pending hp => ?_, h.groups⟩
    rw [← Option.some.inj hp]
    exact ⟨headers, nofun⟩
  unfold ReportReader.step
  split
  · exact ⟨nofun, h.groups⟩
  split
  · -- inside a section, a header opens a group
    unfold ReportReader.stepSection
    split
    · refine fresh fun name hn => ?_
      rw [List.mem_singleton.mp hn]
      exact hm
    · exact fresh hm
    split
    next pending eq => exact h.stepGroup (h.pending pending eq) hm
    · exact h
  · exact h

theorem Legible.foldl_step {marks : List Mark} (h : r.Legible)
    (hm : ∀ mark ∈ marks, mark.Legible) : (marks.foldl ReportReader.step r).Legible := by
  induction marks generalizing r with
  | nil => exact h
  | cons mark marks ih =>
    rw [List.forall_mem_cons] at hm
    exact ih (h.step hm.1) hm.2

end ReportReader

/-! ## Reading what was read -/

/-- A group in a section of its own. -/
def KindAnalysis.ofGroup (group : Group) : KindAnalysis :=
  match group.matchType with
  | .exact => { kind := group.kind, exact := [group] }
  | .near => { kind := group.kind, near := [group] }

/-- Groups in the given order, each in a section of its own. -/
def Analysis.ofGroups (groups : List Group) : Analysis :=
  ⟨groups.map .ofGroup⟩

namespace Report

/-- **The groups of any text are legible.** -/
theorem legible_of_mem_read {t : Text} {group : Group} (h : group ∈ read t) : group.Legible := by
  have marks : ∀ mark ∈ (t.lines.map fun line => Mark.ofLine line.body), mark.Legible := by
    intro mark hm
    obtain ⟨line, hl, rfl⟩ := List.mem_map.mp hm
    exact Mark.legible_ofLine (Text.breakFree_of_mem_lines hl)
  have start : ReportReader.Legible {} := ⟨nofun, nofun⟩
  exact (start.foldl_step marks).groups group h

theorem groups_ofGroups (groups : List Group) : (Analysis.ofGroups groups).groups = groups := by
  have own : ∀ group : Group,
      (KindAnalysis.ofGroup group).exact ++ (KindAnalysis.ofGroup group).near = [group] := by
    intro group
    cases hm : group.matchType <;> simp [KindAnalysis.ofGroup, hm]
  simp [Analysis.groups, Analysis.ofGroups, List.flatMap_map, own]

theorem legible_ofGroups {groups : List Group} (h : ∀ group ∈ groups, group.Legible) :
    (Analysis.ofGroups groups).Legible := by
  intro kind hk
  obtain ⟨group, hg, rfl⟩ := List.mem_map.mp hk
  cases hm : group.matchType with
  | exact =>
    rw [KindAnalysis.ofGroup, hm]
    refine ⟨fun other ho => ?_, nofun⟩
    rw [List.mem_singleton.mp ho]
    exact ⟨rfl, hm, h group hg⟩
  | near =>
    rw [KindAnalysis.ofGroup, hm]
    refine ⟨nofun, fun other ho => ?_⟩
    rw [List.mem_singleton.mp ho]
    exact ⟨rfl, hm, h group hg⟩

/-- **Reading a report of what was read gives the same groups**, whatever text was read; each of
them keeps the rules of a group. -/
theorem read_render_read (t : Text) :
    read (render (.ofGroups (read t))) = read t ∧ ∀ group ∈ read t, group.Valid := by
  have legible : ∀ group ∈ read t, group.Legible := fun group hg => legible_of_mem_read hg
  refine ⟨?_, fun group hg => (legible group hg).isValid⟩
  rw [read_render_legible (legible_ofGroups legible), groups_ofGroups]

end Report

end StyleTokens
