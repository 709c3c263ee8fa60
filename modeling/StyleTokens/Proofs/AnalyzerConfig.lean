import StyleTokens.Command.Report
import StyleTokens.Proofs.Data.Except
import StyleTokens.Proofs.Field
import StyleTokens.Proofs.Text.Trim

/-!
# Settings checked twice

Directory names are cleaned when settings are made: the blanks around a name go first, and then the
slashes. Where a slash stood between a blank and the name, the blank is left. So a second check is
no repetition of the first one. It takes such a blank away, and it may find two names to be the same
that were different before. A chosen threshold brings about a second check of the directory names
that the environment set, although it has nothing to do with them. The names stay as they are
exactly if no cleaned name has a blank at its ends.

## Main definitions

* `AnalyzerConfig.recheck`: settings checked once more

## Main results

* `AnalyzerConfig.check_eq_ok_iff`: the settings that a check makes
* `AnalyzerConfig.cleanDirectory_eq_self_iff`: when cleaning changes nothing the second time
* `AnalyzerConfig.checkPriority_again_iff`: when the directory names stay as they are
* `AnalyzerConfig.recheck_clean_iff`: when a second check changes nothing, and when a chosen
  threshold leaves the directory names alone
-/

namespace StyleTokens.AnalyzerConfig

variable {threshold : Checked Int} {names dirs : List Text} {config : AnalyzerConfig} {t : Text}

/-! ## Clean names -/

/-- Cleaning a clean name changes nothing exactly if there are no blanks at its ends. -/
theorem cleanDirectory_eq_self_iff :
    cleanDirectory (cleanDirectory t) = cleanDirectory t ↔ (cleanDirectory t).Trimmed := by
  constructor
  · intro same
    -- neither the blanks nor the slashes could take a character away
    have slashes := Text.length_trimWhile_le (· = '/') (Text.trim (cleanDirectory t))
    refine Text.trimWhile_eq_self ?_
    calc (cleanDirectory t).length = (cleanDirectory (cleanDirectory t)).length := by rw [same]
      _ ≤ (Text.trim (cleanDirectory t)).length := slashes
  · intro trimmed
    calc cleanDirectory (cleanDirectory t)
        = Text.trimWhile (· = '/') (cleanDirectory t) := by
          rw [cleanDirectory, show Text.trim (cleanDirectory t) = cleanDirectory t from trimmed]
      _ = cleanDirectory t := Text.trimWhile_trimWhile _ _

/-- The cleaned names without the empty ones. -/
def cleanDirectories (names : List Text) : List Text :=
  (names.map cleanDirectory).filter fun t => !t.isEmpty

theorem mem_cleanDirectories :
    t ∈ cleanDirectories names ↔ (∃ name ∈ names, cleanDirectory name = t) ∧ t ≠ [] := by
  simp [cleanDirectories]

/-- Cleaning keeps a list of names exactly if it keeps each of them. -/
theorem cleanDirectories_eq_self_iff (h : ∀ d ∈ dirs, d ≠ []) :
    cleanDirectories dirs = dirs ↔ ∀ d ∈ dirs, cleanDirectory d = d := by
  induction dirs with
  | nil => simp [cleanDirectories]
  | cons d dirs ih =>
    rw [List.forall_mem_cons] at h
    rw [List.forall_mem_cons, ← ih h.2]
    unfold cleanDirectories
    rw [List.map_cons, List.filter_cons]
    split_ifs with kept
    · exact List.cons_eq_cons
    · -- the list has become shorter
      refine iff_of_false (fun eq => ?_) (fun same => kept (by simpa [same.1] using h.1))
      have shorter := List.length_filter_le (fun t : Text => !t.isEmpty) (dirs.map cleanDirectory)
      rw [eq, List.length_map, List.length_cons] at shorter
      omega

/-! ## Checks -/

theorem checkThreshold_natCast (n : Nat) : checkThreshold n = .ok n := by
  rw [checkThreshold, if_neg (by omega), Int.toNat_natCast]

theorem checkPriority_eq_ok_iff :
    checkPriority names = .ok dirs ↔ cleanDirectories names = dirs ∧ dirs.Nodup := by
  change (if (cleanDirectories names).Nodup then Except.ok (cleanDirectories names)
    else .error _) = _ ↔ _
  split_ifs with nodup
  · rw [Except.ok.injEq]
    exact (and_iff_left_of_imp fun eq => eq ▸ nodup).symm
  · exact iff_of_false nofun fun h => nodup (h.1 ▸ h.2)

/-- **The settings that a check makes.** -/
theorem check_eq_ok_iff : check threshold names = .ok config ↔
    threshold >>= checkThreshold = .ok config.threshold ∧
      checkPriority names = .ok config.priority := by
  constructor
  · intro made
    obtain ⟨⟨n, dirs⟩, both, same⟩ := bind_eq_ok_iff.mp made
    obtain rfl := Except.ok.inj same
    obtain ⟨first, second⟩ := Checked.both_eq_ok_iff.mp both
    exact ⟨(Checked.inside_eq_ok_iff _).mp first, (Checked.inside_eq_ok_iff _).mp second⟩
  · rintro ⟨first, second⟩
    refine bind_eq_ok_iff.mpr ⟨(config.threshold, config.priority), ?_, rfl⟩
    exact Checked.both_eq_ok_iff.mpr
      ⟨(Checked.inside_eq_ok_iff _).mpr first, (Checked.inside_eq_ok_iff _).mpr second⟩

theorem check_of_ofEnv {env : Environment} (made : ofEnv env = .ok config) :
    ∃ n : Int, check (.ok n) (priorityOfEnv env) = .ok config := by
  obtain ⟨n, -, checked⟩ := bind_eq_ok_iff.mp made
  exact ⟨n, mapError_eq_ok_iff.mp checked⟩

/-! ## Second checks -/

/-- The settings, checked once more. -/
def recheck (config : AnalyzerConfig) : Checked AnalyzerConfig :=
  check (.ok config.threshold) config.priority

/-- The directory names of settings that were checked are clean, different from one another, and
not empty. -/
theorem priority_of_check (made : check threshold names = .ok config) :
    cleanDirectories names = config.priority ∧ config.priority.Nodup :=
  checkPriority_eq_ok_iff.mp (check_eq_ok_iff.mp made).2

/-- **When the directory names pass a second check** as they are. -/
theorem checkPriority_again_iff (made : check threshold names = .ok config) :
    checkPriority config.priority = .ok config.priority ↔
      ∀ name ∈ names, (cleanDirectory name).Trimmed := by
  obtain ⟨cleaned, nodup⟩ := priority_of_check made
  have mem : ∀ {d}, d ∈ config.priority ↔ (∃ name ∈ names, cleanDirectory name = d) ∧ d ≠ [] := by
    intro d
    rw [← cleaned, mem_cleanDirectories]
  rw [checkPriority_eq_ok_iff, and_iff_left nodup,
    cleanDirectories_eq_self_iff fun d h => (mem.mp h).2]
  constructor
  · intro kept name listed
    by_cases empty : cleanDirectory name = []
    · exact empty ▸ rfl
    · exact cleanDirectory_eq_self_iff.mp (kept _ (mem.mpr ⟨⟨name, listed, rfl⟩, empty⟩))
  · intro trimmed d h
    obtain ⟨⟨name, listed, rfl⟩, -⟩ := mem.mp h
    exact cleanDirectory_eq_self_iff.mpr (trimmed name listed)

/-- The settings with another threshold, checked once more. -/
theorem check_threshold_eq_ok_iff (n : Nat) :
    check (.ok n) config.priority = .ok { config with threshold := n } ↔
      checkPriority config.priority = .ok config.priority := by
  rw [check_eq_ok_iff]
  exact and_iff_right (checkThreshold_natCast n)

/-- **A second check** of settings changes nothing exactly if no cleaned name has a blank at its
ends. The same decides whether the directory names that the environment sets stay when nothing but a
threshold is chosen for a report. -/
theorem recheck_clean_iff (threshold : Checked Int) (names : List Text) (config : AnalyzerConfig)
    (made : check threshold names = .ok config) :
    (config.recheck = .ok config ↔ ∀ name ∈ names, (cleanDirectory name).Trimmed) ∧
    ∀ (env : Environment) (choices : ReportChoices) (n : Nat), ofEnv env = .ok config →
      choices.threshold = some (some (n : Int)) → choices.priority = [] →
      (choices.config env = .ok { config with threshold := n } ↔
        ∀ name ∈ priorityOfEnv env, (cleanDirectory name).Trimmed) := by
  constructor
  · rw [← checkPriority_again_iff made]
    exact check_threshold_eq_ok_iff config.threshold
  · intro env choices n read chosen alone
    obtain ⟨m, made⟩ := check_of_ofEnv read
    have rechecked : choices.config env = (check (.ok n) config.priority).mapError .invalid := by
      rw [ReportChoices.config, read, ReportChoices.chosenThreshold, chosen, alone]
      rfl
    rw [rechecked, mapError_eq_ok_iff, check_threshold_eq_ok_iff,
      checkPriority_again_iff made]

/-- The choice of a threshold for a report, and of nothing else. -/
def thresholdChosen (n : Nat) : ReportChoices where
  baseline := none
  out := none
  threshold := some (some n)

theorem recheck_clean_iff_spaced :
    let env := [("TOKEN_AUDIT_PRIORITY".toList, " /core/ ,\t//layout".toList)]
    let config : AnalyzerConfig := ⟨3, ["core".toList, "layout".toList]⟩
    ofEnv env = .ok config ∧ config.recheck = .ok config ∧
      (thresholdChosen 5).config env = .ok { config with threshold := 5 } := by
  intro env config
  have read : ofEnv env = .ok config := by decide
  have made : check (.ok 3) (priorityOfEnv env) = .ok config := by decide
  have clean : ∀ name ∈ priorityOfEnv env, (cleanDirectory name).Trimmed := by decide
  obtain ⟨again, chosen⟩ := recheck_clean_iff (.ok 3) (priorityOfEnv env) config made
  exact ⟨read, again.mpr clean, (chosen env (thresholdChosen 5) 5 read rfl rfl).mpr clean⟩

/-- Behind a slash, a blank stays the first time and goes the second time. If two names differ in
nothing else, the second check refuses them. -/
theorem recheck_slashedBlank :
    let env := [("TOKEN_AUDIT_PRIORITY".toList, "/ core".toList)]
    let config : AnalyzerConfig := ⟨3, [" core".toList]⟩
    let clashing := [("TOKEN_AUDIT_PRIORITY".toList, "/ core,core".toList)]
    let config' : AnalyzerConfig := ⟨3, [" core".toList, "core".toList]⟩
    let problem : Field.Problem := ⟨["directory_priority".toList],
      .rule "directory_priority entries must be unique".toList⟩
    (ofEnv env = .ok config ∧ config.recheck = .ok ⟨3, ["core".toList]⟩ ∧
      (thresholdChosen 3).config env = .ok ⟨3, ["core".toList]⟩) ∧
    ofEnv clashing = .ok config' ∧ config'.recheck = .error [problem] ∧
      (thresholdChosen 3).config clashing = .error (.invalid [problem]) := by
  decide

end StyleTokens.AnalyzerConfig
