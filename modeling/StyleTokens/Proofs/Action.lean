import StyleTokens.World

/-!
# What actions leave

The lines that an action writes depend on its files, but not the other way round. So an action is
described by its result and the tree that it leaves, given the tree that it starts from, and the
steps of a command are put together by these descriptions.

## Main definitions

* `Action.outcome`: what an action gives, and the world after it
* `Action.Leaves`: the result of an action and the tree that it leaves

## Main results

* `Action.Leaves.bind`, `Action.Leaves.bind_error`: actions one after another
* `Action.leaves_store`: a file that is stored
* `Action.Leaves.reported`, `Action.Leaves.reported_error`: the exit codes of an action of which
  every failure is shown
-/

namespace StyleTokens.Action

variable {α β : Type} {action : Action α} {next : α → Action β} {tree tree' last : FileTree}
  {a : α} {result : Except Failure β} {failure : Failure}

/-- What an action gives, and the world after it. -/
def outcome (action : Action α) (world : World) : Except Failure α × World :=
  (ExceptT.run action).run world

theorem outcome_bind_of_ok {world world' : World} (h : action.outcome world = (.ok a, world')) :
    outcome (action >>= next) world = (next a).outcome world' := by
  change (ExceptT.bindCont next (action.outcome world).1).run (action.outcome world).2 = _
  rw [h]
  rfl

theorem outcome_bind_of_error {world world' : World}
    (h : action.outcome world = (.error failure, world')) :
    outcome (action >>= next) world = (.error failure, world') := by
  change (ExceptT.bindCont next (action.outcome world).1).run (action.outcome world).2 = _
  rw [h]
  rfl

theorem outcome_tryCatch_of_ok {handler : Failure → Action α} {world world' : World}
    (h : action.outcome world = (.ok a, world')) :
    outcome (tryCatch action handler) world = (.ok a, world') := by
  change StateT.run action world = _ at h
  simp only [outcome, tryCatch, tryCatchThe, MonadExceptOf.tryCatch, ExceptT.tryCatch,
    ExceptT.run_mk, StateT.run_bind, h]
  rfl

theorem outcome_tryCatch_of_error {handler : Failure → Action α} {world world' : World}
    (h : action.outcome world = (.error failure, world')) :
    outcome (tryCatch action handler) world = (handler failure).outcome world' := by
  change StateT.run action world = _ at h
  simp only [outcome, tryCatch, tryCatchThe, MonadExceptOf.tryCatch, ExceptT.tryCatch,
    ExceptT.run_mk, StateT.run_bind, h]
  rfl

/-- The result of an action and the tree that it leaves, whatever lines there are. -/
def Leaves (action : Action α) (tree : FileTree) (result : Except Failure α) (tree' : FileTree) :
    Prop :=
  ∀ world : World, world.tree = tree →
    ∃ world', action.outcome world = (result, world') ∧ world'.tree = tree'

/-- An action has one result. -/
theorem Leaves.unique {other result : Except Failure α} (h : action.Leaves tree result tree')
    (h' : action.Leaves tree other last) : result = other := by
  obtain ⟨_, outcome, -⟩ := h { tree := tree } rfl
  obtain ⟨_, outcome', -⟩ := h' { tree := tree } rfl
  exact congrArg Prod.fst (outcome.symm.trans outcome')

/-! ## Steps -/

theorem leaves_pure : Leaves (pure a) tree (.ok a) tree :=
  fun world h => ⟨world, rfl, h⟩

theorem leaves_throw : Leaves (throw failure : Action α) tree (.error failure) tree :=
  fun world h => ⟨world, rfl, h⟩

theorem leaves_tree : Action.tree.Leaves tree (.ok tree) tree :=
  fun world h => ⟨world, congrArg (fun tree => (Except.ok tree, world)) h, h⟩

theorem leaves_setTree : (setTree tree').Leaves tree (.ok ()) tree' :=
  fun _ _ => ⟨_, rfl, rfl⟩

theorem leaves_print (message : Message) : (print message).Leaves tree (.ok ()) tree :=
  fun _ h => ⟨_, rfl, h⟩

theorem leaves_warn (message : Message) : (warn message).Leaves tree (.ok ()) tree :=
  fun _ h => ⟨_, rfl, h⟩

theorem leaves_ofExcept_of_ok {ε : Type} {f : ε → Failure} {given : Except ε α}
    (h : given = .ok a) : (ofExcept f given).Leaves tree (.ok a) tree := by
  rw [h]
  exact leaves_pure

theorem leaves_ofExcept_of_error {ε : Type} {f : ε → Failure} {given : Except ε α} {e : ε}
    (h : given = .error e) : (ofExcept f given).Leaves tree (.error (f e)) tree := by
  rw [h]
  exact leaves_throw

theorem leaves_ofExcept {ε : Type} (f : ε → Failure) (given : Except ε α) :
    (ofExcept f given).Leaves tree (given.mapError f) tree := by
  cases given with
  | error e => exact leaves_ofExcept_of_error rfl
  | ok a => exact leaves_ofExcept_of_ok rfl

/-- Of two actions, the second starts from the tree that the first one leaves. -/
theorem Leaves.bind (h : action.Leaves tree (.ok a) tree')
    (h' : (next a).Leaves tree' result last) :
    Leaves (action >>= next) tree result last := by
  intro world start
  obtain ⟨middle, first, reached⟩ := h world start
  obtain ⟨world', second, left⟩ := h' middle reached
  exact ⟨world', (outcome_bind_of_ok first).trans second, left⟩

/-- A failure ends the actions. -/
theorem Leaves.bind_error (h : action.Leaves tree (.error failure) tree') :
    Leaves (action >>= next) tree (.error failure) tree' := by
  intro world start
  obtain ⟨world', first, left⟩ := h world start
  exact ⟨world', outcome_bind_of_error first, left⟩

/-- Lines for a list. -/
theorem leaves_forM {f : β → Action PUnit} (h : ∀ b, (f b).Leaves tree (.ok ()) tree)
    (list : List β) : Leaves (list.forM f) tree (.ok ()) tree := by
  induction list with
  | nil => exact leaves_pure
  | cons b list ih => exact (h b).bind ih

theorem leaves_given (t : Text) : (given (some t)).Leaves tree (.ok (Path.parse t)) tree :=
  leaves_pure

theorem leaves_shown (path : Path) :
    (shown path).Leaves tree (.ok (path.relative tree.working ⟨[], []⟩)) tree :=
  leaves_tree.bind leaves_pure

/-- A line that is written under a condition only. -/
theorem Leaves.print_if {c : Prop} [Decidable c] {message : Message} {rest : PUnit → Action β}
    (h : (rest ()).Leaves tree result last) :
    Leaves (if c then print message >>= rest else rest ()) tree result last := by
  split
  · exact (leaves_print message).bind h
  · exact h

theorem leaves_perform (operation : FileTree → FileTree × Except Refusal Unit) :
    (perform operation).Leaves tree ((operation tree).2.mapError .refused) (operation tree).1 :=
  leaves_tree.bind (leaves_setTree.bind (leaves_ofExcept .refused _))

/-- **A file that is stored.** -/
theorem leaves_store (path : Path) (t : Text) :
    (store path t).Leaves tree ((tree.replaceFile path t true).2.mapError .refused)
      (tree.replaceFile path t true).1 :=
  leaves_perform fun tree => tree.replaceFile path t true

/-! ## Failures that are shown -/

theorem Leaves.handled {handler : Failure → Action α} (h : action.Leaves tree (.ok a) tree') :
    Leaves (tryCatch action handler) tree (.ok a) tree' := by
  intro world start
  obtain ⟨world', done, left⟩ := h world start
  exact ⟨world', outcome_tryCatch_of_ok done, left⟩

/-- The handler of a failure starts from the tree that the action leaves. -/
theorem Leaves.handled_error {handler : Failure → Action α} {result : Except Failure α}
    (h : action.Leaves tree (.error failure) tree')
    (h' : (handler failure).Leaves tree' result last) :
    Leaves (tryCatch action handler) tree result last := by
  intro world start
  obtain ⟨middle, failed, reached⟩ := h world start
  obtain ⟨world', shown, left⟩ := h' middle reached
  exact ⟨world', (outcome_tryCatch_of_error failed).trans shown, left⟩

/-- A failure other than for want of input is left to the caller. -/
theorem Leaves.reportedInput {action : Action Unit} (h : action.Leaves tree (.error failure) tree')
    (other : ∀ message, failure ≠ .input message) :
    (Action.reportedInput action).Leaves tree (.error failure) tree' := by
  have failed : Leaves (do action; return 0) tree (.error failure) tree' := h.bind_error
  refine failed.handled_error ?_
  cases failure with
  | input message => exact absurd rfl (other message)
  | refused _ | invalid _ _ | notEntry | integerTooLong _ | tooDeep | noValue | noMode
  | noOverride _ => exact leaves_throw

/-- **The exit code** of an action that succeeds is zero. -/
theorem Leaves.reported {action : Action Unit} {stage : String}
    (h : action.Leaves tree (.ok ()) tree') :
    (Action.reported stage action).Leaves tree (.ok 0) tree' := by
  have succeeded : Leaves (do action; return 0) tree (.ok 0) tree' := h.bind leaves_pure
  exact succeeded.handled.handled

/-- **The exit code** of an action that fails is one, as every failure is shown. -/
theorem Leaves.reported_error {action : Action Unit} {stage : String}
    (h : action.Leaves tree (.error failure) tree') :
    (Action.reported stage action).Leaves tree (.ok 1) tree' := by
  by_cases input : ∃ message, failure = .input message
  · obtain ⟨message, rfl⟩ := input
    have failed : Leaves (do action; return 0) tree (.error (.input message)) tree' :=
      h.bind_error
    refine Leaves.handled (failed.handled_error ?_)
    exact (leaves_warn _).bind leaves_pure
  · -- all other failures are shown by the second handler
    have left := h.reportedInput fun message eq => input ⟨message, eq⟩
    exact left.handled_error ((leaves_warn _).bind leaves_pure)

end StyleTokens.Action
