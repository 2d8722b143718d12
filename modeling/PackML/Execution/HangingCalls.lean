import PackML.Execution.CallVerdicts
import PackML.Execution.Lifecycle

/-!
# Calls of a machine that does not run

A command method waits until its event has been offered to the transitions, which only a machine
that runs does. `servedCalls` are the calls of a single caller, at any time in the life cycle of the
machine: the event of a call is discarded before `activate` has taken effect and after the machine
has stopped, and it stays in the queue of a machine that was told to stop (`call_before_activate`).

`NoneHanging` says that a caller that is blocked has its event in the queue of a machine that runs
and goes on. `AnswerableStep` excludes the steps responsible: a call posts its event only while the
machine runs and was not told to stop, and the machine is told to stop only while no command is in
its queue. `calls_never_hang` follows by the invariant of the calls, `CallInvariant`, and an empty
queue whenever the machine does not go on.
-/

set_option autoImplicit false
set_option relaxedAutoImplicit false

namespace PackML

/-! ### Calls during the life cycle -/

/-- The calls of a single caller, with the state and the flag of the `QStateMachine`. -/
structure ServedCalls where
  calls : CommandCalls Unit
  run : RunState
  stop : Bool

/-- The statements of the caller, and the steps of the machine. -/
inductive ServedAction
  | assign (cmd : TransitionCmd)
  | post
  | takeFuture
  | wait
  | lifecycle (action : LifecycleAction)
  deriving DecidableEq

namespace ServedCalls

variable (cycle : Cycle) (s : ServedCalls)

/-- The machine that is called. -/
def lifecycle : Lifecycle :=
  ⟨s.calls.machine, s.run, s.stop⟩

/-- A machine that was constructed and not called yet. -/
def constructed (stateValue : State) : ServedCalls :=
  ⟨⟨.constructed stateValue, .new, fun _ ↦ .idle, fun _ ↦ none, none⟩, .notRunning, false⟩

/-- `sm_internal_.postEvent(...)`. -/
def post : Option ServedCalls :=
  match s.calls.threads () with
  | .assigned cmd =>
    some { s with calls :=
      { s.calls with
        machine := s.lifecycle.post cmd
        threads := Function.update s.calls.threads () (.posted cmd s.calls.machine.commands) } }
  | _ => none

/-- A step of the machine; commands are posted by the caller. -/
def lifecycleStep : LifecycleAction → Option ServedCalls
  | .machine (.post _) => none
  | .machine .select => ((PackML.lifecycle cycle).next s.lifecycle (.machine .select)).map
      fun next ↦
        ⟨{ s.calls.endSelectTransitions cycle with machine := next.machine }, next.run, next.stop⟩
  | action => ((PackML.lifecycle cycle).next s.lifecycle action).map fun next ↦
      ⟨{ s.calls with machine := next.machine }, next.run, next.stop⟩

end ServedCalls

/-- The runs of a machine from its construction and of a single caller. -/
def servedCalls (cycle : Cycle) : TransitionSystem ServedCalls ServedAction where
  initial s := ∃ stateValue, s = .constructed stateValue
  next s action :=
    if s.calls.terminated.isSome then none
    else match action with
      | .assign cmd => (s.calls.assign () cmd).map fun calls ↦ { s with calls := calls }
      | .post => s.post
      | .takeFuture => (s.calls.takeFuture ()).map fun calls ↦ { s with calls := calls }
      | .wait => (s.calls.wait ()).map fun calls ↦ { s with calls := calls }
      | .lifecycle action => s.lifecycleStep cycle action

/-! ### Statements -/

/-- A caller that is blocked on its future has its event in the queue of a machine that runs and
was not told to stop. -/
def NoneHanging (s : ServedCalls) : Prop :=
  ∀ cmd number future, s.calls.threads () = .waiting cmd number future →
    s.calls.prom.get future = none →
      s.run = .running ∧ s.stop = false ∧
        ⟨.cmdEvent cmd, .command number⟩ ∈ s.calls.machine.queue

/-- The event of a call is posted while the machine runs and was not told to stop, and the machine
is told to stop while no command is in its queue. -/
def AnswerableStep (s : ServedCalls) : ServedAction → Prop
  | .post => s.run = .running ∧ s.stop = false
  | .lifecycle .deactivate => s.calls.machine.queuedCommands = []
  | _ => True

instance (s : ServedCalls) : DecidablePred (AnswerableStep s)
  | .post => inferInstanceAs (Decidable (s.run = .running ∧ s.stop = false))
  | .lifecycle .deactivate =>
    inferInstanceAs (Decidable (s.calls.machine.queuedCommands = []))
  | .assign _ | .takeFuture | .wait | .lifecycle (.activate _) | .lifecycle .started
  | .lifecycle .stopped | .lifecycle (.machine _) => inferInstanceAs (Decidable True)

/-- The calls are in order, and a machine that does not go on has no command in its queue. -/
structure ServedInvariant (s : ServedCalls) : Prop where
  calls : ∃ active, CallInvariant s.calls active
  queued : ¬ (s.run = .running ∧ s.stop = false) → s.calls.machine.queuedCommands = []

section

variable {cycle : Cycle} {s t : ServedCalls}

/-! ### The steps of the caller -/

theorem served_post_spec (hnext : s.post = some t) :
    ∃ cmd, s.calls.threads () = .assigned cmd ∧ t = { s with calls :=
      { s.calls with
        machine := s.lifecycle.post cmd
        threads := Function.update s.calls.threads ()
          (.posted cmd s.calls.machine.commands) } } := by
  unfold ServedCalls.post at hnext
  split at hnext
  · rename_i cmd hphase
    exact ⟨cmd, hphase, (Option.some.inj hnext).symm⟩
  · cases hnext

/-- Posting to a machine that runs is the statement of a call. -/
theorem servedInvariant_post (hs : ServedInvariant s)
    (hallowed : s.run = .running ∧ s.stop = false) (hnext : s.post = some t) :
    ServedInvariant t := by
  obtain ⟨active, hcalls⟩ := hs.calls
  obtain ⟨cmd, hphase, rfl⟩ := served_post_spec hnext
  have hpost : s.lifecycle.post cmd = s.calls.machine.post cmd := by
    simp [Lifecycle.post, Lifecycle.isActive, ServedCalls.lifecycle, hallowed.1]
  have hcall : s.calls.post () = some { s.calls with
      machine := s.lifecycle.post cmd
      threads := Function.update s.calls.threads ()
        (.posted cmd s.calls.machine.commands) } := by
    rw [CommandCalls.post, hphase, hpost]
  exact ⟨⟨_, callInvariant_post hcalls hcall⟩, fun hstopped ↦ absurd hallowed hstopped⟩

/-- The other statements leave the machine. -/
theorem servedInvariant_statement (hs : ServedInvariant s) {calls : CommandCalls Unit}
    (hcalls : ∃ active, CallInvariant calls active) (hmachine : calls.machine = s.calls.machine) :
    ServedInvariant { s with calls := calls } :=
  ⟨hcalls, fun hstopped ↦ (congrArg Execution.queuedCommands hmachine).trans (hs.queued hstopped)⟩

/-! ### The steps of the machine -/

/-- The steps of the machine other than a post or a selection. -/
theorem lifecycleStep_spec {action : LifecycleAction} (hselect : action ≠ .machine .select)
    (hnext : s.lifecycleStep cycle action = some t) :
    (∀ cmd, action ≠ .machine (.post cmd)) ∧
      ∃ next, (PackML.lifecycle cycle).next s.lifecycle action = some next ∧
        t = ⟨{ s.calls with machine := next.machine }, next.run, next.stop⟩ := by
  unfold ServedCalls.lifecycleStep at hnext
  split at hnext
  · cases hnext
  · exact absurd rfl hselect
  · rename_i hpost _
    obtain ⟨next, hstep, rfl⟩ := Option.map_eq_some_iff.mp hnext
    exact ⟨hpost, next, hstep, rfl⟩

/-- A step of a machine, running or not, that is no post and no selection leaves the commands in
the queue. -/
theorem queuedCommands_machineStep {s : Lifecycle} {action : Action} {machine : Execution}
    (hpost : ∀ cmd, action ≠ .post cmd) (hselect : action ≠ .select)
    (hnext : s.machineStep cycle action = some machine) :
    machine.queuedCommands = s.machine.queuedCommands ∧
      machine.commands = s.machine.commands := by
  cases hactive : s.isActive with
  | true => exact queuedCommands_step hpost hselect (machineStep_of_isActive hactive hnext)
  | false =>
    obtain ⟨-, -, hqueue, -, -, -, hcommands⟩ := machineStep_of_not_isActive hactive hnext
    exact ⟨by rw [Execution.queuedCommands, hqueue, Execution.queuedCommands], hcommands hpost⟩

/-- A selection is made by a machine that goes on. -/
theorem servedInvariant_select (hs : ServedInvariant s)
    (hnext : s.lifecycleStep cycle (.machine .select) = some t) : ServedInvariant t := by
  obtain ⟨active, hcalls⟩ := hs.calls
  obtain ⟨next, hstep, rfl⟩ := Option.map_eq_some_iff.mp hnext
  obtain ⟨machine, hmachine, rfl⟩ := Option.map_eq_some_iff.mp hstep
  obtain ⟨⟨hactive, hstop⟩, hselect⟩ := Option.ite_none_right_eq_some.mp hmachine
  exact ⟨callInvariant_select hcalls hselect, fun hstopped ↦
    absurd ⟨of_decide_eq_true hactive, hstop⟩ hstopped⟩

/-- Another step of the machine keeps the invariant when it leaves the commands in the queue and
the machine goes on afterwards only if it did before or has no command. -/
theorem servedInvariant_frame (hs : ServedInvariant s) {next : Lifecycle}
    (hqueued : next.machine.queuedCommands = s.calls.machine.queuedCommands)
    (hcommands : next.machine.commands = s.calls.machine.commands)
    (hstopped : ¬ (next.run = .running ∧ next.stop = false) →
      s.calls.machine.queuedCommands = []) :
    ServedInvariant ⟨{ s.calls with machine := next.machine }, next.run, next.stop⟩ := by
  obtain ⟨active, hcalls⟩ := hs.calls
  exact ⟨⟨active, hcalls.machineStep hqueued hcommands⟩, fun h ↦ hqueued.trans (hstopped h)⟩

theorem servedInvariant_lifecycle (hs : ServedInvariant s) {action : LifecycleAction}
    (hallowed : AnswerableStep s (.lifecycle action))
    (hnext : s.lifecycleStep cycle action = some t) : ServedInvariant t := by
  by_cases hselect : action = .machine .select
  · subst hselect
    exact servedInvariant_select hs hnext
  obtain ⟨hpost, next, hstep, rfl⟩ := lifecycleStep_spec hselect hnext
  cases action with
  | activate application =>
    obtain rfl := Option.some.inj hstep
    obtain ⟨hmachine, hstop, hrun⟩ := activate_machine s.lifecycle application
    refine servedInvariant_frame hs (by rw [hmachine]; rfl) (by rw [hmachine]; rfl) fun h ↦ ?_
    rcases hrun with hsame | ⟨hbefore, -⟩
    · rw [hsame, hstop] at h
      exact hs.queued h
    · have hnot : s.run ≠ .running := by
        rw [show s.run = .notRunning from hbefore]
        decide
      exact hs.queued fun hgoes ↦ hnot hgoes.1
  | started =>
    obtain ⟨hbefore, rfl⟩ := started_spec hstep
    have hnone : s.calls.machine.queuedCommands = [] := by
      refine hs.queued fun hgoes ↦ ?_
      cases hgoes.1.symm.trans hbefore
    exact servedInvariant_frame hs hnone.symm rfl fun _ ↦ hnone
  | deactivate =>
    obtain rfl := Option.some.inj hstep
    obtain ⟨hmachine, -⟩ := deactivate_machine s.lifecycle
    exact servedInvariant_frame hs (by rw [hmachine]; rfl) (by rw [hmachine]; rfl) fun _ ↦ hallowed
  | stopped =>
    obtain ⟨-, hstop, -, rfl⟩ := stopped_spec hstep
    refine servedInvariant_frame hs rfl rfl fun _ ↦ hs.queued fun hgoes ↦ ?_
    cases hgoes.2.symm.trans hstop
  | machine action =>
    obtain ⟨machine, hmachine, rfl⟩ := Option.map_eq_some_iff.mp hstep
    obtain ⟨hqueued, hcommands⟩ := queuedCommands_machineStep
      (fun cmd heq ↦ hpost cmd (congrArg _ heq)) (fun heq ↦ hselect (congrArg _ heq)) hmachine
    exact servedInvariant_frame hs hqueued hcommands hs.queued

/-! ### The result -/

theorem servedInvariant_step (hs : ServedInvariant s) {action : ServedAction}
    (hallowed : AnswerableStep s action) (hnext : (servedCalls cycle).next s action = some t) :
    ServedInvariant t := by
  obtain ⟨-, hnext⟩ := Option.ite_none_left_eq_some.mp hnext
  cases action with
  | assign cmd =>
    obtain ⟨calls, hassign, rfl⟩ := Option.map_eq_some_iff.mp hnext
    obtain ⟨active, hcalls⟩ := hs.calls
    have hothers : ∀ other, other ≠ () → s.calls.isSettled other = true :=
      fun other hother ↦ absurd rfl hother
    refine servedInvariant_statement hs ⟨_, callInvariant_assign hcalls hothers hassign⟩ ?_
    obtain ⟨-, rfl⟩ := assign_spec hassign
    rfl
  | post => exact servedInvariant_post hs hallowed hnext
  | takeFuture =>
    obtain ⟨calls, htake, rfl⟩ := Option.map_eq_some_iff.mp hnext
    obtain ⟨active, hcalls⟩ := hs.calls
    refine servedInvariant_statement hs (callInvariant_takeFuture hcalls htake) ?_
    obtain ⟨cmd, number, -, ⟨future, prom, -, rfl⟩ | ⟨error, -, rfl⟩⟩ := takeFuture_spec htake
    · rfl
    · rfl
  | wait =>
    obtain ⟨calls, hwait, rfl⟩ := Option.map_eq_some_iff.mp hnext
    obtain ⟨active, hcalls⟩ := hs.calls
    refine servedInvariant_statement hs ⟨active, callInvariant_wait hcalls hwait⟩ ?_
    obtain ⟨cmd, number, future, -, ⟨verdict, -, rfl⟩ | ⟨error, -, rfl⟩⟩ := wait_spec hwait
    · rfl
    · rfl
  | lifecycle action => exact servedInvariant_lifecycle hs hallowed hnext

/-- No call hangs along the runs in which a call posts its event only while the machine runs and was
not told to stop, and the machine is told to stop only while no command is in its queue. -/
theorem calls_never_hang (hrun : (servedCalls cycle).ReachableBy AnswerableStep s) :
    NoneHanging s := by
  have hs : ServedInvariant s := by
    refine hrun.invariant ?_ ?_
    · rintro s ⟨stateValue, rfl⟩
      exact ⟨⟨none, rfl, fun _ _ ↦ rfl, fun _ _ ↦ trivial, rfl⟩, fun _ ↦ rfl⟩
    · intro s action t hs hallowed hnext
      exact servedInvariant_step hs hallowed hnext
  intro cmd number future hphase hpending
  obtain ⟨active, hcalls⟩ := hs.calls
  obtain ⟨-, hunprocessed⟩ := hcalls.unprocessed_of_pending hphase hpending
  have hgoes : s.run = .running ∧ s.stop = false := by
    by_contra hstopped
    cases hunprocessed.queued.symm.trans (hs.queued hstopped)
  exact ⟨hgoes.1, hgoes.2, hunprocessed.mem_queue⟩

end

/-! ### Runs -/

/-- CLEAR is called after the machine has started, and the caller is blocked. -/
def callWhileRunning : List ServedAction :=
  [.lifecycle (.activate true), .lifecycle .started, .assign .clear, .post, .takeFuture]

theorem calls_never_hang_callWhileRunning :
    ∃ s, (servedCalls .singleCycle).runFrom (.constructed .undefined) callWhileRunning = some s ∧
      s.calls.threads () = .waiting .clear 0 1 ∧ s.calls.prom.get 1 = none ∧ NoneHanging s := by
  have hend : ((servedCalls .singleCycle).runFrom (.constructed .undefined)
      callWhileRunning).map (fun s ↦ (s.calls.threads (), s.calls.prom.get 1)) =
        some (.waiting .clear 0 1, none) := rfl
  obtain ⟨s, hrun, hs⟩ := Option.map_eq_some_iff.mp hend
  obtain ⟨hphase, hpending⟩ := Prod.mk.injEq .. ▸ hs
  have hallowed : (servedCalls .singleCycle).AllowedAlong AnswerableStep callWhileRunning
      (.constructed .undefined) := by
    decide +kernel
  exact ⟨s, hrun, hphase, hpending, calls_never_hang
    (TransitionSystem.reachableBy_of_runFrom (.initial ⟨_, rfl⟩) _ hallowed hrun)⟩

/-- CLEAR is called before `activate`, which is called while the caller is blocked. -/
def callBeforeActivate : List ServedAction :=
  [.assign .clear, .post, .takeFuture, .lifecycle (.activate true), .lifecycle .started,
    .lifecycle (.machine .notified)]

/-- The event was discarded, and the caller stays blocked on a machine that runs without it. -/
theorem call_before_activate :
    ∃ s, (servedCalls .singleCycle).runFrom (.constructed .undefined) callBeforeActivate = some s ∧
      s.calls.threads () = .waiting .clear 0 1 ∧ s.calls.prom.get 1 = none ∧
      s.run = .running ∧ s.calls.machine.phase = .idle ∧ s.calls.machine.queue = [] ∧
      ¬ NoneHanging s := by
  have hend : ((servedCalls .singleCycle).runFrom (.constructed .undefined)
      callBeforeActivate).map (fun s ↦ (s.calls.threads (), s.calls.prom.get 1, s.run,
        s.calls.machine.phase, s.calls.machine.queue)) =
        some (.waiting .clear 0 1, none, .running, .idle, []) := rfl
  obtain ⟨s, hrun, hs⟩ := Option.map_eq_some_iff.mp hend
  simp only [Prod.mk.injEq] at hs
  obtain ⟨hphase, hpending, hrunning, hidle, hqueue⟩ := hs
  refine ⟨s, hrun, hphase, hpending, hrunning, hidle, hqueue, fun hnone ↦ ?_⟩
  obtain ⟨-, -, hmem⟩ := hnone _ _ _ hphase hpending
  rw [hqueue] at hmem
  cases hmem

end PackML
