import PackML.Execution.TruthfulVerdicts

/-!
# Mode changes of a client that also gives commands

One client calls commands and `changeMode` in program order: it begins the next call when the last
one has returned. `startPending` records that START was accepted and IDLE not entered since, and
`changes` what the machine was doing when each mode was installed.

`ModeChange.AtRest` says that IDLE is the active leaf, that no command is being carried out and
that no START is pending. The guard of `mode_switcher` does not ensure it, because it reads
`state_value_`, which still names IDLE after `start()` has returned true and until STARTING is
entered (`mode_change_while_starting`). `GuardedAtRest` excludes two steps: the guard is not
evaluated while the machine is carrying out a command or has left its state, and the machine does
not leave IDLE between the guard and the installation of the mode. `mode_changes_at_rest` follows
by the invariant `ModeClientInvariant`.
-/

set_option autoImplicit false
set_option relaxedAutoImplicit false

namespace PackML

/-! ### The client -/

/-- Whether a command that was accepted is being carried out. -/
def Phase.carriesOutCommand : Phase → Bool
  | .leaving ⟨.cmdEvent _, _⟩ _ | .entering ⟨.cmdEvent _, _⟩ _ => true
  | _ => false

/-- Whether the last state entered has been left. -/
def Phase.hasLeft : Phase → Bool
  | .entering _ _ => true
  | _ => false

/-- Whether a machine has no mode yet. -/
def Execution.unmoded (s : Execution) : Bool :=
  s.gen.currentMode.name == ""

/-- What the machine was doing when a mode was installed. -/
structure ModeChange where
  mode : ModeType
  first : Bool
  configuration : List PackmlState
  phase : Phase
  startPending : Bool

/-- The machine rests in IDLE: it is the active leaf, no command is being carried out, and IDLE has
been entered since START was last accepted. -/
structure ModeChange.AtRest (change : ModeChange) : Prop where
  leaf : chart.activeLeaves change.configuration = [State.idle.generated]
  carriesOutCommand : change.phase.carriesOutCommand = false
  startPending : change.startPending = false

/-- A machine with its single client. -/
structure ModeClient where
  calls : CommandCalls Unit
  startPending : Bool
  changes : List ModeChange

namespace ModeClient

variable (s : ModeClient)

/-- The client is in one call at a time. -/
def inProgramOrder : CallAction Unit → Bool
  | .assign _ _ => s.calls.machine.switching.isNone
  | .machine (.changeMode _) => (s.calls.threads ()).atRest
  | _ => true

/-- Whether the first event of the queue is a START that the machine accepts. -/
def acceptsStart (cycle : Cycle) : Bool :=
  match s.calls.machine.queue with
  | ⟨.cmdEvent .start, _⟩ :: _ => (s.calls.machine.processCommand cycle .start).accepted
  | _ => false

/-- Whether a START is pending after a step. -/
def startPendingAfter (cycle : Cycle) (next : CommandCalls Unit) : CallAction Unit → Bool
  | .machine .select => s.startPending || s.acceptsStart cycle
  | .machine .enter => s.startPending && decide (next.machine.stateValue ≠ .idle)
  | _ => s.startPending

/-- The mode changes after a step. -/
def changesAfter : CallAction Unit → List ModeChange
  | .machine .modeSwitched =>
    s.changes ++ s.calls.machine.switching.toList.map fun mode ↦
      ⟨mode, s.calls.machine.unmoded, s.calls.machine.configuration, s.calls.machine.phase,
        s.startPending⟩
  | _ => s.changes

end ModeClient

/-- The runs of an activated machine and one client that calls it in program order. -/
def modeClient (cycle : Cycle) : TransitionSystem ModeClient (CallAction Unit) where
  initial s := s = ⟨.activated, false, []⟩
  next s action :=
    if s.inProgramOrder action then
      ((commandCalls cycle Unit).next s.calls action).map fun next ↦
        ⟨next, s.startPendingAfter cycle next action, s.changesAfter action⟩
    else none

/-- The guard of a mode change is not evaluated in IDLE while the machine is carrying out a command
or has left IDLE, and IDLE is not left while a mode change has passed its guard. The first mode
change is exempt. -/
def GuardedAtRest (s : ModeClient) : CallAction Unit → Prop
  | .machine (.changeMode _) =>
    s.calls.machine.unmoded = false → s.calls.machine.stateValue = .idle →
      s.calls.machine.phase.carriesOutCommand = false ∧ s.calls.machine.phase.hasLeft = false
  | .machine .leave => s.calls.machine.unmoded = false → s.calls.machine.switching = none
  | _ => True

instance (s : ModeClient) : (action : CallAction Unit) → Decidable (GuardedAtRest s action)
  | .machine (.changeMode _) => inferInstanceAs (Decidable (_ → _ → _ ∧ _))
  | .machine .leave => inferInstanceAs (Decidable (_ → _))
  | .machine (.post _) | .machine (.finish _ _) | .machine .select | .machine .enter
  | .machine .notified | .machine .modeSwitched | .assign _ _ | .post _ | .takeFuture _
  | .wait _ => inferInstanceAs (Decidable True)

/-! ### The invariant -/

/-- A client that is in the middle of a mode change of a machine with a mode: the machine is still
in IDLE, no command is under way, and the client is in no call. -/
structure SwitchingAtRest (s : ModeClient) : Prop where
  stateValue : s.calls.machine.stateValue = .idle
  carriesOutCommand : s.calls.machine.phase.carriesOutCommand = false
  hasLeft : s.calls.machine.phase.hasLeft = false
  startPending : s.startPending = false
  atRest : (s.calls.threads ()).atRest = true

/-- A pending START keeps the machine away from rest in IDLE, a mode change in progress keeps it
there, and all changes after the first were made there. -/
structure ModeClientInvariant (s : ModeClient) : Prop where
  pending : s.startPending = true → s.calls.machine.stateValue = .idle →
    s.calls.machine.phase.carriesOutCommand = true
  switching : s.calls.machine.unmoded = false → s.calls.machine.switching ≠ none →
    SwitchingAtRest s
  changes : ∀ change ∈ s.changes, change.first = false → change.AtRest

section Steps

variable {cycle : Cycle} {s t : ModeClient}

/-- What a step of the client or the machine is. -/
theorem modeClient_spec {action : CallAction Unit}
    (hnext : (modeClient cycle).next s action = some t) :
    s.inProgramOrder action = true ∧ ∃ next,
      (commandCalls cycle Unit).next s.calls action = some next ∧
        t = ⟨next, s.startPendingAfter cycle next action, s.changesAfter action⟩ := by
  obtain ⟨horder, hnext⟩ := Option.ite_none_right_eq_some.mp hnext
  obtain ⟨next, hcalls, rfl⟩ := Option.map_eq_some_iff.mp hnext
  exact ⟨horder, next, hcalls, rfl⟩

/-- The calls of a reachable client are reachable. -/
theorem calls_reachable (hrun : (modeClient cycle).Reachable s) :
    (commandCalls cycle Unit).Reachable s.calls := by
  refine hrun.project ModeClient.calls ?_ ?_
  · rintro s rfl
    rfl
  · intro s action t hnext
    obtain ⟨-, next, hcalls, rfl⟩ := modeClient_spec hnext
    exact Or.inr ⟨action, hcalls⟩

/-- While the client is in no call, no command is in the queue. -/
theorem queuedCommands_eq_nil (hrun : (commandCalls cycle Unit).Reachable s.calls)
    (hrest : (s.calls.threads ()).atRest = true) : s.calls.machine.queuedCommands = [] := by
  have hguarded := hrun.mono fun s action _ ↦ settledBeforeAssign_of_subsingleton s action
  obtain ⟨active, hinv⟩ := callInvariant_of_reachableBy hguarded
  have hturn := hinv.turn
  cases active with
  | none => exact hturn
  | some thread =>
    unfold CommandCalls.Turn at hturn
    cases hphase : s.calls.threads thread <;> simp_all [CallPhase.atRest]

/-- A START that is accepted in IDLE is selected. -/
theorem selected_of_acceptsStart {rest : List PostedEvent} {event : PostedEvent}
    (hs : Located cycle s.calls.machine s.calls.machine.stateValue)
    (hphase : s.calls.machine.phase = .idle) (hqueue : s.calls.machine.queue = event :: rest)
    (haccepts : s.acceptsStart cycle = true) (hidle : s.calls.machine.stateValue = .idle) :
    event.event = .cmdEvent .start ∧
      selected cycle s.calls.machine.gen.available .idle event.event ≠ none := by
  unfold ModeClient.acceptsStart at haccepts
  split at haccepts
  · rename_i origin tail hfirst
    obtain ⟨rfl, -⟩ := List.cons.inj (hqueue.symm.trans hfirst)
    have hconfiguration := hs.configuration_eq (by simp [hphase])
    rw [hidle] at hconfiguration
    simp only [Execution.processCommand, hconfiguration] at haccepts
    rw [accepted_eq_isSome cycle _ (by decide) (by decide)] at haccepts
    exact ⟨rfl, Option.isSome_iff_ne_none.mp haccepts⟩
  · cases haccepts

/-- While the client is in the middle of a mode change no START is accepted. -/
theorem SwitchingAtRest.not_acceptsStart (hrun : (commandCalls cycle Unit).Reachable s.calls)
    (hs : SwitchingAtRest s) : s.acceptsStart cycle = false := by
  have hqueued := queuedCommands_eq_nil hrun hs.atRest
  unfold ModeClient.acceptsStart
  split
  · rename_i origin rest hqueue
    simp [Execution.queuedCommands, hqueue] at hqueued
  · rfl

/-- A step that leaves the phase, the stored state, the mode and the client's call keeps the
invariant. -/
theorem ModeClientInvariant.frame (hs : ModeClientInvariant s)
    (hphase : t.calls.machine.phase = s.calls.machine.phase)
    (hvalue : t.calls.machine.stateValue = s.calls.machine.stateValue)
    (hgen : t.calls.machine.gen = s.calls.machine.gen)
    (hswitching : t.calls.machine.switching = s.calls.machine.switching)
    (hpending : t.startPending = s.startPending) (hchanges : t.changes = s.changes)
    (hthread : SwitchingAtRest s → s.calls.machine.switching ≠ none →
      t.calls.threads () = s.calls.threads ()) :
    ModeClientInvariant t where
  pending h hidle := by
    rw [hphase]
    exact hs.pending (hpending ▸ h) (hvalue ▸ hidle)
  switching hmoded hsome := by
    rw [hswitching] at hsome
    have hmode : s.calls.machine.unmoded = false := by
      simpa [Execution.unmoded, hgen] using hmoded
    have hrests := hs.switching hmode hsome
    exact ⟨hvalue.trans hrests.stateValue, hphase ▸ hrests.carriesOutCommand,
      hphase ▸ hrests.hasLeft, hpending.trans hrests.startPending,
      hthread hrests hsome ▸ hrests.atRest⟩
  changes := hchanges ▸ hs.changes

/-- A statement of a call keeps the invariant. -/
theorem modeClientInvariant_call (hs : ModeClientInvariant s) {action : CallAction Unit}
    {next : CommandCalls Unit} (hcall : ∀ step, action ≠ .machine step)
    (horder : s.inProgramOrder action = true)
    (hnext : (commandCalls cycle Unit).next s.calls action = some next) :
    ModeClientInvariant ⟨next, s.startPendingAfter cycle next action, s.changesAfter action⟩ := by
  have hpending : s.startPendingAfter cycle next action = s.startPending := by
    cases action with
    | machine step => exact absurd rfl (hcall step)
    | _ => rfl
  have hchanges : s.changesAfter action = s.changes := by
    cases action with
    | machine step => exact absurd rfl (hcall step)
    | _ => rfl
  have hthread : SwitchingAtRest s → s.calls.machine.switching ≠ none →
      next.threads () = s.calls.threads () := by
    intro hrests hswitching
    have hassign : ∀ cmd, action ≠ .assign () cmd := by
      rintro cmd rfl
      exact hswitching (Option.isNone_iff_eq_none.mp horder)
    obtain ⟨step, rfl⟩ := machine_of_atRest hrests.atRest hassign hnext
    exact absurd rfl (hcall step)
  rcases call_step_spec hnext with ⟨-, hmachine | ⟨cmd, hmachine⟩⟩ | ⟨step, hstep, -⟩
  · exact hs.frame (by rw [hmachine]) (by rw [hmachine]) (by rw [hmachine]) (by rw [hmachine])
      hpending hchanges hthread
  · exact hs.frame (by rw [hmachine]; rfl) (by rw [hmachine]; rfl) (by rw [hmachine]; rfl)
      (by rw [hmachine]; rfl) hpending hchanges hthread
  · exact absurd hstep (hcall step)

/-- The selection step under a client: a START that is accepted in IDLE is now being carried out,
and no command is selected in the middle of a mode change. -/
theorem modeClientInvariant_select (hcalls : (commandCalls cycle Unit).Reachable s.calls)
    (hs : ModeClientInvariant s) {machine : Execution}
    (hnext : s.calls.machine.select cycle = some machine) :
    ModeClientInvariant ⟨{ s.calls.endSelectTransitions cycle with machine := machine },
      s.startPending || s.acceptsStart cycle, s.changes⟩ := by
  have hlocated := located_stateValue (machine_reachable hcalls)
  obtain ⟨event, rest, hphase, hqueue, hselect⟩ := select_spec hlocated hnext
  refine ⟨fun hpending hidle ↦ ?_, fun hmoded hswitching ↦ ?_, hs.changes⟩
  · have hvalue : s.calls.machine.stateValue = .idle := by
      rcases hselect with ⟨-, rfl⟩ | ⟨source, transition, -, rfl⟩ <;> exact hidle
    have haccepts : s.acceptsStart cycle = true := by
      refine (Bool.or_eq_true_iff.mp hpending).resolve_left fun hold ↦ ?_
      simpa [hphase, Phase.carriesOutCommand] using hs.pending hold hvalue
    obtain ⟨hstart, hselected⟩ := selected_of_acceptsStart hlocated hphase hqueue haccepts hvalue
    obtain ⟨event, origin⟩ := event
    obtain rfl : event = .cmdEvent .start := hstart
    rcases hselect with ⟨hnone, -⟩ | ⟨source, transition, -, rfl⟩
    · exact absurd (hvalue ▸ hnone) hselected
    · rfl
  · have hmoded' : s.calls.machine.unmoded = false := by
      rcases hselect with ⟨-, rfl⟩ | ⟨source, transition, -, rfl⟩ <;> exact hmoded
    have hswitching' : s.calls.machine.switching ≠ none := by
      rcases hselect with ⟨-, rfl⟩ | ⟨source, transition, -, rfl⟩ <;> exact hswitching
    have hrests := hs.switching hmoded' hswitching'
    have hqueued := queuedCommands_eq_nil hcalls hrests.atRest
    have hthread : (s.calls.endSelectTransitions cycle).threads () = s.calls.threads () :=
      congrFun (endSelectTransitions_threads cycle s.calls) ()
    have hpending : (s.startPending || s.acceptsStart cycle) = false := by
      rw [hrests.startPending, hrests.not_acceptsStart hcalls]
      rfl
    rcases hselect with ⟨-, rfl⟩ | ⟨source, transition, -, rfl⟩
    · exact ⟨hrests.stateValue, hrests.carriesOutCommand, hrests.hasLeft, hpending,
        hthread ▸ hrests.atRest⟩
    · refine ⟨hrests.stateValue, ?_, rfl, hpending, hthread ▸ hrests.atRest⟩
      obtain ⟨event, origin⟩ := event
      cases event with
      | cmdEvent cmd => simp [Execution.queuedCommands, hqueue] at hqueued
      | stateCompleteEvent => rfl
      | errorEvent code => rfl

/-- The other steps of the machine under a client. -/
theorem modeClientInvariant_machine (hcalls : (commandCalls cycle Unit).Reachable s.calls)
    (hs : ModeClientInvariant s) {step : Action} {machine : Execution}
    (hallowed : GuardedAtRest s (.machine step)) (horder : s.inProgramOrder (.machine step) = true)
    (hselect : step ≠ .select) (hpost : ∀ cmd, step ≠ .post cmd)
    (hnext : (execution cycle).next s.calls.machine step = some machine) :
    ModeClientInvariant ⟨{ s.calls with machine := machine },
      s.startPendingAfter cycle { s.calls with machine := machine } (.machine step),
      s.changesAfter (.machine step)⟩ := by
  have hlocated := located_stateValue (machine_reachable hcalls)
  cases step with
  | post cmd => exact absurd rfl (hpost cmd)
  | select => exact absurd rfl hselect
  | finish activation code =>
    obtain ⟨-, rfl⟩ := finish_spec hnext
    exact hs.frame rfl rfl rfl rfl rfl rfl fun _ _ ↦ rfl
  | leave =>
    obtain ⟨event, source, transition, target, hphase, -, -, rfl⟩ := leave_spec hlocated hnext
    refine ⟨fun hpending hidle ↦ ?_, fun hmoded hswitching ↦ ?_, hs.changes⟩
    · have hcarries := hs.pending hpending hidle
      rw [hphase] at hcarries
      obtain ⟨event, origin⟩ := event
      cases event with
      | cmdEvent cmd => rfl
      | stateCompleteEvent => cases hcarries
      | errorEvent code => cases hcarries
    · exact absurd (hallowed hmoded) hswitching
  | enter =>
    obtain ⟨event, source, transition, target, hphase, -, rfl⟩ := enter_spec hlocated hnext
    refine ⟨fun hpending hidle ↦ ?_, fun hmoded hswitching ↦ ?_, hs.changes⟩
    · obtain ⟨-, hne⟩ := Bool.and_eq_true_iff.mp hpending
      exact absurd hidle (of_decide_eq_true hne)
    · have hleft := (hs.switching hmoded hswitching).hasLeft
      simp [hphase, Phase.hasLeft] at hleft
  | notified =>
    obtain ⟨hphase, hnext⟩ := notified_spec hlocated hnext
    have hidle : machine.phase = .idle ∧ machine.stateValue = s.calls.machine.stateValue ∧
        machine.unmoded = s.calls.machine.unmoded ∧
        machine.switching = s.calls.machine.switching := by
      rcases hnext with ⟨-, rfl⟩ | ⟨-, rfl⟩ <;> exact ⟨rfl, rfl, rfl, rfl⟩
    obtain ⟨hphase', hvalue, hunmoded, hswitch⟩ := hidle
    refine ⟨fun hpending hidle ↦ ?_, fun hmoded hswitching ↦ ?_, hs.changes⟩
    · have hcarries := hs.pending hpending (hvalue ▸ hidle)
      simp [hphase, Phase.carriesOutCommand] at hcarries
    · obtain ⟨hrest, -, -, hnot, hthread⟩ := hs.switching (hunmoded ▸ hmoded) (hswitch ▸ hswitching)
      exact ⟨hvalue.trans hrest, by simp [hphase', Phase.carriesOutCommand],
        by simp [hphase', Phase.hasLeft], hnot, hthread⟩
  | changeMode mode =>
    obtain ⟨hnone, ⟨hswitch, rfl⟩ | ⟨-, rfl⟩⟩ := changeMode_spec hnext
    · refine ⟨hs.pending, fun hmoded _ ↦ ?_, hs.changes⟩
      have hidle : s.calls.machine.stateValue = .idle := by
        have hname : (s.calls.machine.gen.currentMode.name == "") = false := hmoded
        simpa [StatesGenerator.canSwitch, switchStates, hname] using hswitch
      obtain ⟨hcarries, hleft⟩ := hallowed hmoded hidle
      refine ⟨hidle, hcarries, hleft, Bool.eq_false_iff.mpr fun hpending ↦ ?_, horder⟩
      have hbusy := hs.pending hpending hidle
      rw [hcarries] at hbusy
      cases hbusy
    · exact hs
  | modeSwitched =>
    obtain ⟨mode, hmode, rfl⟩ := modeSwitched_spec hnext
    refine ⟨hs.pending, fun _ hswitching ↦ absurd rfl hswitching, ?_⟩
    intro change hchange hfirst
    rcases List.mem_append.mp hchange with hold | hnew
    · exact hs.changes change hold hfirst
    · simp only [hmode, Option.toList_some, List.map_cons, List.map_nil, List.mem_singleton] at hnew
      subst hnew
      have hrests := hs.switching hfirst (by simp [hmode])
      have hconfiguration := hlocated.configuration_eq fun event selection hphase ↦ by
        have hleft := hrests.hasLeft
        simp [hphase, Phase.hasLeft] at hleft
      refine ⟨?_, hrests.carriesOutCommand, hrests.startPending⟩
      rw [hconfiguration, hrests.stateValue, chart_activeLeaves_path]

theorem modeClientInvariant_step (hcalls : (commandCalls cycle Unit).Reachable s.calls)
    (hs : ModeClientInvariant s) {action : CallAction Unit} (hallowed : GuardedAtRest s action)
    (hnext : (modeClient cycle).next s action = some t) : ModeClientInvariant t := by
  obtain ⟨horder, next, hstep, rfl⟩ := modeClient_spec hnext
  cases action with
  | machine step =>
    obtain ⟨-, hmove⟩ := Option.ite_none_left_eq_some.mp hstep
    obtain ⟨machine, hmachine, ⟨rfl, rfl⟩ | ⟨hselect, hpost, rfl⟩⟩ := machineStep_spec hmove
    · exact modeClientInvariant_select hcalls hs hmachine
    · exact modeClientInvariant_machine hcalls hs hallowed horder hselect hpost hmachine
  | _ => exact modeClientInvariant_call hs (by simp) horder hstep

/-- Every mode after the first is installed at rest in IDLE, along the runs in which no guard is
evaluated while the machine is about to leave IDLE for a command or has left it, and IDLE is not
left between the guard and the installation. -/
theorem mode_changes_at_rest (hrun : (modeClient cycle).ReachableBy GuardedAtRest s) :
    ∀ change ∈ s.changes, change.first = false → change.AtRest := by
  have hinv : ModeClientInvariant s := by
    refine TransitionSystem.ReachableBy.invariant_of_reachable
      (fun s hs ↦ calls_reachable hs) ?_ ?_ hrun
    · rintro s rfl
      refine ⟨fun hpending ↦ ?_, fun _ hswitching ↦ absurd rfl hswitching, fun change hchange ↦ ?_⟩
      · cases hpending
      · cases hchange
    · intro s action t hcalls hs hallowed hnext
      exact modeClientInvariant_step hcalls hs hallowed hnext
  exact hinv.changes

end Steps

/-! ### Runs -/

/-- The statements of a call that returns, with its event processed in between. -/
def completeCall (cmd : TransitionCmd) : List (CallAction Unit) :=
  [.assign () cmd, .post (), .takeFuture (), .machine .select, .wait ()]

/-- The state is left, the target entered and its notification over. -/
def completeEntry : List (CallAction Unit) :=
  [.machine .leave, .machine .enter, .machine .notified]

/-- The client sets a mode and takes the machine to IDLE. -/
def idleRun : List (CallAction Unit) :=
  [.machine (.changeMode .manual), .machine .modeSwitched, .machine .notified] ++
    completeCall .clear ++ completeEntry ++
    [.machine (.finish ⟨.clearing, 0⟩ 0), .machine .select] ++ completeEntry ++
    completeCall .reset ++ completeEntry ++
    [.machine (.finish ⟨.resetting, 1⟩ 0), .machine .select] ++ completeEntry

/-- The client changes the mode in IDLE. -/
def changeInIdleRun : List (CallAction Unit) :=
  idleRun ++ [.machine (.changeMode .maintenance), .machine .modeSwitched]

theorem mode_changes_at_rest_changeInIdleRun :
    ∃ s, (modeClient .singleCycle).runFrom ⟨.activated, false, []⟩ changeInIdleRun = some s ∧
      ∃ change ∈ s.changes, change.mode = .maintenance ∧ change.AtRest := by
  have hend : ((modeClient .singleCycle).runFrom ⟨.activated, false, []⟩ changeInIdleRun).map
      (fun s ↦ s.changes.map fun change ↦ (change.mode, change.first)) =
        some [(.manual, true), (.maintenance, false)] := rfl
  obtain ⟨s, hrun, hchanges⟩ := Option.map_eq_some_iff.mp hend
  have hallowed : (modeClient .singleCycle).AllowedAlong GuardedAtRest changeInIdleRun
      ⟨.activated, false, []⟩ := by
    decide +kernel
  have hmem : (ModeType.maintenance, false) ∈
      s.changes.map fun change ↦ (change.mode, change.first) := by
    simp [hchanges]
  obtain ⟨change, hchange, hfields⟩ := List.mem_map.mp hmem
  obtain ⟨hmode, hfirst⟩ := Prod.mk.injEq .. ▸ hfields
  exact ⟨s, hrun, change, hchange, hmode, mode_changes_at_rest
    (TransitionSystem.reachableBy_of_runFrom (.initial rfl) _ hallowed hrun) change hchange hfirst⟩

/-- The client changes the mode right after `start()` has returned true. -/
def changeAfterStartRun : List (CallAction Unit) :=
  idleRun ++ completeCall .start ++ [.machine (.changeMode .maintenance), .machine .modeSwitched]

/-- The second mode change succeeds while START is being carried out. -/
theorem mode_change_while_starting :
    ∃ s, (modeClient .singleCycle).runFrom ⟨.activated, false, []⟩ changeAfterStartRun = some s ∧
      s.calls.threads () = .returned .start 2 true ∧
      ∃ change ∈ s.changes, change.first = false ∧ change.phase.carriesOutCommand = true ∧
        change.startPending = true ∧ ¬ change.AtRest := by
  have hend : ((modeClient .singleCycle).runFrom ⟨.activated, false, []⟩ changeAfterStartRun).map
      (fun s ↦ (s.calls.threads (), s.changes.map fun change ↦
        (change.first, change.phase.carriesOutCommand, change.startPending))) =
        some (.returned .start 2 true, [(true, false, false), (false, true, true)]) := rfl
  obtain ⟨s, hrun, hs⟩ := Option.map_eq_some_iff.mp hend
  obtain ⟨hthread, hchanges⟩ := Prod.mk.injEq .. ▸ hs
  have hmem : (false, true, true) ∈ s.changes.map fun change ↦
      (change.first, change.phase.carriesOutCommand, change.startPending) := by
    simp [hchanges]
  obtain ⟨change, hchange, hfields⟩ := List.mem_map.mp hmem
  simp only [Prod.mk.injEq] at hfields
  obtain ⟨hfirst, hcarries, hpending⟩ := hfields
  refine ⟨s, hrun, hthread, change, hchange, hfirst, hcarries, hpending, fun hrest ↦ ?_⟩
  exact Bool.noConfusion (hpending.symm.trans hrest.startPending)

end PackML
