import PackML.Library.History
import PackML.Execution.Execution

/-!
# The life cycle of a machine

`activate` asks the Qt thread to start the machine, which happens later (`started`): queued events
are dropped and ABORTED is entered. `deactivate` sets a flag, and the machine stops when its Qt
thread looks at the flag before it takes the next event (`stopped`); a machine that was stopped can
be activated again. An event that is posted while the machine does not run is discarded, so a
command posted then is lost, and so is the event of an operation that has outlived the machine.
Operations are not stopped.

`machineStep_of_isActive` says that a machine that runs takes the steps of an execution, and
`machineStep_of_not_isActive` that otherwise only operations end and modes are changed.
`lifecycle_located` is the run lemma: while a machine runs, its Qt thread stands in a PackML state.
-/

set_option autoImplicit false
set_option relaxedAutoImplicit false

namespace PackML

/-! ### Machines -/

/-- The state of a `QStateMachine`. -/
inductive RunState
  | notRunning | starting | running
  deriving DecidableEq, Repr

/-- A machine with the state of its `QStateMachine` and the flag set by `stop()`. -/
structure Lifecycle where
  machine : Execution
  run : RunState
  stop : Bool

/-- The steps of a machine: calls of `activate`, with or without a `QCoreApplication`, and of
`deactivate`, the start and the stop of the Qt thread, and the steps of an execution. -/
inductive LifecycleAction
  | activate (application : Bool)
  | started
  | deactivate
  | stopped
  | machine (action : Action)
  deriving DecidableEq

/-- A machine that was never activated; `state_value_` is not initialised. -/
def Execution.constructed (stateValue : State) : Execution where
  gen := .initial
  configuration := []
  stateValue := stateValue
  queue := []
  phase := .idle
  running := []
  functionState := fun _ ↦ none
  activations := 0
  commands := 0
  switching := none

/-- The start of a machine drops the queue and enters the initial state. -/
def Execution.restart (s : Execution) : Execution :=
  { s with
    queue := []
    configuration := initialConfiguration
    stateValue := .aborted
    phase := .notifying .aborted }

namespace Lifecycle

variable (cycle : Cycle) (s : Lifecycle)

/-- `StateMachine::isActive`. -/
def isActive : Bool :=
  decide (s.run = .running)

/-- `StateMachine::activate`, and the value that it returns. -/
def activate (application : Bool) : Lifecycle × Bool :=
  if application then
    ({ s with run := if s.run = .notRunning then .starting else s.run }, true)
  else (s, false)

/-- `StateMachine::deactivate`, and the value that it returns. -/
def deactivate : Lifecycle × Bool :=
  (if s.run = .notRunning then s else { s with stop := true }, true)

/-- The Qt thread starts the machine. -/
def started : Option Lifecycle :=
  if s.run = .starting then some { s with machine := s.machine.restart, run := .running }
  else none

/-- The Qt thread stops the machine before it takes another event. -/
def stopped : Option Lifecycle :=
  if s.isActive ∧ s.stop ∧ s.machine.phase = .idle then
    some { s with run := .notRunning, stop := false }
  else none

/-- `postEvent` of a command, which is discarded by a machine that does not run. -/
def post (cmd : TransitionCmd) : Execution :=
  if s.isActive then s.machine.post cmd
  else { s.machine with commands := s.machine.commands + 1 }

/-- The end of an operation, whose event is discarded by a machine that does not run. -/
def finish (activation : Activation) (code : Int) : Option Execution :=
  if s.isActive then s.machine.finish activation code
  else (s.machine.finish activation code).map fun machine ↦
    { machine with queue := s.machine.queue }

/-- A step of the machine. The Qt thread takes steps while the machine runs, and takes no event
from the queue once the machine is to stop. -/
def machineStep : Action → Option Execution
  | .post cmd => some (s.post cmd)
  | .finish activation code => s.finish activation code
  | .select => if s.isActive ∧ s.stop = false then s.machine.select cycle else none
  | .leave => if s.isActive then s.machine.leave else none
  | .enter => if s.isActive then s.machine.enter else none
  | .notified => if s.isActive then s.machine.notified else none
  | .changeMode mode => s.machine.changeMode mode
  | .modeSwitched => s.machine.modeSwitched

end Lifecycle

/-- The runs of a machine from its construction. -/
def lifecycle (cycle : Cycle) : TransitionSystem Lifecycle LifecycleAction where
  initial s := ∃ stateValue, s = ⟨.constructed stateValue, .notRunning, false⟩
  next s
    | .activate application => some (s.activate application).1
    | .started => s.started
    | .deactivate => some s.deactivate.1
    | .stopped => s.stopped
    | .machine action => (s.machineStep cycle action).map fun machine ↦
        { s with machine := machine }

/-- A step of the life cycle of a machine. -/
abbrev LifecycleStep := TransitionSystem.Step Lifecycle LifecycleAction

/-- The run of a machine over its life cycle. -/
abbrev LifecycleRun := TransitionSystem.Recorded Lifecycle LifecycleAction

section

variable {cycle : Cycle} {s t : Lifecycle} {machine : Execution} {action : Action}

/-! ### What each step does -/

theorem activate_machine (s : Lifecycle) (application : Bool) :
    (s.activate application).1.machine = s.machine ∧
      (s.activate application).1.stop = s.stop ∧
      ((s.activate application).1.run = s.run ∨
        s.run = .notRunning ∧ (s.activate application).1.run = .starting) := by
  cases application with
  | false => exact ⟨rfl, rfl, Or.inl rfl⟩
  | true =>
    by_cases hrun : s.run = .notRunning
    · exact ⟨rfl, rfl, Or.inr ⟨hrun, by simp [Lifecycle.activate, hrun]⟩⟩
    · exact ⟨rfl, rfl, Or.inl (by simp [Lifecycle.activate, hrun])⟩

theorem deactivate_machine (s : Lifecycle) :
    s.deactivate.1.machine = s.machine ∧ s.deactivate.1.run = s.run := by
  by_cases hrun : s.run = .notRunning
  · simp [Lifecycle.deactivate, hrun]
  · simp [Lifecycle.deactivate, hrun]

theorem started_spec (hnext : s.started = some t) :
    s.run = .starting ∧ t = { s with machine := s.machine.restart, run := .running } := by
  obtain ⟨hrun, hnext⟩ := Option.ite_none_right_eq_some.mp hnext
  exact ⟨hrun, (Option.some.inj hnext).symm⟩

theorem stopped_spec (hnext : s.stopped = some t) :
    s.run = .running ∧ s.stop = true ∧ s.machine.phase = .idle ∧
      t = { s with run := .notRunning, stop := false } := by
  obtain ⟨⟨hactive, hstop, hphase⟩, hnext⟩ := Option.ite_none_right_eq_some.mp hnext
  exact ⟨of_decide_eq_true hactive, hstop, hphase, (Option.some.inj hnext).symm⟩

/-- The steps of the Qt thread need a machine that runs. -/
def Action.ofQtThread : Action → Bool
  | .select | .leave | .enter | .notified => true
  | .post _ | .finish _ _ | .changeMode _ | .modeSwitched => false

/-- A machine that runs takes the steps of an execution. -/
theorem machineStep_of_isActive (hactive : s.isActive = true)
    (hnext : s.machineStep cycle action = some machine) :
    (execution cycle).next s.machine action = some machine := by
  cases action with
  | post cmd =>
    rw [Lifecycle.machineStep, Lifecycle.post, if_pos hactive] at hnext
    exact hnext
  | finish activation code =>
    rw [Lifecycle.machineStep, Lifecycle.finish, if_pos hactive] at hnext
    exact hnext
  | select => exact (Option.ite_none_right_eq_some.mp hnext).2
  | leave => exact (Option.ite_none_right_eq_some.mp hnext).2
  | enter => exact (Option.ite_none_right_eq_some.mp hnext).2
  | notified => exact (Option.ite_none_right_eq_some.mp hnext).2
  | changeMode mode => exact hnext
  | modeSwitched => exact hnext

/-- A machine that does not run keeps its place and its queue. -/
theorem machineStep_of_not_isActive (hactive : s.isActive = false)
    (hnext : s.machineStep cycle action = some machine) :
    action.ofQtThread = false ∧ machine.phase = s.machine.phase ∧
      machine.queue = s.machine.queue ∧ machine.running ⊆ s.machine.running ∧
        machine.functionState = s.machine.functionState ∧
          machine.activations = s.machine.activations ∧
            ((∀ cmd, action ≠ .post cmd) → machine.commands = s.machine.commands) := by
  cases action with
  | post cmd =>
    simp only [Lifecycle.machineStep, Lifecycle.post, hactive] at hnext
    obtain rfl := Option.some.inj hnext
    exact ⟨rfl, rfl, rfl, List.Subset.refl _, rfl, rfl, fun hpost ↦ absurd rfl (hpost cmd)⟩
  | finish activation code =>
    simp only [Lifecycle.machineStep, Lifecycle.finish, hactive] at hnext
    obtain ⟨finished, hfinish, rfl⟩ := Option.map_eq_some_iff.mp hnext
    obtain ⟨-, rfl⟩ := finish_spec hfinish
    exact ⟨rfl, rfl, rfl, List.erase_subset, rfl, rfl, fun _ ↦ rfl⟩
  | select => simp [Lifecycle.machineStep, hactive] at hnext
  | leave => simp [Lifecycle.machineStep, hactive] at hnext
  | enter => simp [Lifecycle.machineStep, hactive] at hnext
  | notified => simp [Lifecycle.machineStep, hactive] at hnext
  | changeMode mode =>
    obtain ⟨-, ⟨-, rfl⟩ | ⟨-, rfl⟩⟩ := changeMode_spec hnext
    · exact ⟨rfl, rfl, rfl, List.Subset.refl _, rfl, rfl, fun _ ↦ rfl⟩
    · exact ⟨rfl, rfl, rfl, List.Subset.refl _, rfl, rfl, fun _ ↦ rfl⟩
  | modeSwitched =>
    obtain ⟨mode, -, rfl⟩ := modeSwitched_spec hnext
    exact ⟨rfl, rfl, rfl, List.Subset.refl _, rfl, rfl, fun _ ↦ rfl⟩

/-! ### Where the Qt thread stands -/

/-- While the machine runs, its Qt thread stands in a PackML state or on the way out of it. -/
def LifecycleLocated (cycle : Cycle) (s : Lifecycle) : Prop :=
  s.run = .running → Located cycle s.machine s.machine.stateValue

theorem lifecycleLocated_step (hs : LifecycleLocated cycle s) {step : LifecycleAction}
    (hnext : (lifecycle cycle).next s step = some t) : LifecycleLocated cycle t := by
  intro hrunning
  cases step with
  | activate application =>
    obtain rfl := Option.some.inj hnext
    obtain ⟨hmachine, -, hrun | ⟨-, hrun⟩⟩ := activate_machine s application
    · exact hmachine ▸ hs (hrun ▸ hrunning)
    · cases hrun.symm.trans hrunning
  | started =>
    obtain ⟨-, rfl⟩ := started_spec hnext
    exact ⟨rfl, by simp [Execution.restart], .notifying⟩
  | deactivate =>
    obtain rfl := Option.some.inj hnext
    obtain ⟨hmachine, hrun⟩ := deactivate_machine s
    exact hmachine ▸ hs (hrun ▸ hrunning)
  | stopped =>
    obtain ⟨-, -, -, rfl⟩ := stopped_spec hnext
    cases hrunning
  | machine action =>
    obtain ⟨machine, hmachine, rfl⟩ := Option.map_eq_some_iff.mp hnext
    have hactive : s.isActive = true := decide_eq_true hrunning
    have hstep := machineStep_of_isActive hactive hmachine
    obtain ⟨state, hlocated⟩ := located_step (hs hrunning) hstep
    exact hlocated.stateValue ▸ hlocated

theorem lifecycle_located (hrun : (lifecycle cycle).Reachable s) : LifecycleLocated cycle s := by
  refine hrun.invariant ?_ ?_
  · rintro s ⟨stateValue, rfl⟩ hrunning
    cases hrunning
  · intro s action t hs hnext
    exact lifecycleLocated_step hs hnext

end

end PackML
