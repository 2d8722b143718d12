import PackML.Library.TransitionSystem
import PackML.Machine.EventProcessing

/-!
# A running machine: the Qt thread, its queue and the operations of acting states

An execution is a machine together with the external event queue of its state machine, the phase
of the Qt thread, and the operations that run on pool threads. The Qt thread selects transitions
for the first event of the queue (`select`); when there are any, it leaves their source states,
which waits in `ActingState::onExit` for the operation of an acting state (`leave`), enters the
targets, which stores the state through `setState` (`enter`), and starts the operation of an acting
state once `on_state_changed` has returned (`notified`). Meanwhile commands are posted, operations
finish and post their event, and modes are changed, in any order. A mode change is two steps: its
guard is evaluated (`changeMode`), and later the mode is installed (`modeSwitched`).

An activation is one start of the operation of an acting state, and every posted event records
whether it is a command or the event of an activation; the code has neither record.

`Located` is the invariant of the Qt thread: it stands in a single PackML state, or in the middle
of a transition that the flat table has for the event it processes. `located_of_reachable` is the
run lemma, and `select_spec` to `notified_spec` say once what each step of the Qt thread does.
-/

set_option autoImplicit false
set_option relaxedAutoImplicit false

namespace PackML

/-! ### Executions -/

/-- One start of the operation of an acting state. -/
structure Activation where
  state : State
  number : ℕ
  deriving DecidableEq, Repr

/-- Who posted an event: the command with a number, or the operation of an activation. -/
inductive Origin
  | command (number : ℕ)
  | operation (activation : Activation)
  deriving DecidableEq, Repr

/-- An event in the queue. -/
structure PostedEvent where
  event : PackmlEvent
  origin : Origin
  deriving DecidableEq, Repr

/-- What the Qt thread is doing: nothing, leaving the sources or entering the targets of the
transitions selected for an event, or running `on_state_changed` for a state just entered. -/
inductive Phase
  | idle
  | leaving (event : PostedEvent) (selection : Selection)
  | entering (event : PostedEvent) (selection : Selection)
  | notifying (state : State)
  deriving DecidableEq

/-- A running machine. `running` are the activations whose operation has not finished,
`functionState` is the future that each acting state keeps of the last operation it started, and
`switching` is the mode of a `changeMode` whose guard has passed. -/
structure Execution extends StateMachine where
  queue : List PostedEvent
  phase : Phase
  running : List Activation
  functionState : State → Option Activation
  activations : ℕ
  commands : ℕ
  switching : Option ModeType

/-- The steps of an execution. -/
inductive Action
  | post (cmd : TransitionCmd)
  | finish (activation : Activation) (code : Int)
  | select
  | leave
  | enter
  | notified
  | changeMode (mode : ModeType)
  | modeSwitched
  deriving DecidableEq

/-- The event that `ActingState::operation` posts for the code that its function returns. -/
def operationEvent (code : Int) : PackmlEvent :=
  if code = 0 then .stateCompleteEvent else .errorEvent code

namespace Execution

variable (cycle : Cycle) (s : Execution)

/-- Whether `function_state_` of a state is still running, so that `onExit` has to wait. -/
def isRunning (state : State) : Bool :=
  state.acting && (s.functionState state).any fun activation ↦ decide (activation ∈ s.running)

/-- A client posts a command. -/
def post (cmd : TransitionCmd) : Execution :=
  { s with
    queue := s.queue ++ [⟨.cmdEvent cmd, .command s.commands⟩]
    commands := s.commands + 1 }

/-- The function of an activation returns a code, and the operation posts its event. -/
def finish (activation : Activation) (code : Int) : Option Execution :=
  if activation ∈ s.running then
    some { s with
      running := s.running.erase activation
      queue := s.queue ++ [⟨operationEvent code, .operation activation⟩] }
  else none

/-- The Qt thread takes the first event of the queue and selects transitions for it. -/
def select : Option Execution :=
  match s.phase, s.queue with
  | .idle, event :: rest =>
    match (selectTransitions cycle s.gen.available s.configuration event.event).1 with
    | [] => some { s with queue := rest }
    | selection => some { s with queue := rest, phase := .leaving event selection }
  | _, _ => none

/-- The states of the transitions selected are left, once their operations have finished. -/
def leave : Option Execution :=
  match s.phase with
  | .leaving event selection =>
    if (s.configuration.filter (· ∉ leaveStates selection s.configuration)).any
        (fun object ↦ s.isRunning object.state) then none
    else some { s with
      configuration := leaveStates selection s.configuration
      phase := .entering event selection }
  | _ => none

/-- The targets are entered: `setState` stores the state and calls `on_state_changed`. -/
def enter : Option Execution :=
  match s.phase with
  | .entering _ selection =>
    some { s with
      configuration := enterStates selection s.configuration
      stateValue := (enteredState selection).getD s.stateValue
      phase := (enteredState selection).elim .idle .notifying }
  | _ => none

/-- `on_state_changed` has returned, and `ActingState::onEntry` starts the operation. -/
def notified : Option Execution :=
  match s.phase with
  | .notifying state =>
    if state.acting then
      some { s with
        phase := .idle
        running := s.running ++ [⟨state, s.activations⟩]
        functionState := Function.update s.functionState state (some ⟨state, s.activations⟩)
        activations := s.activations + 1 }
    else some { s with phase := .idle }
  | _ => none

/-- `changeMode` reads `state_value_` for the guard of `mode_switcher`; a change that is refused
ends here. -/
def changeMode (mode : ModeType) : Option Execution :=
  if s.switching.isSome then none
  else if s.gen.canSwitch s.stateValue then some { s with switching := some mode }
  else some s

/-- `mode_switcher` installs the mode whose guard has passed. -/
def modeSwitched : Option Execution :=
  s.switching.map fun mode ↦ { s with gen := s.gen.switch (modeOf mode), switching := none }

/-- An activated machine: ABORTED has been entered, no mode was set and nothing was posted. -/
def activated : Execution where
  gen := .initial
  configuration := initialConfiguration
  stateValue := .aborted
  queue := []
  phase := .notifying .aborted
  running := []
  functionState := fun _ ↦ none
  activations := 0
  commands := 0
  switching := none

end Execution

/-- The runs of an activated machine. -/
def execution (cycle : Cycle) : TransitionSystem Execution Action where
  initial s := s = .activated
  next s
    | .post cmd => some (s.post cmd)
    | .finish activation code => s.finish activation code
    | .select => s.select cycle
    | .leave => s.leave
    | .enter => s.enter
    | .notified => s.notified
    | .changeMode mode => s.changeMode mode
    | .modeSwitched => s.modeSwitched

/-! ### Where the Qt thread stands -/

/-- A transition of the Qt thread out of a state: it belongs to the state or to a super state
around it, is for the event, and leads to the target of the flat table. -/
structure Transfer (cycle : Cycle) (state : State) (event : PostedEvent) (source : PackmlState)
    (transition : PackmlTransition) (target : State) : Prop where
  flat : flatTarget cycle state event.event = some target
  source_mem : source ∈ chart.path state.generated
  isFor : transition.kind.isFor event.event = true
  targetState : transition.targetState = target.generated

/-- The phases of the Qt thread and the configurations that go with them, when `state` is the last
state that was entered. -/
inductive Standing (cycle : Cycle) (state : State) : Phase → List PackmlState → Prop
  | idle : Standing cycle state .idle (chart.path state.generated)
  | leaving {event : PostedEvent} {source : PackmlState} {transition : PackmlTransition}
      {target : State} (htransfer : Transfer cycle state event source transition target) :
      Standing cycle state (.leaving event [(source, transition)]) (chart.path state.generated)
  | entering {event : PostedEvent} {source : PackmlState} {transition : PackmlTransition}
      {target : State} (htransfer : Transfer cycle state event source transition target) :
      Standing cycle state (.entering event [(source, transition)])
        (leaveStates [(source, transition)] (chart.path state.generated))
  | notifying : Standing cycle state (.notifying state) (chart.path state.generated)

/-- The last state entered is a PackML state, `state_value_` names it, and the Qt thread stands in
it or on the way out of it. -/
structure Located (cycle : Cycle) (s : Execution) (state : State) : Prop where
  stateValue : s.stateValue = state
  defined : state ≠ .undefined
  standing : Standing cycle state s.phase s.configuration

/-- The configuration is that of the last state entered unless the machine has left it. -/
theorem Standing.configuration_eq {cycle : Cycle} {state : State} {phase : Phase}
    {configuration : List PackmlState} (hstanding : Standing cycle state phase configuration)
    (hphase : ∀ event selection, phase ≠ .entering event selection) :
    configuration = chart.path state.generated := by
  cases hstanding with
  | entering htransfer => exact absurd rfl (hphase _ _)
  | _ => rfl

theorem Located.configuration_eq {cycle : Cycle} {s : Execution} {state : State}
    (hs : Located cycle s state) (hphase : ∀ event selection, s.phase ≠ .entering event selection) :
    s.configuration = chart.path state.generated :=
  hs.standing.configuration_eq hphase

section Steps

variable {cycle : Cycle} {s t : Execution} {state : State}

/-- What the selection step does: it takes the first event and drops it, or begins the transition
selected for it. -/
theorem select_spec (hs : Located cycle s state) (hnext : s.select cycle = some t) :
    ∃ event rest, s.phase = .idle ∧ s.queue = event :: rest ∧
      ((selected cycle s.gen.available state event.event = none ∧ t = { s with queue := rest }) ∨
        ∃ source transition,
          selected cycle s.gen.available state event.event = some (source, transition) ∧
            t = { s with
              queue := rest, phase := .leaving event [(source, transition)] }) := by
  unfold Execution.select at hnext
  split at hnext
  · rename_i event rest hphase hqueue
    have hconfiguration := hs.configuration_eq (by simp [hphase])
    refine ⟨event, rest, hphase, hqueue, ?_⟩
    rw [hconfiguration, selectTransitions_path] at hnext
    cases hselected : selected cycle s.gen.available state event.event with
    | none =>
      rw [hselected] at hnext
      exact Or.inl ⟨rfl, (Option.some.inj hnext).symm⟩
    | some entry =>
      rw [hselected] at hnext
      exact Or.inr ⟨entry.1, entry.2, rfl, (Option.some.inj hnext).symm⟩
  · cases hnext

/-- What the leaving step does: it waits for the operation of the state that is left. -/
theorem leave_spec (hs : Located cycle s state) (hnext : s.leave = some t) :
    ∃ event source transition target, s.phase = .leaving event [(source, transition)] ∧
      Transfer cycle state event source transition target ∧ s.isRunning state = false ∧
        t = { s with
          configuration := leaveStates [(source, transition)] (chart.path state.generated)
          phase := .entering event [(source, transition)] } := by
  obtain ⟨-, -, hstanding⟩ := hs
  unfold Execution.leave at hnext
  split at hnext
  · rename_i event selection hphase
    rw [hphase] at hstanding
    generalize hconfiguration : s.configuration = configuration at hstanding hnext
    cases hstanding with
    | leaving htransfer =>
      rename_i source transition target
      obtain ⟨hnone, hnext⟩ := Option.ite_none_left_eq_some.mp hnext
      refine ⟨event, source, transition, target, hphase, htransfer, ?_,
        (Option.some.inj hnext).symm⟩
      have hleft : state.generated ∈ (chart.path state.generated).filter
          (· ∉ leaveStates [(source, transition)] (chart.path state.generated)) :=
        List.mem_filter.mpr ⟨List.mem_cons_self, decide_eq_true <|
          chart.not_mem_exitStates_of_atomic htransfer.source_mem⟩
      simp only [List.any_eq_true, not_exists, not_and] at hnone
      exact Bool.eq_false_iff.mpr (hnone _ hleft)
  · cases hnext

/-- What the entering step does: the machine is in the target, `state_value_` names it, and
`on_state_changed` is called for it. -/
theorem enter_spec (hs : Located cycle s state) (hnext : s.enter = some t) :
    ∃ event source transition target, s.phase = .entering event [(source, transition)] ∧
      Transfer cycle state event source transition target ∧
        t = { s with
          configuration := chart.path target.generated
          stateValue := target
          phase := .notifying target } := by
  obtain ⟨-, -, hstanding⟩ := hs
  unfold Execution.enter at hnext
  split at hnext
  · rename_i event selection hphase
    rw [hphase] at hstanding
    generalize hconfiguration : s.configuration = configuration at hstanding hnext
    cases hstanding with
    | entering htransfer =>
      rename_i source transition target
      refine ⟨event, source, transition, target, hphase, htransfer, ?_⟩
      have hpath : enterStates [(source, transition)]
          (leaveStates [(source, transition)] (chart.path state.generated)) =
            chart.path target.generated := by
        simp only [enterStates, leaveStates, List.foldl_cons, List.foldl_nil,
          htransfer.targetState]
        exact chart.enterStates_exitStates_path htransfer.source_mem
      have hentered : enteredState [(source, transition)] = some target := by
        simp [enteredState, htransfer.targetState, PackmlState.state,
          flatTarget_ne_undefined htransfer.flat]
      rw [hpath, hentered] at hnext
      exact (Option.some.inj hnext).symm
  · cases hnext

/-- What the last step of an entry does: it starts the operation of an acting state. -/
theorem notified_spec (hs : Located cycle s state) (hnext : s.notified = some t) :
    s.phase = .notifying state ∧
      ((state.acting = true ∧ t = { s with
          phase := .idle
          running := s.running ++ [⟨state, s.activations⟩]
          functionState := Function.update s.functionState state (some ⟨state, s.activations⟩)
          activations := s.activations + 1 }) ∨
        (state.acting = false ∧ t = { s with phase := .idle })) := by
  obtain ⟨-, -, hstanding⟩ := hs
  unfold Execution.notified at hnext
  split at hnext
  · rename_i entered hphase
    rw [hphase] at hstanding
    generalize s.configuration = configuration at hstanding
    cases hstanding
    refine ⟨hphase, ?_⟩
    cases hacting : state.acting with
    | true =>
      rw [hacting] at hnext
      exact Or.inl ⟨rfl, (Option.some.inj hnext).symm⟩
    | false =>
      rw [hacting] at hnext
      exact Or.inr ⟨rfl, (Option.some.inj hnext).symm⟩
  · cases hnext

/-! The steps of the Qt thread that can be taken. -/

/-- An idle Qt thread takes the first event of the queue. -/
theorem exists_select (cycle : Cycle) (hphase : s.phase = .idle) {event : PostedEvent}
    {rest : List PostedEvent} (hqueue : s.queue = event :: rest) :
    ∃ t, s.select cycle = some t := by
  unfold Execution.select
  rw [hphase, hqueue]
  dsimp only
  split
  · exact ⟨_, rfl⟩
  · exact ⟨_, rfl⟩

/-- A state is left when no operation runs. -/
theorem exists_leave {event : PostedEvent} {selection : Selection}
    (hphase : s.phase = .leaving event selection) (hnone : s.running = []) :
    ∃ t, s.leave = some t := by
  unfold Execution.leave
  rw [hphase]
  exact ⟨_, if_neg (by simp [Execution.isRunning, hnone])⟩

theorem exists_enter {event : PostedEvent} {selection : Selection}
    (hphase : s.phase = .entering event selection) : ∃ t, s.enter = some t := by
  unfold Execution.enter
  rw [hphase]
  exact ⟨_, rfl⟩

theorem exists_notified (hphase : s.phase = .notifying state) : ∃ t, s.notified = some t := by
  unfold Execution.notified
  rw [hphase]
  dsimp only
  split
  · exact ⟨_, rfl⟩
  · exact ⟨_, rfl⟩

/-- An operation that runs can return any code. -/
theorem exists_finish {activation : Activation} (hmem : activation ∈ s.running) (code : Int) :
    ∃ t, s.finish activation code = some t :=
  ⟨_, if_pos hmem⟩

/-- What the end of an operation does. -/
theorem finish_spec {activation : Activation} {code : Int}
    (hnext : s.finish activation code = some t) :
    activation ∈ s.running ∧ t = { s with
      running := s.running.erase activation
      queue := s.queue ++ [⟨operationEvent code, .operation activation⟩] } := by
  obtain ⟨hrunning, hnext⟩ := Option.ite_none_right_eq_some.mp hnext
  exact ⟨hrunning, (Option.some.inj hnext).symm⟩

/-- What the guard of a mode change does. -/
theorem changeMode_spec {mode : ModeType} (hnext : s.changeMode mode = some t) :
    s.switching = none ∧
      ((s.gen.canSwitch s.stateValue = true ∧ t = { s with switching := some mode }) ∨
        (s.gen.canSwitch s.stateValue = false ∧ t = s)) := by
  obtain ⟨hswitching, hnext⟩ := Option.ite_none_left_eq_some.mp hnext
  refine ⟨by simpa using hswitching, ?_⟩
  cases hswitch : s.gen.canSwitch s.stateValue with
  | true =>
    rw [hswitch] at hnext
    exact Or.inl ⟨rfl, (Option.some.inj hnext).symm⟩
  | false =>
    rw [hswitch] at hnext
    exact Or.inr ⟨rfl, (Option.some.inj hnext).symm⟩

/-- What the installation of a mode does. -/
theorem modeSwitched_spec (hnext : s.modeSwitched = some t) :
    ∃ mode, s.switching = some mode ∧
      t = { s with gen := s.gen.switch (modeOf mode), switching := none } := by
  obtain ⟨mode, hmode, rfl⟩ := Option.map_eq_some_iff.mp hnext
  exact ⟨mode, hmode, rfl⟩

/-- The steps that do not belong to the Qt thread leave it where it stands. -/
theorem phase_step {action : Action} (hnext : (execution cycle).next s action = some t)
    (hkeeps : action ≠ .select ∧ action ≠ .leave ∧ action ≠ .enter ∧ action ≠ .notified) :
    t.phase = s.phase ∧ t.stateValue = s.stateValue := by
  obtain ⟨hselect, hleave, henter, hnotified⟩ := hkeeps
  cases action with
  | post cmd =>
    obtain rfl := Option.some.inj hnext
    exact ⟨rfl, rfl⟩
  | finish activation code =>
    obtain ⟨-, rfl⟩ := finish_spec hnext
    exact ⟨rfl, rfl⟩
  | select => exact absurd rfl hselect
  | leave => exact absurd rfl hleave
  | enter => exact absurd rfl henter
  | notified => exact absurd rfl hnotified
  | changeMode mode =>
    obtain ⟨-, ⟨-, rfl⟩ | ⟨-, rfl⟩⟩ := changeMode_spec hnext
    · exact ⟨rfl, rfl⟩
    · exact ⟨rfl, rfl⟩
  | modeSwitched =>
    obtain ⟨mode, -, rfl⟩ := modeSwitched_spec hnext
    exact ⟨rfl, rfl⟩

/-- Only an entry changes the state of the machine. -/
theorem stateValue_kept (hs : Located cycle s s.stateValue) {action : Action}
    (henter : action ≠ .enter) (hnext : (execution cycle).next s action = some t) :
    t.stateValue = s.stateValue := by
  cases action with
  | enter => exact absurd rfl henter
  | select =>
    obtain ⟨event, rest, -, -, ⟨-, rfl⟩ | ⟨source, transition, -, rfl⟩⟩ := select_spec hs hnext
    · rfl
    · rfl
  | leave =>
    obtain ⟨event, source, transition, target, -, -, -, rfl⟩ := leave_spec hs hnext
    rfl
  | notified =>
    obtain ⟨-, ⟨-, rfl⟩ | ⟨-, rfl⟩⟩ := notified_spec hs hnext
    · rfl
    · rfl
  | post | finish | changeMode | modeSwitched => exact (phase_step hnext (by simp)).2

/-- What most steps leave as it is: only an installation changes the generator, only posts, ends of
operations and selections change the queue, and only starts and ends of operations change those that
run. -/
structure StepFrame (s t : Execution) (action : Action) : Prop where
  gen : action ≠ .modeSwitched → t.gen = s.gen
  queue : (∀ cmd, action ≠ .post cmd) → (∀ activation code, action ≠ .finish activation code) →
    action ≠ .select → t.queue = s.queue
  operations : (∀ activation code, action ≠ .finish activation code) →
    (action = .notified → s.stateValue.acting = false) →
      t.running = s.running ∧ t.activations = s.activations

theorem stepFrame (hs : Located cycle s s.stateValue) {action : Action}
    (hnext : (execution cycle).next s action = some t) : StepFrame s t action := by
  cases action with
  | post cmd =>
    obtain rfl := Option.some.inj hnext
    exact ⟨fun _ ↦ rfl, fun hpost ↦ absurd rfl (hpost cmd), fun _ _ ↦ ⟨rfl, rfl⟩⟩
  | finish activation code =>
    obtain ⟨-, rfl⟩ := finish_spec hnext
    exact ⟨fun _ ↦ rfl, fun _ hfinish ↦ absurd rfl (hfinish activation code),
      fun hfinish ↦ absurd rfl (hfinish activation code)⟩
  | select =>
    obtain ⟨event, rest, -, -, ⟨-, rfl⟩ | ⟨source, transition, -, rfl⟩⟩ := select_spec hs hnext
    · exact ⟨fun _ ↦ rfl, fun _ _ hselect ↦ absurd rfl hselect, fun _ _ ↦ ⟨rfl, rfl⟩⟩
    · exact ⟨fun _ ↦ rfl, fun _ _ hselect ↦ absurd rfl hselect, fun _ _ ↦ ⟨rfl, rfl⟩⟩
  | leave =>
    obtain ⟨event, source, transition, target, -, -, -, rfl⟩ := leave_spec hs hnext
    exact ⟨fun _ ↦ rfl, fun _ _ _ ↦ rfl, fun _ _ ↦ ⟨rfl, rfl⟩⟩
  | enter =>
    obtain ⟨event, source, transition, target, -, -, rfl⟩ := enter_spec hs hnext
    exact ⟨fun _ ↦ rfl, fun _ _ _ ↦ rfl, fun _ _ ↦ ⟨rfl, rfl⟩⟩
  | notified =>
    obtain ⟨-, ⟨hacting, rfl⟩ | ⟨-, rfl⟩⟩ := notified_spec hs hnext
    · refine ⟨fun _ ↦ rfl, fun _ _ _ ↦ rfl, fun _ hwait ↦ ?_⟩
      cases hacting.symm.trans (hwait rfl)
    · exact ⟨fun _ ↦ rfl, fun _ _ _ ↦ rfl, fun _ _ ↦ ⟨rfl, rfl⟩⟩
  | changeMode mode =>
    obtain ⟨-, ⟨-, rfl⟩ | ⟨-, rfl⟩⟩ := changeMode_spec hnext
    · exact ⟨fun _ ↦ rfl, fun _ _ _ ↦ rfl, fun _ _ ↦ ⟨rfl, rfl⟩⟩
    · exact ⟨fun _ ↦ rfl, fun _ _ _ ↦ rfl, fun _ _ ↦ ⟨rfl, rfl⟩⟩
  | modeSwitched =>
    obtain ⟨mode, -, rfl⟩ := modeSwitched_spec hnext
    exact ⟨fun hswitched ↦ absurd rfl hswitched, fun _ _ _ ↦ rfl, fun _ _ ↦ ⟨rfl, rfl⟩⟩

/-- A selected transition is a transfer. -/
theorem transfer_of_selected {event : PostedEvent} {source : PackmlState}
    {transition : PackmlTransition} {available : AvailableProperty}
    (hselected : selected cycle available state event.event = some (source, transition)) :
    ∃ target, Transfer cycle state event source transition target := by
  obtain ⟨hsource, hfor, target, hflat, htarget, -⟩ := selected_some hselected
  exact ⟨target, hflat, hsource, hfor, htarget⟩

/-- Every step leaves the Qt thread in some state. -/
theorem located_step (hs : Located cycle s state) {action : Action}
    (hnext : (execution cycle).next s action = some t) : ∃ state', Located cycle t state' := by
  cases action with
  | post cmd =>
    obtain rfl := Option.some.inj hnext
    exact ⟨state, hs.stateValue, hs.defined, hs.standing⟩
  | finish activation code =>
    obtain ⟨-, rfl⟩ := finish_spec hnext
    exact ⟨state, hs.stateValue, hs.defined, hs.standing⟩
  | select =>
    obtain ⟨event, rest, hphase, -, ⟨-, rfl⟩ | ⟨source, transition, hselected, rfl⟩⟩ :=
      select_spec hs hnext
    · exact ⟨state, hs.stateValue, hs.defined, hs.standing⟩
    · obtain ⟨target, htransfer⟩ := transfer_of_selected hselected
      have hconfiguration := hs.configuration_eq (by simp [hphase])
      exact ⟨state, hs.stateValue, hs.defined, hconfiguration ▸ .leaving htransfer⟩
  | leave =>
    obtain ⟨event, source, transition, target, -, htransfer, -, rfl⟩ := leave_spec hs hnext
    exact ⟨state, hs.stateValue, hs.defined, .entering htransfer⟩
  | enter =>
    obtain ⟨event, source, transition, target, -, htransfer, rfl⟩ := enter_spec hs hnext
    exact ⟨target, rfl, flatTarget_ne_undefined htransfer.flat, .notifying⟩
  | notified =>
    obtain ⟨hphase, hnext⟩ := notified_spec hs hnext
    have hconfiguration := hs.configuration_eq (by simp [hphase])
    rcases hnext with ⟨-, rfl⟩ | ⟨-, rfl⟩
    · exact ⟨state, hs.stateValue, hs.defined, hconfiguration ▸ .idle⟩
    · exact ⟨state, hs.stateValue, hs.defined, hconfiguration ▸ .idle⟩
  | changeMode mode =>
    obtain ⟨-, ⟨-, rfl⟩ | ⟨-, rfl⟩⟩ := changeMode_spec hnext
    · exact ⟨state, hs.stateValue, hs.defined, hs.standing⟩
    · exact ⟨state, hs⟩
  | modeSwitched =>
    obtain ⟨mode, -, rfl⟩ := modeSwitched_spec hnext
    exact ⟨state, hs.stateValue, hs.defined, hs.standing⟩

end Steps

/-- In every reachable execution the Qt thread stands in a PackML state or on the way out of it. -/
theorem located_of_reachable {cycle : Cycle} {s : Execution}
    (hrun : (execution cycle).Reachable s) : ∃ state, Located cycle s state := by
  refine hrun.invariant ?_ ?_
  · rintro s rfl
    exact ⟨.aborted, rfl, by decide, .notifying⟩
  · rintro s action t ⟨state, hs⟩ hnext
    exact located_step hs hnext

/-- The location of a reachable execution is the stored state. -/
theorem located_stateValue {cycle : Cycle} {s : Execution} (hrun : (execution cycle).Reachable s) :
    Located cycle s s.stateValue := by
  obtain ⟨state, hs⟩ := located_of_reachable hrun
  exact hs.stateValue ▸ hs

end PackML
