import PackML.Machine.FlatTable

/-!
# Processing events in the generated hierarchy

A machine is its generator, its configuration of active state objects and the `state_value_` that
the slot `setState` stores whenever a PackML state is entered. `selectTransitions` offers an event
to the hierarchy, `leaveStates` and `enterStates` are the two halves of the microstep for the
transitions selected, and `processEvent` is the whole of it.

`selectTransitions_path` computes the selection in the configuration of a single PackML state,
`enterStates_leaveStates_path` the microstep, and `processEvent_path` shows that the configuration
stays that of a single state, whose stored value is right, and that this state follows the flat
table. `hierarchy_refines_flat_table` is the refinement over whole runs.
-/

set_option autoImplicit false
set_option relaxedAutoImplicit false

namespace PackML

/-- The transitions selected for an event, each with its source. -/
abbrev Selection := List (PackmlState × PackmlTransition)

/-- A machine: its generator, the active state objects, and `state_value_`. -/
structure StateMachine where
  gen : StatesGenerator
  configuration : List PackmlState
  stateValue : State

/-- The configuration of the initial state, `gen->states["ABORTED"]`. -/
def initialConfiguration : List PackmlState := chart.path State.aborted.generated

/-- The transitions selected for a new event in a configuration, and the event after its tests. -/
def selectTransitions (cycle : Cycle) (available : AvailableProperty)
    (configuration : List PackmlState) (event : PackmlEvent) : Selection × QEvent :=
  chart.selectTransitions cycle.transitions (eventTest available) configuration { event }

/-- The active states once the transitions selected have left their sources. -/
def leaveStates (selection : Selection) (configuration : List PackmlState) : List PackmlState :=
  selection.foldl
    (fun current entry ↦ chart.exitStates entry.1 entry.2.targetState current) configuration

/-- The active states once the transitions selected have entered their targets. -/
def enterStates (selection : Selection) (configuration : List PackmlState) : List PackmlState :=
  selection.foldl
    (fun current entry ↦ chart.enterStates entry.1 entry.2.targetState current) configuration

/-- The PackML state that is entered: `add_state` connects `setState` to the states that are not
super states. -/
def enteredState (selection : Selection) : Option State :=
  ((selection.map fun entry ↦ entry.2.targetState.state).filter (· ≠ .undefined)).getLast?

/-- Processes one event: select, leave, enter. -/
def processEvent (cycle : Cycle) (machine : StateMachine) (event : PackmlEvent) : StateMachine :=
  let selection :=
    (selectTransitions cycle machine.gen.available machine.configuration event).1
  { machine with
    configuration := enterStates selection (leaveStates selection machine.configuration)
    stateValue := (enteredState selection).getD machine.stateValue }

/-! ### Configurations of a single state -/

section Path

variable (cycle : Cycle) (available : AvailableProperty) (state : State) (event : PackmlEvent)

/-- In the configuration of a state at most one transition is selected. -/
theorem selectTransitions_path :
    (selectTransitions cycle available (chart.path state.generated) event).1 =
      (selected cycle available state event).toList := by
  rw [selectTransitions, chart.selectTransitions_path _ _ (chart_atomic_generated state)]
  have hfind := (Statechart.firstEnabled_eq_find (fun candidate ↦ eventTest available candidate.2)
    QEvent.event (fun candidate event ↦ fires available candidate.2 event)
    (fun candidate e ↦ eventTest_fst available candidate.2 e)
    (fun candidate e ↦ eventTest_event available candidate.2 e) (candidates cycle state)
    { event }).1
  exact congrArg Option.toList hfind

/-- The accept flag of a command after its tests: the outcome of the selection when some
`CmdTransition` was offered the command, and true otherwise. -/
theorem selectTransitions_accepted (cmd : TransitionCmd) :
    (selectTransitions cycle available (chart.path state.generated) (.cmdEvent cmd)).2.accepted =
      if (candidates cycle state).any (fun candidate ↦ candidate.2.kind.isCommand) then
        (selected cycle available state (.cmdEvent cmd)).isSome
      else true := by
  have hfind := (Statechart.firstEnabled_eq_find (fun candidate ↦ eventTest available candidate.2)
    QEvent.event (fun candidate event ↦ fires available candidate.2 event)
    (fun candidate e ↦ eventTest_fst available candidate.2 e)
    (fun candidate e ↦ eventTest_event available candidate.2 e) (candidates cycle state)
    { event := .cmdEvent cmd }).1
  have hevent : ({ event := .cmdEvent cmd } : QEvent).event = .cmdEvent cmd := rfl
  have hflag := Statechart.firstEnabled_flag
    (fun candidate : PackmlState × PackmlTransition ↦ eventTest available candidate.2)
    (fun e : QEvent ↦ e.event = .cmdEvent cmd) QEvent.accepted
    (fun candidate ↦ candidate.2.kind.isCommand)
    (fun candidate _ hevent hcommand ↦
      eventTest_accepted_of_isCommand available hcommand hevent)
    (fun candidate _ hevent hcommand ↦ eventTest_of_not_isCommand available hcommand hevent)
    (fun candidate e hevent ↦ (eventTest_event available candidate.2 e).trans hevent)
    (candidates cycle state) hevent
  rw [selectTransitions, chart.selectTransitions_path _ _ (chart_atomic_generated state)]
  rw [hfind] at hflag
  exact hflag

/-- The microstep of a selected transition leads to the configuration of its target. -/
theorem enterStates_leaveStates_path {cycle : Cycle} {available : AvailableProperty}
    {state target : State} {event : PackmlEvent} {source : PackmlState}
    {transition : PackmlTransition}
    (hselected : selected cycle available state event = some (source, transition))
    (htarget : transition.targetState = target.generated) :
    enterStates [(source, transition)]
        (leaveStates [(source, transition)] (chart.path state.generated)) =
      chart.path target.generated := by
  have hsource := (selected_some hselected).1
  simp only [enterStates, leaveStates, List.foldl_cons, List.foldl_nil, htarget]
  exact chart.enterStates_exitStates_path hsource

/-- One event in the configuration of a state: the machine moves to the configuration of the state
in the flat table, and `setState` keeps the stored value equal to it. -/
theorem processEvent_path (cycle : Cycle) {machine : StateMachine} {state : State}
    (hconfiguration : machine.configuration = chart.path state.generated) (event : PackmlEvent) :
    (processEvent cycle machine event).configuration =
        chart.path (flatStep cycle machine.gen.isAvailable
          state event).generated ∧
      (machine.stateValue = state → (processEvent cycle machine event).stateValue =
        flatStep cycle machine.gen.isAvailable state event) := by
  simp only [processEvent, hconfiguration, selectTransitions_path]
  cases hselected : selected cycle machine.gen.available state event with
  | none =>
    have hnone := (selected_none_iff _ _ _ _).mp hselected
    have hstay : flatStep cycle machine.gen.isAvailable state event = state := by
      cases hflat : flatTarget cycle state event with
      | none => simp only [flatStep, hflat]
      | some target => simp [flatStep, hflat, StatesGenerator.isAvailable, hnone target hflat]
    rw [hstay]
    exact ⟨rfl, fun hvalue ↦ hvalue⟩
  | some entry =>
    obtain ⟨source, transition⟩ := entry
    obtain ⟨-, -, target, hflat, htarget, havailable⟩ := selected_some hselected
    have hmove : flatStep cycle machine.gen.isAvailable state event = target := by
      simp [flatStep, hflat, StatesGenerator.isAvailable, havailable]
    have hdefined : target ≠ .undefined := flatTarget_ne_undefined hflat
    rw [hmove]
    refine ⟨enterStates_leaveStates_path hselected htarget, fun _ ↦ ?_⟩
    simp [enteredState, htarget, PackmlState.state, hdefined]

end Path

/-! ### The refinement -/

/-- The machine follows the flat table along every sequence of events. -/
theorem foldl_processEvent_path (cycle : Cycle) (events : List PackmlEvent) :
    ∀ (machine : StateMachine) (state : State),
      machine.configuration = chart.path state.generated →
        (events.foldl (processEvent cycle) machine).configuration =
          chart.path (events.foldl (flatStep cycle machine.gen.isAvailable) state).generated := by
  induction events with
  | nil => intro machine state hconfiguration; exact hconfiguration
  | cons event rest ih =>
    intro machine state hconfiguration
    exact ih _ _ (processEvent_path cycle hconfiguration event).1

/-- The hierarchy refines the flat table: after any sequence of events from the initial
configuration, under any assignment of the property "Available", the machine has exactly one
active leaf, it is the state that the flat table computes, and the other active objects are the
super states around it. -/
theorem hierarchy_refines_flat_table (cycle : Cycle) (gen : StatesGenerator) (stateValue : State)
    (events : List PackmlEvent) :
    let machine := events.foldl (processEvent cycle) ⟨gen, initialConfiguration, stateValue⟩
    let leaf := events.foldl (flatStep cycle gen.isAvailable) .aborted
    chart.activeLeaves machine.configuration = [leaf.generated] ∧
      machine.configuration = chart.path leaf.generated := by
  have hpath := foldl_processEvent_path cycle events ⟨gen, initialConfiguration, stateValue⟩
    .aborted rfl
  exact ⟨by rw [hpath, chart_activeLeaves_path], hpath⟩

end PackML
