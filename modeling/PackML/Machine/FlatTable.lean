import PackML.Machine.ModeSwitcher

/-!
# The flat PackML table and the selection of transitions

`flatTarget` is the PackML table: the state that an event asks for in each state, without
hierarchy, transition objects or event tests. `flatStep` gates it by the availability of the
target. The table is a statement of what the machine is for; it is not translated from the source.

`candidates_isFor` connects it to the generated hierarchy: among all the transitions of a state and
of the super states around it, those that are for an event lead exactly to the target in the table.
`selected_some` and `selected_none` follow for the selection that the machine makes.
-/

set_option autoImplicit false
set_option relaxedAutoImplicit false

namespace PackML

/-! ### The table -/

/-- The states that STOP applies to. -/
def stoppableStates : List State :=
  [.resetting, .idle, .starting, .execute, .holding, .held, .unholding, .suspending, .suspended,
    .unsuspending, .completing, .complete]

/-- The states that neither ABORT nor an error applies to. -/
def notAbortableStates : List State := [.undefined, .aborting, .aborted]

/-- The target of a command in the flat table. -/
def flatCommand : TransitionCmd → State → Option State
  | .noCommand, _ => none
  | .clear, state => if state = .aborted then some .clearing else none
  | .reset, state => if state = .stopped ∨ state = .complete then some .resetting else none
  | .start, state => if state = .idle then some .starting else none
  | .hold, state => if state = .execute then some .holding else none
  | .suspend, state => if state = .execute then some .suspending else none
  | .unhold, state => if state = .held then some .unholding else none
  | .unsuspend, state => if state = .suspended then some .unsuspending else none
  | .stop, state => if state ∈ stoppableStates then some .stopping else none
  | .abort, state => if state ∈ notAbortableStates then none else some .aborting

/-- The target of a completion in the flat table. -/
def flatCompletion (cycle : Cycle) : State → Option State
  | .aborting => some .aborted
  | .clearing | .stopping => some .stopped
  | .resetting => some .idle
  | .starting | .unholding | .unsuspending => some .execute
  | .holding => some .held
  | .suspending => some .suspended
  | .completing => some .complete
  | .execute => some cycle.executeTarget
  | _ => none

/-- The state that an event asks for in each state. -/
def flatTarget (cycle : Cycle) (state : State) : PackmlEvent → Option State
  | .cmdEvent cmd => flatCommand cmd state
  | .stateCompleteEvent => flatCompletion cycle state
  | .errorEvent _ => if state ∈ notAbortableStates then none else some .aborting

/-- One event in the flat machine: the target in the table, when it is available. -/
def flatStep (cycle : Cycle) (available : State → Bool) (state : State) (event : PackmlEvent) :
    State :=
  match flatTarget cycle state event with
  | none => state
  | some target => if available target then target else state

/-- The table leads to PackML states only. -/
theorem flatTarget_ne_undefined {cycle : Cycle} {state target : State} {event : PackmlEvent}
    (htarget : flatTarget cycle state event = some target) : target ≠ .undefined := by
  rintro rfl
  cases event with
  | cmdEvent cmd => cases cmd <;> simp [flatTarget, flatCommand] at htarget
  | stateCompleteEvent => cases cycle <;> cases state <;> cases htarget
  | errorEvent code => simp [flatTarget] at htarget

/-! ### The candidates of the hierarchy -/

/-- The transitions tested in a state, in the order of the tests. -/
abbrev candidates (cycle : Cycle) (state : State) : List (PackmlState × PackmlTransition) :=
  Statechart.candidates cycle.transitions (chart.path state.generated)

/-- The transitions of a state and of the super states around it. -/
theorem candidates_eq (cycle : Cycle) (state : State) :
    candidates cycle state =
      (cycle.transitions state.generated).map (Prod.mk state.generated) ++
        (if state ∈ stoppableStates then
          [(.stoppable, ⟨.cmdTransition .stop, State.stopping.generated⟩)] else []) ++
        (if state ∈ notAbortableStates then []
          else [(.abortable, ⟨.cmdTransition .abort, State.aborting.generated⟩),
            (.abortable, ⟨.errorTransition, State.aborting.generated⟩)]) := by
  rw [candidates, Statechart.candidates, chart_path_generated]
  cases state <;>
    simp [State.superState, transitions_stoppable, transitions_abortable, stoppableStates,
      notAbortableStates]

/-- Among the transitions tested in a state, those for an event lead exactly to the target of the
flat table. -/
theorem candidates_isFor (cycle : Cycle) (state : State) (event : PackmlEvent) :
    ((candidates cycle state).filter fun candidate ↦ candidate.2.kind.isFor event).map
        (fun candidate ↦ candidate.2.targetState) =
      ((flatTarget cycle state event).map State.generated).toList := by
  rw [candidates_eq, transitions_generated]
  cases event with
  | cmdEvent cmd => cases state <;> cases cmd <;> rfl
  | stateCompleteEvent => cases state <;> rfl
  | errorEvent code => cases state <;> rfl

/-! ### The selection -/

section Selection

variable (cycle : Cycle) (available : AvailableProperty) (state : State) (event : PackmlEvent)

/-- The transition that the machine selects in a state: the first candidate that fires. -/
def selected : Option (PackmlState × PackmlTransition) :=
  (candidates cycle state).find? fun candidate ↦ fires available candidate.2 event

/-- The transition selected leads to the target of the flat table, when that is available. -/
theorem selected_target :
    (selected cycle available state event).map (fun candidate ↦ candidate.2.targetState) =
      ((flatTarget cycle state event).map State.generated).filter available.toBool := by
  have hfind : selected cycle available state event =
      ((candidates cycle state).filter fun candidate ↦ candidate.2.kind.isFor event).find?
        fun candidate ↦ available.toBool candidate.2.targetState := by
    rw [List.find?_filter]
    simp [selected, fires]
  have hfor := candidates_isFor cycle state event
  rw [hfind]
  cases htarget : flatTarget cycle state event with
  | none =>
    rw [htarget, Option.map_none, Option.toList_none, List.map_eq_nil_iff] at hfor
    rw [hfor]
    rfl
  | some target =>
    rw [htarget, Option.map_some, Option.toList_some, List.map_eq_singleton_iff] at hfor
    obtain ⟨candidate, hcandidate, hobject⟩ := hfor
    rw [hcandidate, List.find?_singleton, hobject, Option.map_some, Option.filter_some]
    split_ifs
    · rw [Option.map_some, hobject]
    · rfl

/-- A selected transition belongs to the state or to a super state around it, is for the event, and
leads to the available target of the flat table. -/
theorem selected_some {cycle : Cycle} {available : AvailableProperty} {state : State}
    {event : PackmlEvent} {source : PackmlState} {transition : PackmlTransition}
    (hselected : selected cycle available state event = some (source, transition)) :
    source ∈ chart.path state.generated ∧ transition.kind.isFor event = true ∧
      ∃ target, flatTarget cycle state event = some target ∧
        transition.targetState = target.generated ∧ available.toBool target.generated = true := by
  have htarget := selected_target cycle available state event
  have hmem := List.mem_of_find?_eq_some hselected
  have hfires := List.find?_some hselected
  rw [hselected, Option.map_some] at htarget
  obtain ⟨hobject, havailable⟩ := Option.filter_eq_some_iff.mp htarget.symm
  obtain ⟨target, hflat, hgenerated⟩ := Option.map_eq_some_iff.mp hobject
  simp only [candidates, Statechart.candidates, List.mem_flatMap, List.mem_map,
    Prod.mk.injEq] at hmem
  obtain ⟨node, hnode, other, -, rfl, rfl⟩ := hmem
  refine ⟨hnode, (Bool.and_eq_true_iff.mp hfires).1, target, hflat, hgenerated.symm, ?_⟩
  exact hgenerated ▸ havailable

/-- Nothing is selected exactly when the flat table has no available target. -/
theorem selected_none_iff :
    selected cycle available state event = none ↔
      ∀ target, flatTarget cycle state event = some target →
        available.toBool target.generated = false := by
  rw [← Option.map_eq_none_iff (f := fun candidate ↦ candidate.2.targetState), selected_target,
    Option.filter_eq_none_iff]
  simp

end Selection

end PackML
