import PackML.Machine.Transitions

/-!
# The generated transitions of the two machines

`generateAllPackmlStates` is the list of the `addTransition` calls of the generator, in order, so
that the transitions of a state object are the entries for it in that order. `ContinuousCycle`
walks over the transitions of EXECUTE and replaces the completion into COMPLETING by a completion
into EXECUTE itself (`rewireExecute`); `Cycle.transitions` is the result for each of the two
machines, and `transitions_generated`, `transitions_stoppable` and `transitions_abortable` compute
it for every state object in which the machine runs.
-/

set_option autoImplicit false
set_option relaxedAutoImplicit false

namespace PackML

/-! ### Transitions -/

/-- `StatesGenerator::TransitionType`. -/
inductive TransitionType
  | error | stateCompleted | command
  deriving DecidableEq, Repr

/-- The command that `generate_transition` derives from the target of a command transition. -/
def commandFor : State → TransitionCmd
  | .clearing => .clear
  | .starting => .start
  | .stopping => .stop
  | .aborting => .abort
  | .holding => .hold
  | .unholding => .unhold
  | .suspending => .suspend
  | .unsuspending => .unsuspend
  | .resetting => .reset
  | _ => .noCommand

/-- `StatesGenerator::generate_transition`. -/
def generateTransition (transitionTo : PackmlState) : TransitionType → PackmlTransition
  | .error => ⟨.errorTransition, transitionTo⟩
  | .stateCompleted => ⟨.stateCompleteTransition, transitionTo⟩
  | .command => ⟨.cmdTransition (commandFor transitionTo.state), transitionTo⟩

/-- The `addTransition` calls of a machine in order: source and transition. -/
abbrev AddedTransitions := List (PackmlState × PackmlTransition)

/-- `QState::transitions()`: the transitions added to a state, in the order of the calls. -/
def AddedTransitions.of (added : AddedTransitions) (source : PackmlState) :
    List PackmlTransition :=
  (added.filter fun entry ↦ entry.1 = source).map Prod.snd

/-- The `addTransition` calls of `generate_all_packml_states`. -/
def generateAllPackmlStates : AddedTransitions :=
  [(.abortable, generateTransition State.aborting.generated .command),
    (.abortable, generateTransition State.aborting.generated .error),
    (State.aborting.generated, generateTransition State.aborted.generated .stateCompleted),
    (State.aborted.generated, generateTransition State.clearing.generated .command),
    (State.clearing.generated, generateTransition State.stopped.generated .stateCompleted),
    (.stoppable, generateTransition State.stopping.generated .command),
    (State.stopping.generated, generateTransition State.stopped.generated .stateCompleted),
    (State.stopped.generated, generateTransition State.resetting.generated .command),
    (State.resetting.generated, generateTransition State.idle.generated .stateCompleted),
    (State.idle.generated, generateTransition State.starting.generated .command),
    (State.starting.generated, generateTransition State.execute.generated .stateCompleted),
    (State.execute.generated, generateTransition State.holding.generated .command),
    (State.holding.generated, generateTransition State.held.generated .stateCompleted),
    (State.held.generated, generateTransition State.unholding.generated .command),
    (State.unholding.generated, generateTransition State.execute.generated .stateCompleted),
    (State.execute.generated, generateTransition State.suspending.generated .command),
    (State.suspending.generated, generateTransition State.suspended.generated .stateCompleted),
    (State.suspended.generated, generateTransition State.unsuspending.generated .command),
    (State.unsuspending.generated, generateTransition State.execute.generated .stateCompleted),
    (State.execute.generated, generateTransition State.completing.generated .stateCompleted),
    (State.completing.generated, generateTransition State.complete.generated .stateCompleted),
    (State.complete.generated, generateTransition State.resetting.generated .command)]

/-- The loop of `ContinuousCycle::init`: for every transition of EXECUTE into COMPLETING in the
list taken beforehand, remove it and add a completion of EXECUTE into itself. -/
def rewireExecute (added : AddedTransitions) : AddedTransitions :=
  (added.of State.execute.generated).foldl
    (fun current item ↦
      if item.targetState = State.completing.generated then
        current.erase (State.execute.generated, item) ++
          [(State.execute.generated, generateTransition State.execute.generated .stateCompleted)]
      else current)
    added

/-- The two machines: `SingleCycle` and `ContinuousCycle`. -/
inductive Cycle
  | singleCycle | continuousCycle
  deriving DecidableEq, Repr

/-- The `addTransition` calls that stand after `init()`. -/
def Cycle.addedTransitions : Cycle → AddedTransitions
  | .singleCycle => generateAllPackmlStates
  | .continuousCycle => rewireExecute generateAllPackmlStates

/-- The transitions of a state object of an initialised machine. -/
def Cycle.transitions (cycle : Cycle) (source : PackmlState) : List PackmlTransition :=
  cycle.addedTransitions.of source

/-- The state that a completion of EXECUTE leads to. -/
def Cycle.executeTarget : Cycle → State
  | .singleCycle => .completing
  | .continuousCycle => .execute

theorem transitions_abortable (cycle : Cycle) :
    cycle.transitions .abortable =
      [⟨.cmdTransition .abort, State.aborting.generated⟩,
        ⟨.errorTransition, State.aborting.generated⟩] := by
  cases cycle <;> decide

theorem transitions_stoppable (cycle : Cycle) :
    cycle.transitions .stoppable = [⟨.cmdTransition .stop, State.stopping.generated⟩] := by
  cases cycle <;> decide

/-- The transitions of a simple state of the generator. -/
theorem transitions_generated (cycle : Cycle) (state : State) :
    cycle.transitions state.generated =
      match state with
      | .undefined => []
      | .aborting => [⟨.stateCompleteTransition, State.aborted.generated⟩]
      | .aborted => [⟨.cmdTransition .clear, State.clearing.generated⟩]
      | .clearing => [⟨.stateCompleteTransition, State.stopped.generated⟩]
      | .stopping => [⟨.stateCompleteTransition, State.stopped.generated⟩]
      | .stopped => [⟨.cmdTransition .reset, State.resetting.generated⟩]
      | .resetting => [⟨.stateCompleteTransition, State.idle.generated⟩]
      | .idle => [⟨.cmdTransition .start, State.starting.generated⟩]
      | .starting => [⟨.stateCompleteTransition, State.execute.generated⟩]
      | .execute =>
        [⟨.cmdTransition .hold, State.holding.generated⟩,
          ⟨.cmdTransition .suspend, State.suspending.generated⟩,
          ⟨.stateCompleteTransition, cycle.executeTarget.generated⟩]
      | .holding => [⟨.stateCompleteTransition, State.held.generated⟩]
      | .held => [⟨.cmdTransition .unhold, State.unholding.generated⟩]
      | .unholding => [⟨.stateCompleteTransition, State.execute.generated⟩]
      | .suspending => [⟨.stateCompleteTransition, State.suspended.generated⟩]
      | .suspended => [⟨.cmdTransition .unsuspend, State.unsuspending.generated⟩]
      | .unsuspending => [⟨.stateCompleteTransition, State.execute.generated⟩]
      | .completing => [⟨.stateCompleteTransition, State.complete.generated⟩]
      | .complete => [⟨.cmdTransition .reset, State.resetting.generated⟩] := by
  cases cycle <;> cases state <;> decide

end PackML
