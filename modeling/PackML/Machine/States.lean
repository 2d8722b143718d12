import PackML.Library.Statechart
import PackML.Machine.Common

/-!
# The state objects and the hierarchy they form

A running machine holds two trees of state objects with the same names: the constructor of
`StateMachine` builds one, which is never given a transition, and `StatesGenerator` builds the
other, in which the machine runs. A state object is therefore a super state or a simple state of
one of the two owners. The factories of `ActingState` and `WaitState` fix the parent of each
object, and `chart` is the resulting hierarchy: ABORTABLE contains CLEARING, STOPPING, STOPPED and
STOPPABLE, STOPPABLE contains twelve states, and ABORTING and ABORTED stand at the top.
-/

set_option autoImplicit false
set_option relaxedAutoImplicit false

namespace PackML

/-- The object that constructed a state: the constructor of the machine or its generator. -/
inductive Owner
  | stateMachine | statesGenerator
  deriving DecidableEq, Repr

/-- A state object: a `PackmlSuperState`, or an `ActingState` or `WaitState` for a PackML state. -/
inductive PackmlState
  | packmlSuperState (owner : Owner) (superState : SuperState)
  | simpleState (owner : Owner) (state : State)
  deriving DecidableEq, Repr

namespace PackmlState

/-- The `state_` of a state object; super states carry UNDEFINED. -/
def state : PackmlState → State
  | packmlSuperState _ _ => .undefined
  | simpleState _ state => state

/-- The `name_` of a state object, which its factory takes from its value. -/
def name : PackmlState → String
  | packmlSuperState _ superState => superState.toString
  | simpleState _ state => state.toString

/-- The ABORTABLE object of the generator. -/
abbrev abortable : PackmlState := packmlSuperState .statesGenerator .abortable

/-- The STOPPABLE object of the generator. -/
abbrev stoppable : PackmlState := packmlSuperState .statesGenerator .stoppable

end PackmlState

/-- The state object of the generator for a PackML state. -/
abbrev State.generated (state : State) : PackmlState :=
  .simpleState .statesGenerator state

/-- The super state that the factories are given for each state, in both trees. -/
def State.superState : State → Option SuperState
  | .undefined | .aborting | .aborted => none
  | .clearing | .stopping | .stopped => some .abortable
  | .resetting | .idle | .starting | .execute | .holding | .held | .unholding | .suspending
  | .suspended | .unsuspending | .completing | .complete => some .stoppable

/-- Whether the factories make an `ActingState` for a state; the others are made `WaitState`s. -/
def State.acting : State → Bool
  | .aborting | .clearing | .stopping | .resetting | .starting | .execute | .holding
  | .unholding | .suspending | .unsuspending | .completing => true
  | .undefined | .aborted | .stopped | .idle | .held | .suspended | .complete => false

/-- The parent of a state object. -/
def PackmlState.parent : PackmlState → Option PackmlState
  | .packmlSuperState _ .abortable => none
  | .packmlSuperState owner .stoppable => some (.packmlSuperState owner .abortable)
  | .simpleState owner state => state.superState.map (.packmlSuperState owner)

/-- The number of super states around a state object. -/
def PackmlState.depth : PackmlState → ℕ
  | .packmlSuperState _ .abortable => 0
  | .packmlSuperState _ .stoppable => 1
  | .simpleState _ state =>
    match state.superState with
    | none => 0
    | some .abortable => 1
    | some .stoppable => 2

/-- The hierarchy of all state objects of a machine. -/
def chart : Statechart PackmlState where
  parent := PackmlState.parent
  depth := PackmlState.depth
  atomic
    | .packmlSuperState _ _ => false
    | .simpleState _ _ => true
  depth_eq_succ := by
    rintro (⟨owner, superState⟩ | ⟨owner, state⟩) above hparent
    · cases superState with
      | abortable => simp [PackmlState.parent] at hparent
      | stoppable =>
        obtain rfl := Option.some.inj hparent
        rfl
    · obtain ⟨superState, hsuper, rfl⟩ := Option.map_eq_some_iff.mp hparent
      cases superState <;> simp [PackmlState.depth, hsuper]
  not_atomic := by
    rintro (⟨owner, superState⟩ | ⟨owner, state⟩) above hparent
    · cases superState with
      | abortable => simp [PackmlState.parent] at hparent
      | stoppable =>
        obtain rfl := Option.some.inj hparent
        rfl
    · obtain ⟨superState, -, rfl⟩ := Option.map_eq_some_iff.mp hparent
      rfl

@[simp] theorem chart_atomic_generated (state : State) : chart.atomic state.generated = true :=
  rfl

@[simp] theorem chart_activeLeaves_path (state : State) :
    chart.activeLeaves (chart.path state.generated) = [state.generated] :=
  chart.activeLeaves_path rfl

/-- The path of a state of the generator: the state and the super states around it. -/
theorem chart_path_generated (state : State) :
    chart.path state.generated =
      match state.superState with
      | none => [state.generated]
      | some .abortable => [state.generated, .abortable]
      | some .stoppable => [state.generated, .stoppable, .abortable] := by
  cases state <;> rfl

/-- The state objects of the two trees are distinct: the path of a state of the generator contains
no object of the constructor. -/
theorem owner_of_mem_path {state : State} {object : PackmlState}
    (hmem : object ∈ chart.path state.generated) :
    (∃ superState, object = .packmlSuperState .statesGenerator superState) ∨
      object = state.generated := by
  rw [chart_path_generated] at hmem
  split at hmem <;> grind

end PackML
