import PackML.Machine.StatesGenerator

/-!
# The mode switcher

`modeSwitcher` installs a mode when the current state is one of `switchStates` or no mode was
installed before, and refuses with a message otherwise. Installing a mode sets the property
"Available" of the state objects that the mode lists, which `addState` has filed under their names.
`changeMode` builds the mode for a `ModeType` and says whether `on_mode_changed` is called.

`changeMode_accepted` and `changeMode_refused` are its two outcomes, split on `canSwitch`, and
`setAvailable_modeOf` gives the properties that an installed mode leaves behind.
-/

set_option autoImplicit false
set_option relaxedAutoImplicit false

namespace PackML

/-! ### The map of states -/

/-- `StatesGenerator::add_state`: files a state object under its name unless the name is taken. -/
def addState (states : List (String × PackmlState)) (object : PackmlState) :
    List (String × PackmlState) :=
  if (states.lookup object.name).isSome then states else states ++ [(object.name, object)]

/-- The member `states` after `generate_all_packml_states`: the `add_state` calls in order. -/
def states : List (String × PackmlState) :=
  [PackmlState.abortable, State.aborting.generated, State.aborted.generated,
    State.clearing.generated, State.stopping.generated, State.stopped.generated,
    State.resetting.generated, State.idle.generated, State.starting.generated,
    State.execute.generated, State.holding.generated, State.held.generated,
    State.unholding.generated, State.suspending.generated, State.suspended.generated,
    State.unsuspending.generated, State.completing.generated,
    State.complete.generated].foldl addState []

/-- Every PackML state is filed under its name. -/
theorem states_lookup {state : State} (hstate : state ≠ .undefined) :
    states.lookup state.toString = some state.generated := by
  cases state <;> first | exact absurd rfl hstate | decide

/-! ### Modes -/

/-- `StatesGenerator::AvailableStates`, in the order of the initialiser list; a map with one entry
for each state it lists. -/
abbrev AvailableStates := List (State × Bool)

/-- `StatesGenerator::Mode`. -/
structure Mode where
  name : String
  availableStates : AvailableStates
  deriving DecidableEq, Repr

/-- The mutable part of the generator: the property "Available" of the state objects and
`currentMode`. -/
structure StatesGenerator where
  available : AvailableProperty
  currentMode : Mode

/-- No property is set, and the current mode has the empty name. -/
def StatesGenerator.initial : StatesGenerator := ⟨fun _ ↦ none, ⟨"", []⟩⟩

/-- The availability of the PackML states, as the transitions into them read it. -/
def StatesGenerator.isAvailable (gen : StatesGenerator) (state : State) : Bool :=
  gen.available.toBool state.generated

/-- `switch_states`. -/
def switchStates : List State := [.idle]

/-- `setProperty("Available", ...)` for every state that a mode lists. -/
def setAvailable (available : AvailableProperty) (availableStates : AvailableStates) :
    AvailableProperty :=
  availableStates.foldl
    (fun current entry ↦
      match states.lookup entry.1.toString with
      | some object => Function.update current object (some entry.2)
      | none => current)
    available

/-- The guard of `mode_switcher`. -/
def StatesGenerator.canSwitch (gen : StatesGenerator) (currentState : State) : Bool :=
  switchStates.contains currentState || gen.currentMode.name == ""

/-- The effect of `mode_switcher`: the properties of the mode are set and it becomes current. -/
def StatesGenerator.switch (gen : StatesGenerator) (modeToSwitch : Mode) : StatesGenerator :=
  ⟨setAvailable gen.available modeToSwitch.availableStates, modeToSwitch⟩

/-- `StatesGenerator::mode_switcher`, called with the state that `getCurrentState()` returns. -/
def modeSwitcher (gen : StatesGenerator) (currentState : State) (modeToSwitch : Mode) :
    StatesGenerator × Except String Bool :=
  if gen.canSwitch currentState then (gen.switch modeToSwitch, .ok true)
  else (gen, .error ("Cannot switch mode in state: " ++ currentState.toString))

/-- The states that `changeMode` lists as available for every mode but MAINTENANCE. -/
def allAvailable : AvailableStates :=
  [(.aborting, true), (.aborted, true), (.clearing, true), (.stopping, true), (.stopped, true),
    (.resetting, true), (.idle, true), (.starting, true), (.execute, true), (.holding, true),
    (.held, true), (.unholding, true), (.suspending, true), (.suspended, true),
    (.unsuspending, true), (.completing, true), (.complete, true)]

/-- The states that `changeMode` lists for MAINTENANCE, in which COMPLETING is disabled. -/
def maintenanceAvailable : AvailableStates :=
  [(.aborting, true), (.aborted, true), (.clearing, true), (.stopping, true), (.stopped, true),
    (.resetting, true), (.idle, true), (.starting, true), (.execute, true), (.holding, true),
    (.held, true), (.unholding, true), (.suspending, true), (.suspended, true),
    (.unsuspending, true), (.completing, false), (.complete, true)]

/-- The mode that `StateMachine::changeMode` builds for a `ModeType`. -/
def modeOf (mode : ModeType) : Mode :=
  ⟨mode.toString, if mode = .maintenance then maintenanceAvailable else allAvailable⟩

/-- `StateMachine::changeMode`: the generator afterwards, the value returned, and the mode that
`on_mode_changed` is called with. -/
def changeMode (gen : StatesGenerator) (currentState : State) (mode : ModeType) :
    StatesGenerator × Except String Bool × Option ModeType :=
  match modeSwitcher gen currentState (modeOf mode) with
  | (gen', .ok value) => (gen', .ok value, some mode)
  | (gen', .error message) => (gen', .error message, none)

/-- Whether a state is available in a mode. -/
def ModeType.isAvailable (mode : ModeType) (state : State) : Bool :=
  !(decide (mode = .maintenance) && decide (state = .completing))

/-! ### The outcomes of a mode change -/

theorem changeMode_accepted {gen : StatesGenerator} {currentState : State}
    (hswitch : gen.canSwitch currentState = true) (mode : ModeType) :
    changeMode gen currentState mode = (gen.switch (modeOf mode), .ok true, some mode) := by
  simp [changeMode, modeSwitcher, hswitch]

/-- A refused mode change leaves the generator as it was and does not call `on_mode_changed`. -/
theorem changeMode_refused {gen : StatesGenerator} {currentState : State}
    (hswitch : gen.canSwitch currentState = false) (mode : ModeType) :
    changeMode gen currentState mode =
      (gen, .error ("Cannot switch mode in state: " ++ currentState.toString), none) := by
  simp [changeMode, modeSwitcher, hswitch]

/-- The modes of `changeMode` list every PackML state, once. -/
theorem modeOf_availableStates_lookup (mode : ModeType) {state : State}
    (hstate : state ≠ .undefined) :
    (modeOf mode).availableStates.lookup state = some (mode.isAvailable state) := by
  unfold modeOf ModeType.isAvailable
  by_cases hmode : mode = .maintenance
  · simp only [hmode, if_true, decide_true, Bool.true_and]
    cases state <;> first | exact absurd rfl hstate | rfl
  · simp only [hmode, if_false, decide_false, Bool.false_and]
    cases state <;> first | exact absurd rfl hstate | rfl

/-- The property that the installed mode leaves on every PackML state, whatever stood there
before. -/
theorem setAvailable_modeOf (available : AvailableProperty) (mode : ModeType) {state : State}
    (hstate : state ≠ .undefined) :
    setAvailable available (modeOf mode).availableStates state.generated =
      some (mode.isAvailable state) := by
  unfold modeOf ModeType.isAvailable
  by_cases hmode : mode = .maintenance
  · simp only [hmode, if_true, decide_true, Bool.true_and]
    cases state <;> first | exact absurd rfl hstate | rfl
  · simp only [hmode, if_false, decide_false, Bool.false_and]
    cases state <;> first | exact absurd rfl hstate | rfl

end PackML
