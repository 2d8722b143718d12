import PackML.Execution.Execution

/-!
# The manager node

`SMNode` is the manager with its state machine. On the Qt thread, `on_state_changed` asks all nodes
to switch to the state just entered and, when every node has approved, stores the state and
publishes it. On the ROS thread, `on_change_mode` calls `changeMode`, whose callback stores and
publishes the mode at once; then it asks all nodes, and when every node has approved it stores and
publishes the mode again. `publish_status` fills a message with the copies `current_state` and
`current_mode` that the manager keeps, and publishes it; the other thread may run in between.

The outcome of a round is an input here. `accepted` records the mode that `changeMode` has accepted
last, and every publication records the state and the mode of the machine at its moment; the code
has none of these records.
-/

set_option autoImplicit false
set_option relaxedAutoImplicit false

namespace PackML

/-- `Status.msg`. Its state is a number there, and a node casts whatever number it receives; here it
is one of the enumerators, which are all that a manager sends. -/
structure Status where
  state : State
  mode : ModeType
  deriving DecidableEq, Repr

/-- A published status, with the state the machine was in and the mode last accepted then. -/
structure Publication where
  status : Status
  machineStatus : Status
  deriving DecidableEq, Repr

/-- The response of the service for mode changes. -/
structure ModeChangeResponse where
  success : Bool
  errorCode : Int
  message : String := ""
  deriving DecidableEq, Repr

namespace ModeChangeResponse

/-- The constant `SUCCESS`, which `on_change_mode` also sends as the error code of a failure. -/
def successCode : Int := 1

end ModeChangeResponse

/-- How far `on_state_changed` is: it is about to call the nodes, waits for them, is about to fill a
message, or to publish it, or has returned. -/
inductive QtStage
  | calling
  | waiting
  | filling
  | publishing (message : Status)
  | done
  deriving DecidableEq, Repr

/-- How far `on_change_mode` is: it handles no request, `changeMode` has passed its guard, the mode
was installed and `on_mode_changed` is about to store it, to fill a message, or to publish it; the
nodes are about to be called, or waited for; a message is filled and published again. -/
inductive RosPhase
  | idle
  | changing
  | recording (mode : ModeType)
  | filling (mode : ModeType)
  | publishing (mode : ModeType) (message : Status)
  | calling (mode : ModeType)
  | waiting (mode : ModeType)
  | fillingAgain (mode : ModeType)
  | publishingAgain (mode : ModeType) (message : Status)
  deriving DecidableEq, Repr

/-- Whether a mode was installed that `on_mode_changed` has not stored. -/
def RosPhase.isRecording : RosPhase → Bool
  | .recording _ => true
  | _ => false

/-- The mode that `on_change_mode` has switched the machine to. -/
def RosPhase.mode : RosPhase → Option ModeType
  | .idle | .changing => none
  | .recording mode | .filling mode | .publishing mode _ | .calling mode | .waiting mode
  | .fillingAgain mode | .publishingAgain mode _ => some mode

/-- The message that the ROS thread has filled. -/
def RosPhase.message : RosPhase → Option Status
  | .publishing _ message | .publishingAgain _ message => some message
  | _ => none

/-- The manager node. -/
structure SMNode where
  machine : Execution
  currentState : State
  currentMode : ModeType
  qt : QtStage
  ros : RosPhase
  accepted : ModeType
  published : List Publication
  responses : List ModeChangeResponse

/-- The steps of the Qt thread in `on_state_changed` (`callState` to `publishState`), those of the
ROS thread in `on_change_mode` (`modeRequest` to `publishModeAgain`), and the other steps of the
machine. -/
inductive NodeAction
  | machine (action : Action)
  | callState
  | stateRound (approved : Bool)
  | fillState
  | publishState
  | modeRequest (mode : ModeType)
  | install
  | recordMode
  | fillMode
  | publishMode
  | callMode
  | modeRound (approved : Bool)
  | fillModeAgain
  | publishModeAgain
  deriving DecidableEq

namespace SMNode

variable (s : SMNode)

/-- `publish_status` up to its last statement: the message that it fills. -/
def fillStatus : Status := ⟨s.currentState, s.currentMode⟩

/-- The last statement of `publish_status`. -/
def publishStatus (message : Status) : SMNode :=
  { s with published := s.published ++ [⟨message, ⟨s.machine.stateValue, s.accepted⟩⟩] }

/-- The message that the Qt thread has filled. -/
def qtMessage : List Status :=
  match s.qt with
  | .publishing message => [message]
  | _ => []

/-- What a step publishes. -/
def statusSent : NodeAction → List Status
  | .publishState => s.qtMessage
  | .publishMode | .publishModeAgain => s.ros.message.toList
  | _ => []

/-- `on_change_mode` answers, and the ROS thread is ready for the next request. -/
def respond (response : ModeChangeResponse) : SMNode :=
  { s with ros := .idle, responses := s.responses ++ [response] }

/-- A step of the machine; modes are changed by `on_change_mode`, and the notification of a state
is over when `on_state_changed` has returned. -/
def machineStep (cycle : Cycle) : Action → Option SMNode
  | .changeMode _ | .modeSwitched => none
  | .notified =>
    if s.qt = .done then s.machine.notified.map fun machine ↦ { s with machine := machine }
    else none
  | .enter => s.machine.enter.map fun machine ↦ { s with machine := machine, qt := .calling }
  | action =>
    ((execution cycle).next s.machine action).map fun machine ↦ { s with machine := machine }

/-- `call_all_clients` in `on_state_changed`. -/
def callState : Option SMNode :=
  match s.machine.phase, s.qt with
  | .notifying _, .calling => some { s with qt := .waiting }
  | _, _ => none

/-- `wait_all_futures` in `on_state_changed`, and what follows up to `publish_status`. -/
def stateRound (approved : Bool) : Option SMNode :=
  match s.machine.phase, s.qt with
  | .notifying state, .waiting =>
    if approved then
      some { s with currentState := state, qt := .filling }
    else some { s with qt := .done }
  | _, _ => none

/-- `publish_status` in `on_state_changed` fills its message. -/
def fillState : Option SMNode :=
  match s.qt with
  | .filling => some { s with qt := .publishing s.fillStatus }
  | _ => none

/-- `publish_status` in `on_state_changed` publishes its message. -/
def publishState : Option SMNode :=
  match s.qt with
  | .publishing message => some { s.publishStatus message with qt := .done }
  | _ => none

/-- `on_change_mode` begins and `changeMode` evaluates its guard. -/
def modeRequest (mode : ModeType) : Option SMNode :=
  match s.ros with
  | .idle =>
    (s.machine.changeMode mode).map fun machine ↦
      match (PackML.changeMode s.machine.gen s.machine.stateValue mode).2.1 with
      | .ok _ => { s with machine := machine, ros := .changing }
      | .error message => s.respond ⟨false, ModeChangeResponse.successCode, message⟩
  | _ => none

/-- `mode_switcher` installs the mode. -/
def install : Option SMNode :=
  match s.ros, s.machine.switching with
  | .changing, some mode =>
    s.machine.modeSwitched.map fun machine ↦
      { s with
        machine := machine
        ros := .recording mode
        accepted := mode }
  | _, _ => none

/-- `current_mode = value` in `on_mode_changed`. -/
def recordMode : Option SMNode :=
  match s.ros with
  | .recording mode => some { s with currentMode := mode, ros := .filling mode }
  | _ => none

/-- `publish_status` in `on_mode_changed` fills its message. -/
def fillMode : Option SMNode :=
  match s.ros with
  | .filling mode =>
    some { s with ros := .publishing mode s.fillStatus }
  | _ => none

/-- `publish_status` in `on_mode_changed` publishes its message. -/
def publishMode : Option SMNode :=
  match s.ros with
  | .publishing mode message => some { s.publishStatus message with ros := .calling mode }
  | _ => none

/-- `call_all_clients` in `on_change_mode`. -/
def callMode : Option SMNode :=
  match s.ros with
  | .calling mode => some { s with ros := .waiting mode }
  | _ => none

/-- `wait_all_futures` in `on_change_mode`, and what follows up to `publish_status`. -/
def modeRound (approved : Bool) : Option SMNode :=
  match s.ros with
  | .waiting mode =>
    if approved then some { s with currentMode := mode, ros := .fillingAgain mode }
    else some (s.respond ⟨false, ModeChangeResponse.successCode,
      "Error in one of the packml clients"⟩)
  | _ => none

/-- `publish_status` at the end of `on_change_mode` fills its message. -/
def fillModeAgain : Option SMNode :=
  match s.ros with
  | .fillingAgain mode =>
    some { s with ros := .publishingAgain mode s.fillStatus }
  | _ => none

/-- `publish_status` at the end of `on_change_mode` publishes its message, and `on_change_mode`
answers. -/
def publishModeAgain : Option SMNode :=
  match s.ros with
  | .publishingAgain _ message =>
    some ((s.publishStatus message).respond
      { success := true, errorCode := ModeChangeResponse.successCode })
  | _ => none

/-- The manager after its constructor: MANUAL was accepted and recorded, and the machine has been
activated and has entered ABORTED. -/
def activated : SMNode where
  machine := { Execution.activated with
    gen := StatesGenerator.initial.switch (modeOf .manual) }
  currentState := .undefined
  currentMode := .manual
  qt := .calling
  ros := .idle
  accepted := .manual
  published := []
  responses := []

end SMNode

/-- The runs of an activated manager node. -/
def smNode (cycle : Cycle) : TransitionSystem SMNode NodeAction where
  initial s := s = .activated
  next s
    | .machine action => s.machineStep cycle action
    | .callState => s.callState
    | .stateRound approved => s.stateRound approved
    | .fillState => s.fillState
    | .publishState => s.publishState
    | .modeRequest mode => s.modeRequest mode
    | .install => s.install
    | .recordMode => s.recordMode
    | .fillMode => s.fillMode
    | .publishMode => s.publishMode
    | .callMode => s.callMode
    | .modeRound approved => s.modeRound approved
    | .fillModeAgain => s.fillModeAgain
    | .publishModeAgain => s.publishModeAgain

/-! ### What each step does -/

section Steps

variable {cycle : Cycle} {s t : SMNode}

/-- A step of the machine moves it alone, but an entry begins `on_state_changed`; the machine goes
on when that is over. -/
theorem machineStep_node {action : Action} (hnext : s.machineStep cycle action = some t) :
    ∃ machine, (execution cycle).next s.machine action = some machine ∧
      ((action = .enter ∧ t = { s with machine := machine, qt := .calling }) ∨
        (action ≠ .enter ∧ (action = .notified → s.qt = .done) ∧
          t = { s with machine := machine })) := by
  unfold SMNode.machineStep at hnext
  split at hnext
  · cases hnext
  · cases hnext
  · obtain ⟨hdone, hnext⟩ := Option.ite_none_right_eq_some.mp hnext
    obtain ⟨machine, hmachine, rfl⟩ := Option.map_eq_some_iff.mp hnext
    exact ⟨machine, hmachine, Or.inr ⟨by simp, fun _ ↦ hdone, rfl⟩⟩
  · obtain ⟨machine, hmachine, rfl⟩ := Option.map_eq_some_iff.mp hnext
    exact ⟨machine, hmachine, Or.inl ⟨rfl, rfl⟩⟩
  · rename_i hnotified henter
    obtain ⟨machine, hmachine, rfl⟩ := Option.map_eq_some_iff.mp hnext
    exact ⟨machine, hmachine, Or.inr ⟨henter, fun h ↦ absurd h hnotified, rfl⟩⟩

theorem callState_spec (hnext : s.callState = some t) :
    (∃ state, s.machine.phase = .notifying state) ∧ s.qt = .calling ∧
      t = { s with qt := .waiting } := by
  unfold SMNode.callState at hnext
  split at hnext
  · rename_i state hphase hqt
    exact ⟨⟨state, hphase⟩, hqt, (Option.some.inj hnext).symm⟩
  · cases hnext

theorem stateRound_spec {approved : Bool} (hnext : s.stateRound approved = some t) :
    s.qt = .waiting ∧ ∃ state, s.machine.phase = .notifying state ∧
      ((approved = true ∧
          t = { s with currentState := state, qt := .filling }) ∨
        (approved = false ∧ t = { s with qt := .done })) := by
  unfold SMNode.stateRound at hnext
  split at hnext
  · rename_i state hphase hqt
    refine ⟨hqt, state, hphase, ?_⟩
    by_cases happroved : approved = true
    · rw [if_pos happroved] at hnext
      exact Or.inl ⟨happroved, (Option.some.inj hnext).symm⟩
    · rw [if_neg happroved] at hnext
      exact Or.inr ⟨Bool.eq_false_iff.mpr happroved, (Option.some.inj hnext).symm⟩
  · cases hnext

theorem fillState_spec (hnext : s.fillState = some t) :
    s.qt = .filling ∧ t = { s with qt := .publishing s.fillStatus } := by
  unfold SMNode.fillState at hnext
  split at hnext
  · rename_i hqt
    exact ⟨hqt, (Option.some.inj hnext).symm⟩
  · cases hnext

theorem publishState_spec (hnext : s.publishState = some t) :
    ∃ message, s.qt = .publishing message ∧
      t = { s.publishStatus message with qt := .done } := by
  unfold SMNode.publishState at hnext
  split at hnext
  · rename_i message hqt
    exact ⟨message, hqt, (Option.some.inj hnext).symm⟩
  · cases hnext

/-- `on_change_mode` goes on when the guard of the mode change has passed, and else answers. -/
theorem modeRequest_spec {mode : ModeType} (hnext : s.modeRequest mode = some t) :
    s.ros = .idle ∧
      ((∃ machine, s.machine.changeMode mode = some machine ∧
          t = { s with machine := machine, ros := .changing }) ∨
        (∃ response, response.success = false ∧
          t = { s with ros := .idle, responses := s.responses ++ [response] })) := by
  unfold SMNode.modeRequest at hnext
  split at hnext
  · rename_i hros
    obtain ⟨machine, hmachine, hnext⟩ := Option.map_eq_some_iff.mp hnext
    refine ⟨hros, ?_⟩
    cases hswitch : s.machine.gen.canSwitch s.machine.stateValue with
    | true =>
      rw [changeMode_accepted hswitch] at hnext
      exact Or.inl ⟨machine, hmachine, hnext.symm⟩
    | false =>
      rw [changeMode_refused hswitch] at hnext
      exact Or.inr ⟨_, rfl, hnext.symm⟩
  · cases hnext

theorem install_spec (hnext : s.install = some t) :
    s.ros = .changing ∧ ∃ mode machine, s.machine.switching = some mode ∧
      s.machine.modeSwitched = some machine ∧
        t = { s with
          machine := machine
          ros := .recording mode
          accepted := mode } := by
  unfold SMNode.install at hnext
  split at hnext
  · rename_i mode hros hswitching
    obtain ⟨machine, hmachine, rfl⟩ := Option.map_eq_some_iff.mp hnext
    exact ⟨hros, mode, machine, hswitching, hmachine, rfl⟩
  · cases hnext

theorem recordMode_spec (hnext : s.recordMode = some t) :
    ∃ mode, s.ros = .recording mode ∧
      t = { s with currentMode := mode, ros := .filling mode } := by
  unfold SMNode.recordMode at hnext
  split at hnext
  · rename_i mode hros
    exact ⟨mode, hros, (Option.some.inj hnext).symm⟩
  · cases hnext

theorem fillMode_spec (hnext : s.fillMode = some t) :
    ∃ mode, s.ros = .filling mode ∧
      t = { s with ros := .publishing mode s.fillStatus } := by
  unfold SMNode.fillMode at hnext
  split at hnext
  · rename_i mode hros
    exact ⟨mode, hros, (Option.some.inj hnext).symm⟩
  · cases hnext

theorem publishMode_spec (hnext : s.publishMode = some t) :
    ∃ mode message, s.ros = .publishing mode message ∧
      t = { s.publishStatus message with ros := .calling mode } := by
  unfold SMNode.publishMode at hnext
  split at hnext
  · rename_i mode message hros
    exact ⟨mode, message, hros, (Option.some.inj hnext).symm⟩
  · cases hnext

theorem callMode_spec (hnext : s.callMode = some t) :
    ∃ mode, s.ros = .calling mode ∧ t = { s with ros := .waiting mode } := by
  unfold SMNode.callMode at hnext
  split at hnext
  · rename_i mode hros
    exact ⟨mode, hros, (Option.some.inj hnext).symm⟩
  · cases hnext

theorem modeRound_spec {approved : Bool} (hnext : s.modeRound approved = some t) :
    ∃ mode, s.ros = .waiting mode ∧
      ((approved = true ∧ t = { s with currentMode := mode, ros := .fillingAgain mode }) ∨
        (approved = false ∧ ∃ response, response.success = false ∧
          t = { s with ros := .idle, responses := s.responses ++ [response] })) := by
  unfold SMNode.modeRound at hnext
  split at hnext
  · rename_i mode hros
    refine ⟨mode, hros, ?_⟩
    by_cases happroved : approved = true
    · rw [if_pos happroved] at hnext
      exact Or.inl ⟨happroved, (Option.some.inj hnext).symm⟩
    · rw [if_neg happroved] at hnext
      exact Or.inr ⟨Bool.eq_false_iff.mpr happroved, _, rfl, (Option.some.inj hnext).symm⟩
  · cases hnext

theorem fillModeAgain_spec (hnext : s.fillModeAgain = some t) :
    ∃ mode, s.ros = .fillingAgain mode ∧
      t = { s with ros := .publishingAgain mode s.fillStatus } := by
  unfold SMNode.fillModeAgain at hnext
  split at hnext
  · rename_i mode hros
    exact ⟨mode, hros, (Option.some.inj hnext).symm⟩
  · cases hnext

theorem publishModeAgain_spec (hnext : s.publishModeAgain = some t) :
    ∃ mode message, s.ros = .publishingAgain mode message ∧
      ∃ response, response.success = true ∧ t = { s.publishStatus message with
        ros := .idle, responses := s.responses ++ [response] } := by
  unfold SMNode.publishModeAgain at hnext
  split at hnext
  · rename_i mode message hros
    exact ⟨mode, message, hros, _, rfl, (Option.some.inj hnext).symm⟩
  · cases hnext

/-- Every publication is one that the step sends, with the state and the mode of its moment. -/
theorem published_step {action : NodeAction} (hnext : (smNode cycle).next s action = some t) :
    t.published = s.published ++ (s.statusSent action).map fun message ↦
      ⟨message, ⟨s.machine.stateValue, s.accepted⟩⟩ := by
  cases action with
  | machine step =>
    obtain ⟨machine, -, ⟨-, rfl⟩ | ⟨-, -, rfl⟩⟩ := machineStep_node hnext
    · exact (List.append_nil _).symm
    · exact (List.append_nil _).symm
  | callState =>
    obtain ⟨-, -, rfl⟩ := callState_spec hnext
    exact (List.append_nil _).symm
  | stateRound approved =>
    obtain ⟨-, state, -, ⟨-, rfl⟩ | ⟨-, rfl⟩⟩ := stateRound_spec hnext
    · exact (List.append_nil _).symm
    · exact (List.append_nil _).symm
  | fillState =>
    obtain ⟨-, rfl⟩ := fillState_spec hnext
    exact (List.append_nil _).symm
  | publishState =>
    obtain ⟨message, hqt, rfl⟩ := publishState_spec hnext
    simp [SMNode.publishStatus, SMNode.statusSent, SMNode.qtMessage, hqt]
  | modeRequest mode =>
    obtain ⟨-, ⟨machine, -, rfl⟩ | ⟨response, -, rfl⟩⟩ := modeRequest_spec hnext
    · exact (List.append_nil _).symm
    · exact (List.append_nil _).symm
  | install =>
    obtain ⟨-, mode, machine, -, -, rfl⟩ := install_spec hnext
    exact (List.append_nil _).symm
  | recordMode =>
    obtain ⟨mode, -, rfl⟩ := recordMode_spec hnext
    exact (List.append_nil _).symm
  | fillMode =>
    obtain ⟨mode, -, rfl⟩ := fillMode_spec hnext
    exact (List.append_nil _).symm
  | publishMode =>
    obtain ⟨mode, message, hphase, rfl⟩ := publishMode_spec hnext
    simp [SMNode.publishStatus, SMNode.statusSent, RosPhase.message, hphase]
  | callMode =>
    obtain ⟨mode, -, rfl⟩ := callMode_spec hnext
    exact (List.append_nil _).symm
  | modeRound approved =>
    obtain ⟨mode, -, ⟨-, rfl⟩ | ⟨-, response, -, rfl⟩⟩ := modeRound_spec hnext
    · exact (List.append_nil _).symm
    · exact (List.append_nil _).symm
  | fillModeAgain =>
    obtain ⟨mode, -, rfl⟩ := fillModeAgain_spec hnext
    exact (List.append_nil _).symm
  | publishModeAgain =>
    obtain ⟨mode, message, hphase, response, -, rfl⟩ := publishModeAgain_spec hnext
    simp [SMNode.publishStatus, SMNode.statusSent, RosPhase.message, hphase]

/-- The machine of the manager runs as it does alone. -/
theorem nodeMachine_reachable (hrun : (smNode cycle).Reachable s) :
    (execution cycle).Reachable s.machine := by
  refine hrun.invariant ?_ ?_
  · rintro s rfl
    exact TransitionSystem.reachable_of_runFrom (.initial rfl)
      [.changeMode .manual, .modeSwitched] rfl
  · intro s action t hs hnext
    cases action with
    | machine action =>
      obtain ⟨machine, hmachine, ⟨-, rfl⟩ | ⟨-, -, rfl⟩⟩ := machineStep_node hnext
      · exact hs.step hmachine
      · exact hs.step hmachine
    | callState =>
      obtain ⟨-, -, rfl⟩ := callState_spec hnext
      exact hs
    | stateRound approved =>
      obtain ⟨-, state, -, ⟨-, rfl⟩ | ⟨-, rfl⟩⟩ := stateRound_spec hnext
      · exact hs
      · exact hs
    | fillState =>
      obtain ⟨-, rfl⟩ := fillState_spec hnext
      exact hs
    | publishState =>
      obtain ⟨message, -, rfl⟩ := publishState_spec hnext
      exact hs
    | modeRequest mode =>
      obtain ⟨-, ⟨machine, hmachine, rfl⟩ | ⟨response, -, rfl⟩⟩ := modeRequest_spec hnext
      · exact TransitionSystem.Reachable.step hs (show (execution cycle).next _
          (.changeMode mode) = _ from hmachine)
      · exact hs
    | install =>
      obtain ⟨-, mode, machine, -, hmachine, rfl⟩ := install_spec hnext
      exact TransitionSystem.Reachable.step hs (show (execution cycle).next _ .modeSwitched = _
        from hmachine)
    | recordMode =>
      obtain ⟨mode, -, rfl⟩ := recordMode_spec hnext
      exact hs
    | fillMode =>
      obtain ⟨mode, -, rfl⟩ := fillMode_spec hnext
      exact hs
    | publishMode =>
      obtain ⟨mode, message, -, rfl⟩ := publishMode_spec hnext
      exact hs
    | callMode =>
      obtain ⟨mode, -, rfl⟩ := callMode_spec hnext
      exact hs
    | modeRound approved =>
      obtain ⟨mode, -, ⟨-, rfl⟩ | ⟨-, response, -, rfl⟩⟩ := modeRound_spec hnext
      · exact hs
      · exact hs
    | fillModeAgain =>
      obtain ⟨mode, -, rfl⟩ := fillModeAgain_spec hnext
      exact hs
    | publishModeAgain =>
      obtain ⟨mode, message, -, response, -, rfl⟩ := publishModeAgain_spec hnext
      exact hs

end Steps

end PackML
