import PackML.Library.Follower
import PackML.Manager.SMNode

/-!
# The nodes

`PackmlNodeInterface` is the side of a node: its two services approve or refuse the state or the
mode that the manager is about to publish, and its subscription follows the status that is
published. The state and the mode of a node are two followers; `onStatusChanged` and the two
services act on them as the rules for followers say.

What a node answers to `on_state_trans_req` and `on_mode_trans_req` is an input.
-/

set_option autoImplicit false
set_option relaxedAutoImplicit false

namespace PackML

/-- The response of a node to the request to switch to a state or a mode. -/
structure TransitionResponse where
  success : Bool
  errorCode : Int := 0
  message : String := ""
  deriving DecidableEq, Repr

/-- A node. -/
structure PackmlNodeInterface where
  currentMode : ModeType
  switchingMode : ModeType
  currentState : State
  switchingState : State
  waitingForNewMode : Bool
  waitingForNewState : Bool
  deriving DecidableEq, Repr

namespace PackmlNodeInterface

variable (node : PackmlNodeInterface)

/-- `init`, which leaves the two flags as they are. -/
def init : PackmlNodeInterface :=
  { node with
    currentMode := .undefined
    currentState := .undefined
    switchingMode := .undefined
    switchingState := .undefined }

/-- The text with which both services begin. -/
def waitingError : String :=
  if node.waitingForNewState then "Changing state but already waiting on new state"
  else if node.waitingForNewMode then "Changing state but mode change is still active"
  else ""

/-- What both services answer: the error is sent only without success. -/
def response (success : Bool) (errorString : String) : TransitionResponse :=
  if success then { success := success } else { success := success, message := errorString }

/-- `onStateTranseReq`, when `on_state_trans_req` returns `approved`. -/
def onStateTransReq (state : State) (approved : Bool) :
    PackmlNodeInterface × TransitionResponse :=
  if approved then
    ({ node with waitingForNewState := true, switchingState := state },
      response true node.waitingError)
  else (node, response false "Node did not approve state switch")

/-- `onModeTransReq`, when `on_mode_trans_req` returns `approved`. -/
def onModeTransReq (mode : ModeType) (approved : Bool) :
    PackmlNodeInterface × TransitionResponse :=
  if approved then
    ({ node with waitingForNewMode := true, switchingMode := mode },
      response true node.waitingError)
  else (node, response false "Node did not approve mode switch")

/-- The state and the mode that a node has. -/
def status : Status := ⟨node.currentState, node.currentMode⟩

/-- The part of `onStatusChanged` for the state: the node, and what `on_status_changed` sees when
it is called. -/
def onStateChanged (state : State) : PackmlNodeInterface × List Status :=
  if node.currentState ≠ state then
    ({ node with currentState := state, waitingForNewState := false }, [⟨state, node.currentMode⟩])
  else (node, [])

/-- The part of `onStatusChanged` for the mode. -/
def onModeChanged (mode : ModeType) : PackmlNodeInterface × List Status :=
  if node.currentMode ≠ mode then
    ({ node with currentMode := mode, waitingForNewMode := false }, [⟨node.currentState, mode⟩])
  else (node, [])

/-- `onStatusChanged`: the node, and what each call of `on_status_changed` sees. -/
def onStatusChanged (status : Status) : PackmlNodeInterface × List Status :=
  let afterState := node.onStateChanged status.state
  let afterMode := afterState.1.onModeChanged status.mode
  (afterMode.1, afterState.2 ++ afterMode.2)

/-! ### Nodes as followers -/

/-- The state of a node, as a follower. -/
def stateFollower : Follower State :=
  ⟨node.currentState, node.switchingState, node.waitingForNewState⟩

/-- The mode of a node, as a follower. -/
def modeFollower : Follower ModeType :=
  ⟨node.currentMode, node.switchingMode, node.waitingForNewMode⟩

@[simp] theorem onStateTransReq_stateFollower (state : State) :
    (node.onStateTransReq state true).1.stateFollower = node.stateFollower.approve state := rfl

@[simp] theorem onModeTransReq_modeFollower (mode : ModeType) :
    (node.onModeTransReq mode true).1.modeFollower = node.modeFollower.approve mode := rfl

@[simp] theorem onStateTransReq_success (state : State) (approved : Bool) :
    (node.onStateTransReq state approved).2.success = approved := by
  cases approved <;> rfl

@[simp] theorem onModeTransReq_stateFollower (mode : ModeType) (approved : Bool) :
    (node.onModeTransReq mode approved).1.stateFollower = node.stateFollower := by
  cases approved <;> rfl

@[simp] theorem onStateChanged_stateFollower (state : State) :
    (node.onStateChanged state).1.stateFollower = node.stateFollower.receive state := by
  by_cases hsame : node.currentState = state
  · rw [onStateChanged, if_neg (not_not.mpr hsame)]
    exact (Follower.receive_same hsame).symm
  · rw [onStateChanged, if_pos hsame]
    exact (node.stateFollower.receive_other hsame).symm

@[simp] theorem onStateChanged_modeFollower (state : State) :
    (node.onStateChanged state).1.modeFollower = node.modeFollower := by
  unfold onStateChanged
  split <;> rfl

@[simp] theorem onModeChanged_stateFollower (mode : ModeType) :
    (node.onModeChanged mode).1.stateFollower = node.stateFollower := by
  unfold onModeChanged
  split <;> rfl

@[simp] theorem onModeChanged_modeFollower (mode : ModeType) :
    (node.onModeChanged mode).1.modeFollower = node.modeFollower.receive mode := by
  by_cases hsame : node.currentMode = mode
  · rw [onModeChanged, if_neg (not_not.mpr hsame)]
    exact (Follower.receive_same hsame).symm
  · rw [onModeChanged, if_pos hsame]
    exact (node.modeFollower.receive_other hsame).symm

@[simp] theorem onStatusChanged_stateFollower (status : Status) :
    (node.onStatusChanged status).1.stateFollower = node.stateFollower.receive status.state := by
  simp only [onStatusChanged, onModeChanged_stateFollower, onStateChanged_stateFollower]

@[simp] theorem onStatusChanged_modeFollower (status : Status) :
    (node.onStatusChanged status).1.modeFollower = node.modeFollower.receive status.mode := by
  simp only [onStatusChanged, onModeChanged_modeFollower, onStateChanged_modeFollower]

/-- A node has the status that it received last. -/
theorem onStatusChanged_status (status : Status) :
    (node.onStatusChanged status).1.status = status := by
  have hstate := congrArg Follower.current (node.onStatusChanged_stateFollower status)
  have hmode := congrArg Follower.current (node.onStatusChanged_modeFollower status)
  rw [Follower.receive_current] at hstate hmode
  exact congrArg₂ Status.mk hstate hmode

end PackmlNodeInterface

end PackML
