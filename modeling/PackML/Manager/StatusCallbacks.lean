import Mathlib.Data.List.Chain
import PackML.Manager.NodeInterface

/-!
# What a node sees in its callback

`onStatusChanged` stores the state of a message and calls `on_status_changed`, and then does the
same with the mode. A message that changes both is therefore seen first with the mode of the
message before it: the callback is given a pair that no message carried (`torn_status_seen`).

`handleAll` is the run of a node over everything that reaches it, with a record of each message:
what the callback has seen, and what the node has afterwards. The node always has the last message
(`onStatusChanged_status`), so what the callback sees depends on two consecutive messages only
(`seen_iff`), and `callbacks_untorn_iff` is the exact condition on the messages.
-/

set_option autoImplicit false
set_option relaxedAutoImplicit false

namespace PackML

/-! ### Runs of a node -/

/-- What reaches a node: a request for a state or a mode, with the answer that the node gives, or a
Status message. -/
inductive NodeInput
  | stateRequest (state : State) (approved : Bool)
  | modeRequest (mode : ModeType) (approved : Bool)
  | status (message : Status)
  deriving DecidableEq, Repr

/-- A Status message that was handled: what each call of `on_status_changed` has seen, and what the
node has afterwards. -/
structure StatusHandling where
  message : Status
  seen : List Status
  after : Status
  deriving DecidableEq, Repr

/-- The callback has seen nothing but the message, and the node has it afterwards. -/
def StatusHandling.Untorn (handling : StatusHandling) : Prop :=
  (∀ seen ∈ handling.seen, seen = handling.message) ∧ handling.after = handling.message

instance (handling : StatusHandling) : Decidable handling.Untorn :=
  inferInstanceAs (Decidable (_ ∧ _))

namespace PackmlNodeInterface

/-- A node handles everything that reaches it, oldest first. -/
def handleAll (node : PackmlNodeInterface) : List NodeInput → List StatusHandling
  | [] => []
  | .stateRequest state approved :: rest => (node.onStateTransReq state approved).1.handleAll rest
  | .modeRequest mode approved :: rest => (node.onModeTransReq mode approved).1.handleAll rest
  | .status message :: rest =>
    let handled := node.onStatusChanged message
    ⟨message, handled.2, handled.1.status⟩ :: handled.1.handleAll rest

end PackmlNodeInterface

/-- The Status messages among the inputs. -/
def statusMessages (inputs : List NodeInput) : List Status :=
  inputs.filterMap fun input ↦
    match input with
    | .status message => some message
    | _ => none

/-- Two messages agree in the state or in the mode. -/
def Status.AgreesInField (earlier later : Status) : Prop :=
  earlier.state = later.state ∨ earlier.mode = later.mode

instance (earlier later : Status) : Decidable (earlier.AgreesInField later) :=
  inferInstanceAs (Decidable (_ ∨ _))

/-! ### One message -/

section Message

variable (node : PackmlNodeInterface)

/-- Requests leave the pair of a node. -/
theorem onStateTransReq_status (state : State) (approved : Bool) :
    (node.onStateTransReq state approved).1.status = node.status := by
  cases approved <;> rfl

theorem onModeTransReq_status (mode : ModeType) (approved : Bool) :
    (node.onModeTransReq mode approved).1.status = node.status := by
  cases approved <;> rfl

/-- What the callback sees of the first part of a message, and of the second. -/
theorem onStatusChanged_seen (message : Status) :
    (node.onStatusChanged message).2 =
      (if node.currentState ≠ message.state then [⟨message.state, node.currentMode⟩] else []) ++
        (if node.currentMode ≠ message.mode then [message] else []) := by
  unfold PackmlNodeInterface.onStatusChanged PackmlNodeInterface.onStateChanged
    PackmlNodeInterface.onModeChanged
  by_cases hstate : node.currentState = message.state
  · by_cases hmode : node.currentMode = message.mode
    · simp [hstate, hmode]
    · simp [hstate, hmode]
  · by_cases hmode : node.currentMode = message.mode
    · simp [hstate, hmode]
    · simp [hstate, hmode]

/-- The callback sees only the message exactly when the message keeps the state or the mode that
the node has. -/
theorem seen_iff (message : Status) :
    (∀ seen ∈ (node.onStatusChanged message).2, seen = message) ↔
      node.status.AgreesInField message := by
  have hpair : ∀ mode, (⟨message.state, mode⟩ : Status) = message ↔ mode = message.mode :=
    fun mode ↦ ⟨fun h ↦ congrArg Status.mode h, fun h ↦ by rw [h]⟩
  rw [onStatusChanged_seen, Status.AgreesInField]
  show _ ↔ node.currentState = message.state ∨ node.currentMode = message.mode
  by_cases hstate : node.currentState = message.state
  · by_cases hmode : node.currentMode = message.mode
    · simp [hstate, hmode]
    · simp [hstate]
  · by_cases hmode : node.currentMode = message.mode
    · simp [hstate, hmode]
    · simp [hstate, hmode, hpair]

end Message

/-! ### All messages -/

/-- A node that has a pair handles every message untorn exactly when consecutive messages, the
first of them that pair, agree in a field. -/
theorem handleAll_untorn_iff (inputs : List NodeInput) :
    ∀ node : PackmlNodeInterface,
      (∀ handling ∈ node.handleAll inputs, handling.Untorn) ↔
        List.IsChain Status.AgreesInField (node.status :: statusMessages inputs) := by
  induction inputs with
  | nil =>
    intro node
    simp [PackmlNodeInterface.handleAll, statusMessages]
  | cons input rest ih =>
    intro node
    cases input with
    | stateRequest state approved =>
      rw [PackmlNodeInterface.handleAll, ih, onStateTransReq_status]
      rfl
    | modeRequest mode approved =>
      rw [PackmlNodeInterface.handleAll, ih, onModeTransReq_status]
      rfl
    | status message =>
      have hafter := node.onStatusChanged_status message
      have hmessages : statusMessages (.status message :: rest) =
          message :: statusMessages rest := rfl
      rw [PackmlNodeInterface.handleAll, List.forall_mem_cons, ih, hafter, hmessages,
        List.isChain_cons_cons, StatusHandling.Untorn, seen_iff]
      exact and_congr_left' (and_iff_left rfl)

/-- A node acts on no torn status exactly when every message keeps the state or the mode of the
message before it, the first one of the pair that `init` has stored. -/
theorem callbacks_untorn_iff (node : PackmlNodeInterface) (inputs : List NodeInput) :
    (∀ handling ∈ node.init.handleAll inputs, handling.Untorn) ↔
      List.IsChain Status.AgreesInField (⟨.undefined, .undefined⟩ :: statusMessages inputs) :=
  handleAll_untorn_iff inputs node.init

/-- A node that starts when the machine is in IDLE in MANUAL. -/
def lateNode : PackmlNodeInterface :=
  PackmlNodeInterface.init ⟨.undefined, .undefined, .undefined, .undefined, false, false⟩

/-- In the first of two callbacks for its first message, the node has the state IDLE and the mode
UNDEFINED. -/
theorem torn_status_seen :
    lateNode.handleAll [.status ⟨.idle, .manual⟩] =
        [⟨⟨.idle, .manual⟩, [⟨.idle, .undefined⟩, ⟨.idle, .manual⟩], ⟨.idle, .manual⟩⟩] ∧
      ¬ ∀ handling ∈ lateNode.handleAll [.status ⟨.idle, .manual⟩], handling.Untorn := by
  have hrun : lateNode.handleAll [.status ⟨.idle, .manual⟩] =
      [⟨⟨.idle, .manual⟩, [⟨.idle, .undefined⟩, ⟨.idle, .manual⟩], ⟨.idle, .manual⟩⟩] := rfl
  refine ⟨hrun, ?_⟩
  rw [hrun]
  decide

end PackML
