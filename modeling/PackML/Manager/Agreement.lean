import PackML.Manager.Network
import PackML.Manager.PublishedStatus

/-!
# Agreement of the nodes with the manager

When its Status messages are delivered, a node has the status that the manager published last. It
may wait for ever, though: the first publication of a mode change may arrive before the request, and
then no Status that still comes differs from what the node has; the same happens when a mode or a
state is requested that is already in force (`node_keeps_waiting`). `RequestsChange` excludes the
requests at which the value of the node and all Status messages under way equal the value requested,
and then every node agrees and waits for nothing when no round is in progress (`nodes_agree`).
`LinkInvariant` says that a node that waits is served, in the sense of followers, by the messages
under way and by the publication with which the round will end.
-/

set_option autoImplicit false
set_option relaxedAutoImplicit false

namespace PackML

/-! ### Requests that announce a change -/

/-- A node handles a request only while the value that it has, or one in a Status under way to it,
differs from the value requested. -/
def RequestsChange {Client : Type} (s : Network Client) : NetworkAction Client → Prop
  | .handleState client =>
    ∀ state ∈ (s.link client).stateRequests.head?, ∃ other ∈
      (s.link client).node.currentState :: (s.link client).statuses.map (·.state), other ≠ state
  | .handleMode client =>
    ∀ mode ∈ (s.link client).modeRequests.head?, ∃ other ∈
      (s.link client).node.currentMode :: (s.link client).statuses.map (·.mode), other ≠ mode
  | _ => True

instance {Client : Type} (s : Network Client) : (action : NetworkAction Client) →
    Decidable (RequestsChange s action)
  | .handleState _ | .handleMode _ => inferInstanceAs (Decidable (∀ _ ∈ (_ : Option _), _))
  | .manager _ | .handleStatus _ => inferInstanceAs (Decidable True)

/-! ### What the manager is going to publish -/

/-- The state with which the round of the Qt thread will end. -/
def SMNode.comingStates (s : SMNode) : List State :=
  match s.qt with
  | .waiting | .filling => [s.machine.stateValue]
  | .publishing message => [message.state]
  | _ => []

/-- The mode with which the round of the ROS thread will end. -/
def RosPhase.comingModes : RosPhase → List ModeType
  | .waiting mode | .fillingAgain mode => [mode]
  | .publishingAgain _ message => [message.mode]
  | _ => []

/-- Whether the Qt thread has called the nodes for the state just entered and has not published it
yet. -/
def QtStage.inRound : QtStage → Bool
  | .waiting | .filling | .publishing _ => true
  | .calling | .done => false

/-- Whether the ROS thread has called the nodes for a mode and has not published it again yet. -/
def RosPhase.inRound : RosPhase → Bool
  | .waiting _ | .fillingAgain _ | .publishingAgain _ _ => true
  | _ => false

theorem comingStates_of_not_inRound {s : SMNode} (hround : s.qt.inRound = false) :
    s.comingStates = [] := by
  unfold SMNode.comingStates
  split <;> simp_all [QtStage.inRound]

theorem comingModes_of_not_inRound {phase : RosPhase} (hround : phase.inRound = false) :
    phase.comingModes = [] := by
  unfold RosPhase.comingModes
  split <;> simp_all [RosPhase.inRound]

/-- Whether a step belongs to the ROS thread. -/
def NodeAction.onRos : NodeAction → Bool
  | .modeRequest _ | .install | .recordMode | .fillMode | .publishMode | .callMode | .modeRound _
  | .fillModeAgain | .publishModeAgain => true
  | .machine _ | .callState | .stateRound _ | .fillState | .publishState => false

/-- The phase in which a step of the ROS thread starts. -/
def NodeAction.startsAt : NodeAction → RosPhase → Bool
  | .modeRequest _, .idle | .install, .changing | .recordMode, .recording _
  | .fillMode, .filling _ | .publishMode, .publishing _ _ | .callMode, .calling _
  | .modeRound _, .waiting _ | .fillModeAgain, .fillingAgain _
  | .publishModeAgain, .publishingAgain _ _ => true
  | _, _ => false

section Manager

variable {cycle : Cycle} {s t : SMNode} {action : NodeAction}

/-- The ROS thread leaves the Qt thread and the state of the machine as they are. -/
theorem qt_kept (hros : action.onRos = true) (hnext : (smNode cycle).next s action = some t) :
    t.qt = s.qt ∧ t.machine.stateValue = s.machine.stateValue := by
  cases action with
  | machine | callState | stateRound | fillState | publishState => cases hros
  | modeRequest mode =>
    obtain ⟨-, ⟨machine, hmachine, rfl⟩ | ⟨response, -, rfl⟩⟩ := modeRequest_spec hnext
    · obtain ⟨-, ⟨-, rfl⟩ | ⟨-, rfl⟩⟩ := changeMode_spec hmachine
      · exact ⟨rfl, rfl⟩
      · exact ⟨rfl, rfl⟩
    · exact ⟨rfl, rfl⟩
  | install =>
    obtain ⟨-, mode, machine, -, hmachine, rfl⟩ := install_spec hnext
    obtain ⟨-, -, rfl⟩ := modeSwitched_spec hmachine
    exact ⟨rfl, rfl⟩
  | recordMode =>
    obtain ⟨mode, -, rfl⟩ := recordMode_spec hnext
    exact ⟨rfl, rfl⟩
  | fillMode =>
    obtain ⟨mode, -, rfl⟩ := fillMode_spec hnext
    exact ⟨rfl, rfl⟩
  | publishMode =>
    obtain ⟨mode, message, -, rfl⟩ := publishMode_spec hnext
    exact ⟨rfl, rfl⟩
  | callMode =>
    obtain ⟨mode, -, rfl⟩ := callMode_spec hnext
    exact ⟨rfl, rfl⟩
  | modeRound approved =>
    obtain ⟨mode, -, ⟨-, rfl⟩ | ⟨-, response, -, rfl⟩⟩ := modeRound_spec hnext
    · exact ⟨rfl, rfl⟩
    · exact ⟨rfl, rfl⟩
  | fillModeAgain =>
    obtain ⟨mode, -, rfl⟩ := fillModeAgain_spec hnext
    exact ⟨rfl, rfl⟩
  | publishModeAgain =>
    obtain ⟨mode, message, -, response, -, rfl⟩ := publishModeAgain_spec hnext
    exact ⟨rfl, rfl⟩

/-- The other threads leave the ROS thread as it is. -/
theorem ros_kept (hqt : action.onRos = false) (hnext : (smNode cycle).next s action = some t) :
    t.ros = s.ros := by
  cases action with
  | modeRequest | install | recordMode | fillMode | publishMode | callMode | modeRound
  | fillModeAgain | publishModeAgain => cases hqt
  | machine action =>
    obtain ⟨machine, -, ⟨-, rfl⟩ | ⟨-, -, rfl⟩⟩ := machineStep_node hnext
    · rfl
    · rfl
  | callState =>
    obtain ⟨-, -, rfl⟩ := callState_spec hnext
    rfl
  | stateRound approved =>
    obtain ⟨-, state, -, ⟨-, rfl⟩ | ⟨-, rfl⟩⟩ := stateRound_spec hnext
    · rfl
    · rfl
  | fillState =>
    obtain ⟨-, rfl⟩ := fillState_spec hnext
    rfl
  | publishState =>
    obtain ⟨message, -, rfl⟩ := publishState_spec hnext
    rfl

/-- A step of the machine during a round leaves the round and the state as they are. -/
theorem machineStep_inRound (hs : CopiesInvariant s) {step : Action} (hqt : s.qt ≠ .done)
    (hnext : s.machineStep cycle step = some t) :
    t.qt = s.qt ∧ t.machine.stateValue = s.machine.stateValue := by
  obtain ⟨machine, hmachine, ⟨rfl, rfl⟩ | ⟨-, hdone, rfl⟩⟩ := machineStep_node hnext
  · simp [execution, Execution.enter, hs.notifying hqt] at hmachine
  · exact ⟨rfl, (notifying_step (hs.notifying hqt) (fun h ↦ hqt (hdone h)) hmachine).2⟩

theorem comingStates_congr (hqt : t.qt = s.qt)
    (hvalue : t.machine.stateValue = s.machine.stateValue) : t.comingStates = s.comingStates := by
  rw [SMNode.comingStates, hqt, hvalue]
  rfl

/-- The state of a round is published at its end, unless the round is refused. -/
theorem comingStates_step (hs : CopiesInvariant s) (hround : action ≠ .stateRound false)
    (hnext : (smNode cycle).next s action = some t) :
    ∀ state ∈ s.comingStates, state ∈ (s.statusSent action).map (·.state) ++ t.comingStates := by
  intro state hstate
  by_cases hros : action.onRos = true
  · obtain ⟨hqt, hvalue⟩ := qt_kept hros hnext
    exact List.mem_append_right _ (comingStates_congr hqt hvalue ▸ hstate)
  · cases action with
    | machine step =>
      by_cases hdone : s.qt = .done
      · simp [SMNode.comingStates, hdone] at hstate
      · obtain ⟨hqt, hvalue⟩ := machineStep_inRound hs hdone hnext
        exact List.mem_append_right _ (comingStates_congr hqt hvalue ▸ hstate)
    | callState =>
      obtain ⟨-, hqt, rfl⟩ := callState_spec hnext
      simp [SMNode.comingStates, hqt] at hstate
    | stateRound approved =>
      obtain ⟨hqt, entered, -, ⟨-, rfl⟩ | ⟨rfl, rfl⟩⟩ := stateRound_spec hnext
      · simpa [SMNode.comingStates, SMNode.statusSent, hqt] using hstate
      · exact absurd rfl hround
    | fillState =>
      obtain ⟨hqt, rfl⟩ := fillState_spec hnext
      have hvalue : s.fillStatus.state = s.machine.stateValue := hs.filling hqt
      simpa [SMNode.comingStates, SMNode.statusSent, hqt, hvalue] using hstate
    | publishState =>
      obtain ⟨message, hqt, rfl⟩ := publishState_spec hnext
      simpa [SMNode.comingStates, SMNode.statusSent, SMNode.qtMessage, hqt] using hstate
    | modeRequest | install | recordMode | fillMode | publishMode | callMode | modeRound
    | fillModeAgain | publishModeAgain => exact absurd rfl hros

/-- The Qt thread waits for the state that it has requested until the round is over. -/
theorem stateRequest_step (hs : CopiesInvariant s)
    (hround : ∀ approved, action ≠ .stateRound approved)
    (hnext : (smNode cycle).next s action = some t) {state : State}
    (hrequest : (s.qt = .waiting ∧ state = s.machine.stateValue) ∨ state ∈ s.stateRequest action) :
    t.qt = .waiting ∧ state = t.machine.stateValue := by
  by_cases hcall : action = .callState
  · subst hcall
    obtain ⟨⟨entered, hphase⟩, hqt, rfl⟩ := callState_spec hnext
    rcases hrequest with ⟨hwaiting, -⟩ | hsent
    · cases hqt.symm.trans hwaiting
    · have hvalue : entered = s.machine.stateValue := by
        simpa [hphase] using hs.notifying (by simp [hqt])
      have hentered : state = entered := by simpa [SMNode.stateRequest, hphase] using hsent
      exact ⟨rfl, hentered.trans hvalue⟩
  · have hnone : s.stateRequest action = [] := by
      cases action <;> first | rfl | exact absurd rfl hcall
    rw [hnone, or_iff_left List.not_mem_nil] at hrequest
    obtain ⟨hwaiting, rfl⟩ := hrequest
    by_cases hros : action.onRos = true
    · obtain ⟨hqt, hvalue⟩ := qt_kept hros hnext
      exact ⟨hqt.trans hwaiting, hvalue.symm⟩
    · cases action with
      | machine step =>
        obtain ⟨hqt, hvalue⟩ := machineStep_inRound hs (by simp [hwaiting]) hnext
        exact ⟨hqt.trans hwaiting, hvalue.symm⟩
      | callState => exact absurd rfl hcall
      | stateRound approved => exact absurd rfl (hround approved)
      | fillState =>
        obtain ⟨hqt, -⟩ := fillState_spec hnext
        cases hqt.symm.trans hwaiting
      | publishState =>
        obtain ⟨message, hqt, -⟩ := publishState_spec hnext
        cases hqt.symm.trans hwaiting
      | modeRequest | install | recordMode | fillMode | publishMode | callMode | modeRound
      | fillModeAgain | publishModeAgain => exact absurd rfl hros

/-- A step of the ROS thread starts in its own phase. -/
theorem startsAt_of_next (hros : action.onRos = true)
    (hnext : (smNode cycle).next s action = some t) : action.startsAt s.ros = true := by
  cases action with
  | machine | callState | stateRound | fillState | publishState => cases hros
  | modeRequest mode =>
    obtain ⟨hphase, -⟩ := modeRequest_spec hnext
    rw [hphase]
    rfl
  | install =>
    obtain ⟨hphase, -⟩ := install_spec hnext
    rw [hphase]
    rfl
  | recordMode =>
    obtain ⟨mode, hphase, -⟩ := recordMode_spec hnext
    rw [hphase]
    rfl
  | fillMode =>
    obtain ⟨mode, hphase, -⟩ := fillMode_spec hnext
    rw [hphase]
    rfl
  | publishMode =>
    obtain ⟨mode, message, hphase, -⟩ := publishMode_spec hnext
    rw [hphase]
    rfl
  | callMode =>
    obtain ⟨mode, hphase, -⟩ := callMode_spec hnext
    rw [hphase]
    rfl
  | modeRound approved =>
    obtain ⟨mode, hphase, -⟩ := modeRound_spec hnext
    rw [hphase]
    rfl
  | fillModeAgain =>
    obtain ⟨mode, hphase, -⟩ := fillModeAgain_spec hnext
    rw [hphase]
    rfl
  | publishModeAgain =>
    obtain ⟨mode, message, hphase, -⟩ := publishModeAgain_spec hnext
    rw [hphase]
    rfl

/-- The mode of a round is published at its end, unless the round is refused. -/
theorem comingModes_step (hs : CopiesInvariant s) (hround : action ≠ .modeRound false)
    (hnext : (smNode cycle).next s action = some t) :
    ∀ mode ∈ s.ros.comingModes,
      mode ∈ (s.statusSent action).map (·.mode) ++ t.ros.comingModes := by
  intro mode hmode
  by_cases hros : action.onRos = true
  · have hstarts := startsAt_of_next hros hnext
    cases action with
    | modeRound approved =>
      obtain ⟨current, hphase, ⟨-, rfl⟩ | ⟨rfl, -⟩⟩ := modeRound_spec hnext
      · simpa [RosPhase.comingModes, SMNode.statusSent, hphase] using hmode
      · exact absurd rfl hround
    | fillModeAgain =>
      obtain ⟨current, hphase, rfl⟩ := fillModeAgain_spec hnext
      have hfilled : s.fillStatus.mode = current :=
        (hs.currentMode (by rw [hphase]; rfl)).trans (hs.mode current (by rw [hphase]; rfl))
      simpa [RosPhase.comingModes, SMNode.statusSent, hphase, hfilled] using hmode
    | publishModeAgain =>
      obtain ⟨current, message, hphase, response, -, rfl⟩ := publishModeAgain_spec hnext
      simpa [RosPhase.comingModes, SMNode.statusSent, RosPhase.message, hphase] using hmode
    | _ =>
      -- Every other step starts in a phase outside the rounds.
      cases hphase : s.ros <;> rw [hphase] at hstarts hmode <;>
        first | exact absurd hmode List.not_mem_nil | cases hstarts
  · rw [ros_kept (Bool.eq_false_iff.mpr hros) hnext]
    exact List.mem_append_right _ hmode

/-- The ROS thread waits for the mode that it has requested until the round is over. -/
theorem modeRequest_step (hround : ∀ approved, action ≠ .modeRound approved)
    (hnext : (smNode cycle).next s action = some t) {mode : ModeType}
    (hrequest : s.ros = .waiting mode ∨ mode ∈ s.modeRequestSent action) :
    t.ros = .waiting mode := by
  by_cases hcall : action = .callMode
  · subst hcall
    obtain ⟨current, hphase, rfl⟩ := callMode_spec hnext
    rcases hrequest with hwaiting | hsent
    · cases hphase.symm.trans hwaiting
    · have hcurrent : mode = current := by simpa [SMNode.modeRequestSent, hphase] using hsent
      rw [hcurrent]
  · have hnone : s.modeRequestSent action = [] := by
      cases action <;> first | rfl | exact absurd rfl hcall
    rw [hnone, or_iff_left List.not_mem_nil] at hrequest
    by_cases hros : action.onRos = true
    · have hstarts := startsAt_of_next hros hnext
      rw [hrequest] at hstarts
      cases action with
      | modeRound approved => exact absurd rfl (hround approved)
      | _ => cases hstarts
    · exact (ros_kept (Bool.eq_false_iff.mpr hros) hnext).trans hrequest

/-- What a step sends is what it publishes. -/
theorem lastStatus_step (hnext : (smNode cycle).next s action = some t) :
    t.lastStatus = (s.statusSent action).getLast?.getD s.lastStatus := by
  rw [SMNode.lastStatus, published_step hnext, List.getLast?_append, List.getLast?_map]
  cases (s.statusSent action).getLast? with
  | none => rfl
  | some message => rfl

end Manager

/-! ### The invariant of a link -/

/-- What holds of a link: its requests are those of the rounds in progress, a node that waits is
served by the messages under way and the publications with which these rounds will end, and the
node will have the status published last. -/
structure LinkInvariant (manager : SMNode) (link : NodeLink) : Prop where
  stateRequests : ∀ state ∈ link.stateRequests,
    manager.qt = .waiting ∧ state = manager.machine.stateValue
  modeRequests : ∀ mode ∈ link.modeRequests, manager.ros = .waiting mode
  state : link.node.stateFollower.Served (link.statuses.map (·.state) ++ manager.comingStates)
  mode : link.node.modeFollower.Served (link.statuses.map (·.mode) ++ manager.ros.comingModes)
  last : link.statuses.getLast?.getD link.node.status = manager.lastStatus

section Links

variable {Client : Type} {cycle : Cycle} {clients : List Client} {s t : Network Client}

/-- A node handles a request for a state. -/
theorem linkInvariant_handleState {manager : SMNode} {link : NodeLink} {state : State}
    {rest : List State} (hs : LinkInvariant manager link)
    (hrequests : link.stateRequests = state :: rest)
    (hchange : ∃ other ∈ link.node.currentState :: link.statuses.map (·.state), other ≠ state) :
    LinkInvariant manager { link with
      node := (link.node.onStateTransReq state true).1, stateRequests := rest } := by
  obtain ⟨hwaiting, hvalue⟩ := hs.stateRequests state (by simp [hrequests])
  have hcoming : manager.comingStates = [state] := by
    rw [SMNode.comingStates, hwaiting, hvalue]
  refine ⟨fun other hother ↦ hs.stateRequests other (by simp [hrequests, hother]),
    hs.modeRequests, ?_, hs.mode, hs.last⟩
  show (link.node.onStateTransReq state true).1.stateFollower.Served _
  rw [PackmlNodeInterface.onStateTransReq_stateFollower]
  refine Follower.served_approve (List.mem_append_right _ ?_) ?_
  · rw [hcoming]
    exact List.mem_singleton_self _
  · obtain ⟨other, hmem, hne⟩ := hchange
    exact ⟨other, List.mem_append_left manager.comingStates hmem, hne⟩

/-- A node handles a request for a mode. -/
theorem linkInvariant_handleMode {manager : SMNode} {link : NodeLink} {mode : ModeType}
    {rest : List ModeType} (hs : LinkInvariant manager link)
    (hrequests : link.modeRequests = mode :: rest)
    (hchange : ∃ other ∈ link.node.currentMode :: link.statuses.map (·.mode), other ≠ mode) :
    LinkInvariant manager { link with
      node := (link.node.onModeTransReq mode true).1, modeRequests := rest } := by
  have hwaiting := hs.modeRequests mode (by simp [hrequests])
  have hcoming : manager.ros.comingModes = [mode] := by
    rw [hwaiting]
    rfl
  refine ⟨hs.stateRequests, fun other hother ↦ hs.modeRequests other (by simp [hrequests, hother]),
    hs.state, ?_, hs.last⟩
  show (link.node.onModeTransReq mode true).1.modeFollower.Served _
  rw [PackmlNodeInterface.onModeTransReq_modeFollower]
  refine Follower.served_approve (List.mem_append_right _ ?_) ?_
  · rw [hcoming]
    exact List.mem_singleton_self _
  · obtain ⟨other, hmem, hne⟩ := hchange
    exact ⟨other, List.mem_append_left manager.ros.comingModes hmem, hne⟩

/-- A node receives a Status. -/
theorem linkInvariant_handleStatus {manager : SMNode} {link : NodeLink} {status : Status}
    {rest : List Status} (hs : LinkInvariant manager link)
    (hstatuses : link.statuses = status :: rest) :
    LinkInvariant manager { link with
      node := (link.node.onStatusChanged status).1, statuses := rest } := by
  have ⟨hstateRequests, hmodeRequests, hstate, hmode, hlast⟩ := hs
  rw [hstatuses] at hstate hmode hlast
  refine ⟨hstateRequests, hmodeRequests, ?_, ?_, ?_⟩
  · show (link.node.onStatusChanged status).1.stateFollower.Served _
    rw [PackmlNodeInterface.onStatusChanged_stateFollower]
    exact hstate.receive
  · show (link.node.onStatusChanged status).1.modeFollower.Served _
    rw [PackmlNodeInterface.onStatusChanged_modeFollower]
    exact hmode.receive
  · show rest.getLast?.getD (link.node.onStatusChanged status).1.status = manager.lastStatus
    rw [PackmlNodeInterface.onStatusChanged_status]
    simpa [List.getLast?_cons] using hlast

/-- The steps that end a round are taken when it is approved and its requests are handled. -/
theorem endsRound_state {approved : Bool}
    (hround : s.endsRound clients (.stateRound approved) = true) :
    approved = true ∧ ∀ client ∈ clients, (s.link client).stateRequests = [] := by
  simp only [Network.endsRound, Bool.and_eq_true, List.all_eq_true, List.isEmpty_iff] at hround
  exact ⟨hround.1.1, hround.2⟩

theorem endsRound_mode {approved : Bool}
    (hround : s.endsRound clients (.modeRound approved) = true) :
    approved = true ∧ ∀ client ∈ clients, (s.link client).modeRequests = [] := by
  simp only [Network.endsRound, Bool.and_eq_true, List.all_eq_true, List.isEmpty_iff] at hround
  exact ⟨hround.1.1, hround.2⟩

variable [DecidableEq Client]

/-- The manager takes a step that refuses no round and ends none whose request a node has not
handled. -/
theorem linkInvariant_manager {client : Client} (hclient : client ∈ clients)
    (hcopies : CopiesInvariant s.manager) (hs : LinkInvariant s.manager (s.link client))
    {action : NodeAction} (hround : s.endsRound clients action = true) {manager : SMNode}
    (hnext : (smNode cycle).next s.manager action = some manager) :
    LinkInvariant manager (s.sent clients action client) := by
  have hstateRound : action ≠ .stateRound false := by
    rintro rfl
    cases (endsRound_state hround).1
  have hmodeRound : action ≠ .modeRound false := by
    rintro rfl
    cases (endsRound_mode hround).1
  rw [show s.sent clients action client = _ from if_pos hclient]
  constructor
  case stateRequests =>
    intro state hstate
    by_cases hends : ∃ approved, action = .stateRound approved
    · obtain ⟨approved, rfl⟩ := hends
      rcases List.mem_append.mp hstate with hbefore | hsent
      · rw [(endsRound_state hround).2 client hclient] at hbefore
        cases hbefore
      · cases hsent
    · refine stateRequest_step hcopies (fun approved h ↦ hends ⟨approved, h⟩) hnext ?_
      exact (List.mem_append.mp hstate).imp_left (hs.stateRequests state)
  case modeRequests =>
    intro mode hmode
    by_cases hends : ∃ approved, action = .modeRound approved
    · obtain ⟨approved, rfl⟩ := hends
      rcases List.mem_append.mp hmode with hbefore | hsent
      · rw [(endsRound_mode hround).2 client hclient] at hbefore
        cases hbefore
      · cases hsent
    · refine modeRequest_step (fun approved h ↦ hends ⟨approved, h⟩) hnext ?_
      exact (List.mem_append.mp hmode).imp_left (hs.modeRequests mode)
  case state =>
    refine hs.state.mono fun state hstate ↦ ?_
    rw [List.map_append, List.append_assoc]
    exact (List.mem_append.mp hstate).elim (List.mem_append_left _) fun hcoming ↦
      List.mem_append_right _ (comingStates_step hcopies hstateRound hnext state hcoming)
  case mode =>
    refine hs.mode.mono fun mode hmode ↦ ?_
    rw [List.map_append, List.append_assoc]
    exact (List.mem_append.mp hmode).elim (List.mem_append_left _) fun hcoming ↦
      List.mem_append_right _ (comingModes_step hcopies hmodeRound hnext mode hcoming)
  case last =>
    rw [lastStatus_step hnext, ← hs.last]
    show (_ ++ s.manager.statusSent action).getLast?.getD _ = _
    rw [List.getLast?_append]
    cases (s.manager.statusSent action).getLast? with
    | none => rfl
    | some status => rfl

/-- The manager of a network runs as it does alone. -/
theorem networkManager_reachable (hrun : (network cycle clients).Reachable s) :
    (smNode cycle).Reachable s.manager := by
  refine hrun.project Network.manager ?_ ?_
  · rintro s rfl
    rfl
  · intro s action t hnext
    cases action with
    | manager action =>
      obtain ⟨-, hnext⟩ := Option.ite_none_right_eq_some.mp hnext
      obtain ⟨manager, hmanager, rfl⟩ := Option.map_eq_some_iff.mp hnext
      exact Or.inr ⟨action, hmanager⟩
    | handleState client =>
      obtain ⟨link, -, rfl⟩ := Option.map_eq_some_iff.mp hnext
      exact Or.inl rfl
    | handleMode client =>
      obtain ⟨link, -, rfl⟩ := Option.map_eq_some_iff.mp hnext
      exact Or.inl rfl
    | handleStatus client =>
      obtain ⟨link, -, rfl⟩ := Option.map_eq_some_iff.mp hnext
      exact Or.inl rfl

/-- A link that a node has handled a message of. -/
theorem linkInvariant_update {handled client : Client} {link : NodeLink}
    (hs : ∀ client ∈ clients, LinkInvariant s.manager (s.link client))
    (hlink : LinkInvariant s.manager (s.link handled) → LinkInvariant s.manager link)
    (hclient : client ∈ clients) :
    LinkInvariant s.manager (Function.update s.link handled link client) :=
  update_property (LinkInvariant s.manager) (hs client hclient) hlink

theorem linkInvariant_step (hcopies : CopiesInvariant s.manager)
    (hs : ∀ client ∈ clients, LinkInvariant s.manager (s.link client))
    {action : NetworkAction Client} (hallowed : RequestsChange s action)
    (hnext : (network cycle clients).next s action = some t) :
    ∀ client ∈ clients, LinkInvariant t.manager (t.link client) := by
  intro client hclient
  cases action with
  | manager action =>
    obtain ⟨hround, hnext⟩ := Option.ite_none_right_eq_some.mp hnext
    obtain ⟨manager, hmanager, rfl⟩ := Option.map_eq_some_iff.mp hnext
    exact linkInvariant_manager hclient hcopies (hs client hclient) hround hmanager
  | handleState handled =>
    obtain ⟨link, hlink, rfl⟩ := Option.map_eq_some_iff.mp hnext
    refine linkInvariant_update hs (fun hbefore ↦ ?_) hclient
    unfold Network.handleState at hlink
    split at hlink
    · rename_i state rest hrequests
      obtain rfl := Option.some.inj hlink
      exact linkInvariant_handleState hbefore hrequests (hallowed state (by simp [hrequests]))
    · cases hlink
  | handleMode handled =>
    obtain ⟨link, hlink, rfl⟩ := Option.map_eq_some_iff.mp hnext
    refine linkInvariant_update hs (fun hbefore ↦ ?_) hclient
    unfold Network.handleMode at hlink
    split at hlink
    · rename_i mode rest hrequests
      obtain rfl := Option.some.inj hlink
      exact linkInvariant_handleMode hbefore hrequests (hallowed mode (by simp [hrequests]))
    · cases hlink
  | handleStatus handled =>
    obtain ⟨link, hlink, rfl⟩ := Option.map_eq_some_iff.mp hnext
    refine linkInvariant_update hs (fun hbefore ↦ ?_) hclient
    unfold Network.handleStatus at hlink
    split at hlink
    · rename_i status rest hstatuses
      obtain rfl := Option.some.inj hlink
      exact linkInvariant_handleStatus hbefore hstatuses
    · cases hlink

/-- When everything is delivered, every node has the status published last, and it waits for no
state and no mode unless a round is in progress, along the runs in which every request announces a
change. -/
theorem nodes_agree (hrun : (network cycle clients).ReachableBy RequestsChange s)
    (hdelivered : ∀ client ∈ clients, (s.link client).Delivered) :
    ∀ client ∈ clients, (s.link client).node.status = s.manager.lastStatus ∧
      (s.manager.qt.inRound = false → (s.link client).node.waitingForNewState = false) ∧
      (s.manager.ros.inRound = false → (s.link client).node.waitingForNewMode = false) := by
  have hinv : ∀ client ∈ clients, LinkInvariant s.manager (s.link client) := by
    refine TransitionSystem.ReachableBy.invariant_of_reachable
      (fun s hs ↦ copiesInvariant_of_reachable (networkManager_reachable hs)) ?_ ?_ hrun
    · rintro s rfl client -
      constructor
      case stateRequests => exact fun state hstate ↦ absurd hstate List.not_mem_nil
      case modeRequests => exact fun mode hmode ↦ absurd hmode List.not_mem_nil
      case state => exact fun hwaiting ↦ (by cases hwaiting)
      case mode => exact fun hwaiting ↦ (by cases hwaiting)
      case last => rfl
    · intro s action t hcopies hs hallowed hnext
      exact linkInvariant_step hcopies hs hallowed hnext
  intro client hclient
  obtain ⟨-, -, hstatuses⟩ := hdelivered client hclient
  obtain ⟨-, -, hstate, hmode, hlast⟩ := hinv client hclient
  rw [hstatuses] at hstate hmode hlast
  refine ⟨hlast, fun hqt ↦ ?_, fun hros ↦ ?_⟩
  · rw [comingStates_of_not_inRound hqt] at hstate
    exact hstate.waiting_eq_false
  · rw [comingModes_of_not_inRound hros] at hmode
    exact hmode.waiting_eq_false

end Links

/-! ### Runs -/

/-- A round for the state just entered: the only node approves before its Status arrives. -/
def nodeRound : List (NetworkAction Unit) :=
  [.manager .callState, .handleState (), .manager (.stateRound true), .manager .fillState,
    .manager .publishState, .handleStatus (), .manager (.machine .notified)]

/-- A mode change, in which the node approves before the first Status arrives. -/
def nodeModeChange (mode : ModeType) : List (NetworkAction Unit) :=
  (changeModeTo mode).map .manager ++
    [.manager .callMode, .handleMode (), .handleStatus (), .manager (.modeRound true),
      .manager .fillModeAgain, .manager .publishModeAgain, .handleStatus ()]

/-- The machine is taken to IDLE, and the node approves every state. -/
def idleNetworkRun : List (NetworkAction Unit) :=
  [.handleStatus ()] ++ nodeRound ++ (carryOut .clear).map .manager ++ nodeRound ++
    (complete ⟨.clearing, 0⟩).map .manager ++ nodeRound ++ (carryOut .reset).map .manager ++
    nodeRound ++ (complete ⟨.resetting, 1⟩).map .manager ++ nodeRound

/-- What the manager and the node are doing at the end of a run. -/
def networkView (s : Network Unit) : QtStage × RosPhase × NodeLink :=
  (s.manager.qt, s.manager.ros, s.link ())

/-- MANUAL is changed to MAINTENANCE. -/
theorem nodes_agree_maintenance :
    ∃ s, (network .singleCycle [()]).runFrom .activated
        (idleNetworkRun ++ nodeModeChange .maintenance) = some s ∧
      (s.link ()).node.status = s.manager.lastStatus ∧
        (s.link ()).node.waitingForNewState = false ∧
          (s.link ()).node.waitingForNewMode = false := by
  have hend : ((network .singleCycle [()]).runFrom .activated
      (idleNetworkRun ++ nodeModeChange .maintenance)).map networkView =
        some (.done, .idle,
          ⟨⟨.maintenance, .maintenance, .idle, .idle, false, false⟩, [], [], []⟩) := rfl
  obtain ⟨s, hrun, hs⟩ := Option.map_eq_some_iff.mp hend
  simp only [networkView, Prod.mk.injEq] at hs
  obtain ⟨hqt, hros, hlink⟩ := hs
  have hallowed : (network .singleCycle [()]).AllowedAlong RequestsChange
      (idleNetworkRun ++ nodeModeChange .maintenance) .activated := by
    decide +kernel
  obtain ⟨hstatus, hstate, hmode⟩ := nodes_agree
    (TransitionSystem.reachableBy_of_runFrom (.initial rfl) _ hallowed hrun)
    (fun client _ ↦ by rw [hlink]; exact ⟨rfl, rfl, rfl⟩) () (List.mem_singleton_self ())
  exact ⟨s, hrun, hstatus, hstate (by rw [hqt]; rfl), hmode (by rw [hros]; rfl)⟩

/-- MANUAL is requested while it is in force: the node goes on waiting for it. -/
theorem node_keeps_waiting :
    ∃ s, (network .singleCycle [()]).runFrom .activated
        (idleNetworkRun ++ nodeModeChange .manual) = some s ∧
      (s.link ()).Delivered ∧ s.manager.qt = .done ∧ s.manager.ros = .idle ∧
        (s.link ()).node.waitingForNewMode = true := by
  have hend : ((network .singleCycle [()]).runFrom .activated
      (idleNetworkRun ++ nodeModeChange .manual)).map networkView =
        some (.done, .idle, ⟨⟨.manual, .manual, .idle, .idle, true, false⟩, [], [], []⟩) := rfl
  obtain ⟨s, hrun, hs⟩ := Option.map_eq_some_iff.mp hend
  simp only [networkView, Prod.mk.injEq] at hs
  obtain ⟨hqt, hros, hlink⟩ := hs
  refine ⟨s, hrun, ?_, hqt, hros, ?_⟩
  · rw [hlink]
    exact ⟨rfl, rfl, rfl⟩
  · rw [hlink]

end PackML
