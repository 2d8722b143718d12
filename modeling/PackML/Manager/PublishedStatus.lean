import PackML.Library.Copies
import PackML.Library.History
import PackML.Manager.SMNode

/-!
# The status that the manager publishes

A publication is true when it carries the state the machine is in and the mode last accepted. The
manager publishes the copies that it keeps: `current_state` is assigned when every client has
approved the round of a state, and `current_mode` after `changeMode` has installed a mode. So a mode
change publishes a state that the machine is not in when the round of the state entered last was
refused or is not over, or when a state is entered after the message was filled
(`stale_state_published`).

`PublishesInTime` says when a publication comes in time, by what the run has done before: the
entries and the outcomes of the rounds for the ROS thread, the installations of modes and their
assignments for the Qt thread, and where the messages were filled in between. `CopiesInvariant` says
which parts of the messages are up to date anyway, and `DatedCopies` how old the others are. By
`published_status_true_iff` every status of a run whose publications all come in time is true, and
no other run has that, unless a state is entered or a mode accepted again.
-/

set_option autoImplicit false
set_option relaxedAutoImplicit false

namespace PackML

/-! ### True publications -/

/-- Whether a publication carries the state of the machine and the mode last accepted. -/
def Publication.IsTrue (publication : Publication) : Prop :=
  publication.status = publication.machineStatus

instance (publication : Publication) : Decidable publication.IsTrue :=
  inferInstanceAs (Decidable (_ = _))

/-! ### Publications in time -/

/-- Whether the round of the state entered last was approved; the actions are given newest first. -/
def roundApproved : List NodeAction → Bool
  | [] => false
  | .machine .enter :: _ => false
  | .stateRound approved :: _ => approved
  | _ :: past => roundApproved past

/-- Whether the ROS thread has filled its message since the round of the state entered last was
approved. -/
def filledAfterRound : List NodeAction → Bool
  | [] => false
  | .machine .enter :: _ => false
  | .fillMode :: past => roundApproved past
  | .fillModeAgain :: past => roundApproved past
  | _ :: past => filledAfterRound past

/-- Whether `current_mode` was assigned since a mode was installed last. -/
def modeAssigned : List NodeAction → Bool
  | [] => true
  | .install :: _ => false
  | .recordMode :: _ => true
  | _ :: past => modeAssigned past

/-- Whether the Qt thread has filled its message since the mode installed last was assigned. -/
def filledAfterMode : List NodeAction → Bool
  | [] => false
  | .install :: _ => false
  | .fillState :: past => modeAssigned past
  | _ :: past => filledAfterMode past

/-- A publication of the ROS thread comes in time when its message was filled after the round of the
state entered last was approved, and one of the Qt thread when its message was filled after the mode
installed last was assigned. -/
def PublishesInTime (past : List NodeAction) : NodeAction → Prop
  | .publishMode | .publishModeAgain => filledAfterRound past = true
  | .publishState => filledAfterMode past = true
  | _ => True

instance (past : List NodeAction) : (action : NodeAction) → Decidable (PublishesInTime past action)
  | .publishMode | .publishModeAgain | .publishState => inferInstanceAs (Decidable (_ = _))
  | .machine _ | .callState | .stateRound _ | .fillState | .modeRequest _ | .install | .recordMode
  | .fillMode | .callMode | .modeRound _ | .fillModeAgain => inferInstanceAs (Decidable True)

/-- Every publication of a run comes in time; the actions are given newest first. -/
def InTime : List NodeAction → Prop
  | [] => True
  | action :: past => PublishesInTime past action ∧ InTime past

instance decidableInTime : DecidablePred InTime
  | [] => inferInstanceAs (Decidable True)
  | _ :: past =>
    have : Decidable (InTime past) := decidableInTime past
    inferInstanceAs (Decidable (_ ∧ _))

section History

variable (step : TransitionSystem.Step SMNode NodeAction)

/-- The state that the machine enters. -/
def entered : List State :=
  match step.action with
  | .machine .enter => [step.after.machine.stateValue]
  | _ => []

/-- The mode that is installed. -/
def installedMode : List ModeType :=
  match step.action with
  | .install => [step.after.accepted]
  | _ => []

end History

/-- The run of a manager. -/
abbrev SMNodeRun := TransitionSystem.Recorded SMNode NodeAction

namespace SMNodeRun

variable (r : SMNodeRun)

/-- The actions of a run, newest first. -/
def actions : List NodeAction := r.steps.map (·.action)

/-- The states that the machine has had, newest first: those entered, ABORTED, which it was
activated into, and the one that the manager starts with. -/
def states : List State := r.steps.flatMap entered ++ [.aborted, .undefined]

/-- The modes that were accepted, newest first. -/
def modes : List ModeType := r.steps.flatMap installedMode ++ [.manual]

end SMNodeRun

/-! ### What is up to date anyway -/

/-- The mode that the ROS thread knows, the state that the Qt thread knows, and where the Qt thread
is when it has not returned from `on_state_changed`. -/
structure CopiesInvariant (s : SMNode) : Prop where
  currentMode : s.ros.isRecording = false → s.currentMode = s.accepted
  mode : ∀ mode, s.ros.mode = some mode → s.accepted = mode
  rosMessage : ∀ message, s.ros.message = some message → message.mode = s.accepted
  notifying : s.qt ≠ .done → s.machine.phase = .notifying s.machine.stateValue
  filling : s.qt = .filling → s.currentState = s.machine.stateValue
  qtMessage : ∀ message, s.qt = .publishing message → message.state = s.machine.stateValue

section Steps

variable {cycle : Cycle} {s t : SMNode}

/-- While the Qt thread notifies, only the end of the notification moves it. -/
theorem notifying_step {machine machine' : Execution} {state : State} {action : Action}
    (hphase : machine.phase = .notifying state) (haction : action ≠ .notified)
    (hnext : (execution cycle).next machine action = some machine') :
    machine'.phase = machine.phase ∧ machine'.stateValue = machine.stateValue := by
  refine phase_step hnext ⟨?_, ?_, ?_, haction⟩
  · rintro rfl
    simp [execution, Execution.select, hphase] at hnext
  · rintro rfl
    simp [execution, Execution.leave, hphase] at hnext
  · rintro rfl
    simp [execution, Execution.enter, hphase] at hnext

theorem copiesInvariant_machine (hlocated : Located cycle s.machine s.machine.stateValue)
    (hs : CopiesInvariant s) {action : Action} (hnext : s.machineStep cycle action = some t) :
    CopiesInvariant t := by
  have ⟨hcurrent, hmode, hrosMessage, hnotifying, hfilling, hqtMessage⟩ := hs
  obtain ⟨machine, hmachine, ⟨rfl, rfl⟩ | ⟨henter, hdone, rfl⟩⟩ := machineStep_node hnext
  · obtain ⟨event, source, transition, target, -, -, rfl⟩ := enter_spec hlocated hmachine
    exact ⟨hcurrent, hmode, hrosMessage, fun _ ↦ rfl, fun h ↦ (by cases h),
      fun message h ↦ (by cases h)⟩
  · by_cases hqt : s.qt = .done
    · refine ⟨hcurrent, hmode, hrosMessage, fun h ↦ absurd hqt h, fun h ↦ ?_, fun message h ↦ ?_⟩
      · cases hqt.symm.trans h
      · cases hqt.symm.trans h
    · have hkept := notifying_step (hnotifying hqt) (fun h ↦ hqt (hdone h)) hmachine
      have hvalue : machine.stateValue = s.machine.stateValue := hkept.2
      refine ⟨hcurrent, hmode, hrosMessage, fun _ ↦ ?_, fun h ↦ ?_, fun message h ↦ ?_⟩
      · show machine.phase = .notifying machine.stateValue
        rw [hkept.1, hvalue]
        exact hnotifying hqt
      · exact (hfilling h).trans hvalue.symm
      · exact (hqtMessage message h).trans hvalue.symm

theorem copiesInvariant_step (hlocated : Located cycle s.machine s.machine.stateValue)
    (hs : CopiesInvariant s) {action : NodeAction}
    (hnext : (smNode cycle).next s action = some t) : CopiesInvariant t := by
  have ⟨hcurrent, hmode, hrosMessage, hnotifying, hfilling, hqtMessage⟩ := hs
  cases action with
  | machine action => exact copiesInvariant_machine hlocated hs hnext
  | callState =>
    obtain ⟨-, hqt, rfl⟩ := callState_spec hnext
    exact ⟨hcurrent, hmode, hrosMessage, fun _ ↦ hnotifying (by simp [hqt]),
      fun h ↦ (by cases h), fun message h ↦ (by cases h)⟩
  | stateRound approved =>
    obtain ⟨hqt, state, hphase, ⟨-, rfl⟩ | ⟨-, rfl⟩⟩ := stateRound_spec hnext
    · have hvalue : state = s.machine.stateValue := by
        simpa [hphase] using hnotifying (by simp [hqt])
      exact ⟨hcurrent, hmode, hrosMessage, fun _ ↦ hnotifying (by simp [hqt]), fun _ ↦ hvalue,
        fun message h ↦ (by cases h)⟩
    · exact ⟨hcurrent, hmode, hrosMessage, fun h ↦ absurd rfl h, fun h ↦ (by cases h),
        fun message h ↦ (by cases h)⟩
  | fillState =>
    obtain ⟨hqt, rfl⟩ := fillState_spec hnext
    refine ⟨hcurrent, hmode, hrosMessage, fun _ ↦ hnotifying (by simp [hqt]),
      fun h ↦ (by cases h), fun message h ↦ ?_⟩
    obtain rfl := QtStage.publishing.inj h
    exact hfilling hqt
  | publishState =>
    obtain ⟨message, -, rfl⟩ := publishState_spec hnext
    exact ⟨hcurrent, hmode, hrosMessage, fun h ↦ absurd rfl h, fun h ↦ (by cases h),
      fun message h ↦ (by cases h)⟩
  | modeRequest mode =>
    obtain ⟨hidle, ⟨machine, hmachine, rfl⟩ | ⟨response, -, rfl⟩⟩ := modeRequest_spec hnext
    · have hassigned := hcurrent (by rw [hidle]; rfl)
      obtain ⟨-, ⟨-, rfl⟩ | ⟨-, rfl⟩⟩ := changeMode_spec hmachine
      · exact ⟨fun _ ↦ hassigned, fun mode h ↦ (by cases h), fun message h ↦ (by cases h),
          hnotifying, hfilling, hqtMessage⟩
      · exact ⟨fun _ ↦ hassigned, fun mode h ↦ (by cases h), fun message h ↦ (by cases h),
          hnotifying, hfilling, hqtMessage⟩
    · exact ⟨fun _ ↦ hcurrent (by rw [hidle]; rfl), fun mode h ↦ (by cases h),
        fun message h ↦ (by cases h), hnotifying, hfilling, hqtMessage⟩
  | install =>
    obtain ⟨-, mode, machine, -, hmachine, rfl⟩ := install_spec hnext
    obtain ⟨-, -, rfl⟩ := modeSwitched_spec hmachine
    exact ⟨fun h ↦ (by cases h), fun other h ↦ Option.some.inj h, fun message h ↦ (by cases h),
      hnotifying, hfilling, hqtMessage⟩
  | recordMode =>
    obtain ⟨mode, hrecording, rfl⟩ := recordMode_spec hnext
    have haccepted : s.accepted = mode := hmode mode (by rw [hrecording]; rfl)
    exact ⟨fun _ ↦ haccepted.symm, fun mode h ↦ haccepted.trans (Option.some.inj h),
      fun message h ↦ (by cases h), hnotifying, hfilling, hqtMessage⟩
  | fillMode =>
    obtain ⟨mode, hphase, rfl⟩ := fillMode_spec hnext
    have hassigned := hcurrent (by rw [hphase]; rfl)
    refine ⟨fun _ ↦ hassigned, fun other h ↦ hmode other (by rw [hphase]; exact h),
      fun message h ↦ ?_, hnotifying, hfilling, hqtMessage⟩
    obtain rfl := Option.some.inj h
    exact hassigned
  | publishMode =>
    obtain ⟨mode, message, hphase, rfl⟩ := publishMode_spec hnext
    exact ⟨fun _ ↦ hcurrent (by rw [hphase]; rfl),
      fun other h ↦ hmode other (by rw [hphase]; exact h), fun message h ↦ (by cases h),
      hnotifying, hfilling, hqtMessage⟩
  | callMode =>
    obtain ⟨mode, hphase, rfl⟩ := callMode_spec hnext
    exact ⟨fun _ ↦ hcurrent (by rw [hphase]; rfl),
      fun other h ↦ hmode other (by rw [hphase]; exact h), fun message h ↦ (by cases h),
      hnotifying, hfilling, hqtMessage⟩
  | modeRound approved =>
    obtain ⟨mode, hphase, ⟨-, rfl⟩ | ⟨-, response, -, rfl⟩⟩ := modeRound_spec hnext
    · have haccepted : s.accepted = mode := hmode mode (by rw [hphase]; rfl)
      exact ⟨fun _ ↦ haccepted.symm, fun mode h ↦ haccepted.trans (Option.some.inj h),
        fun message h ↦ (by cases h), hnotifying, hfilling, hqtMessage⟩
    · exact ⟨fun _ ↦ hcurrent (by rw [hphase]; rfl), fun other h ↦ (by cases h),
        fun message h ↦ (by cases h), hnotifying, hfilling, hqtMessage⟩
  | fillModeAgain =>
    obtain ⟨mode, hphase, rfl⟩ := fillModeAgain_spec hnext
    have hassigned := hcurrent (by rw [hphase]; rfl)
    refine ⟨fun _ ↦ hassigned, fun other h ↦ hmode other (by rw [hphase]; exact h),
      fun message h ↦ ?_, hnotifying, hfilling, hqtMessage⟩
    obtain rfl := Option.some.inj h
    exact hassigned
  | publishModeAgain =>
    obtain ⟨mode, message, hphase, response, -, rfl⟩ := publishModeAgain_spec hnext
    exact ⟨fun _ ↦ hcurrent (by rw [hphase]; rfl), fun other h ↦ (by cases h),
      fun message h ↦ (by cases h), hnotifying, hfilling, hqtMessage⟩

theorem copiesInvariant_of_reachable (hrun : (smNode cycle).Reachable s) : CopiesInvariant s := by
  refine TransitionSystem.ReachableBy.invariant_of_reachable
    (fun s hs ↦ nodeMachine_reachable hs) ?_ ?_ hrun
  · rintro s rfl
    exact ⟨fun _ ↦ rfl, fun mode h ↦ (by cases h), fun message h ↦ (by cases h), fun _ ↦ rfl,
      fun h ↦ (by cases h), fun message h ↦ (by cases h)⟩
  · intro s action t hmachine hs _ hnext
    exact copiesInvariant_step (located_stateValue hmachine) hs hnext

end Steps

/-! ### How old the copies are -/

/-- How old the copies of the manager and the parts of its messages are, and that a round that is
not over was not approved. -/
structure DatedCopies (r : SMNodeRun) : Prop where
  states : ∃ earlier, r.states = r.current.machine.stateValue :: earlier
  modes : ∃ earlier, r.modes = r.current.accepted :: earlier
  currentState : IsCopy r.states (roundApproved r.actions) r.current.currentState
  currentMode : IsCopy r.modes (modeAssigned r.actions) r.current.currentMode
  rosMessage : ∀ message, r.current.ros.message = some message →
    IsCopy r.states (filledAfterRound r.actions) message.state
  qtMessage : ∀ message, r.current.qt = .publishing message →
    IsCopy r.modes (filledAfterMode r.actions) message.mode
  unfinished : r.current.qt = .calling ∨ r.current.qt = .waiting →
    roundApproved r.actions = false

section Dates

variable {cycle : Cycle} {r : SMNodeRun} {t : SMNode} {action : NodeAction}

theorem states_push (r : SMNodeRun) (action : NodeAction) (t : SMNode) :
    SMNodeRun.states (r.push action t) = entered ⟨r.current, action, t⟩ ++ r.states := by
  simp [SMNodeRun.states, TransitionSystem.Recorded.push]

theorem modes_push (r : SMNodeRun) (action : NodeAction) (t : SMNode) :
    SMNodeRun.modes (r.push action t) = installedMode ⟨r.current, action, t⟩ ++ r.modes := by
  simp [SMNodeRun.modes, TransitionSystem.Recorded.push]

theorem actions_push (r : SMNodeRun) (action : NodeAction) (t : SMNode) :
    SMNodeRun.actions (r.push action t) = action :: r.actions :=
  rfl

/-- A step that changes none of the copies and fills no message keeps their dates. -/
theorem DatedCopies.frame (hs : DatedCopies r)
    (haction : roundApproved (action :: r.actions) = roundApproved r.actions ∧
      filledAfterRound (action :: r.actions) = filledAfterRound r.actions ∧
        modeAssigned (action :: r.actions) = modeAssigned r.actions ∧
          filledAfterMode (action :: r.actions) = filledAfterMode r.actions)
    (hstates : entered ⟨r.current, action, t⟩ = [] ∧
      t.machine.stateValue = r.current.machine.stateValue)
    (hmodes : installedMode ⟨r.current, action, t⟩ = [] ∧ t.accepted = r.current.accepted)
    (hcopies : t.currentState = r.current.currentState ∧ t.currentMode = r.current.currentMode)
    (hros : ∀ message, t.ros.message = some message → r.current.ros.message = some message)
    (hqt : ∀ message, t.qt = .publishing message → r.current.qt = .publishing message)
    (hunfinished : t.qt = .calling ∨ t.qt = .waiting →
      r.current.qt = .calling ∨ r.current.qt = .waiting) :
    DatedCopies (r.push action t) := by
  obtain ⟨hround, hfilledRound, hmode, hfilledMode⟩ := haction
  have hstates' : SMNodeRun.states (r.push action t) = r.states := by
    rw [states_push, hstates.1, List.nil_append]
  have hmodes' : SMNodeRun.modes (r.push action t) = r.modes := by
    rw [modes_push, hmodes.1, List.nil_append]
  constructor
  case states =>
    rw [hstates', TransitionSystem.Recorded.push_current, hstates.2]
    exact hs.states
  case modes =>
    rw [hmodes', TransitionSystem.Recorded.push_current, hmodes.2]
    exact hs.modes
  case currentState =>
    rw [hstates', actions_push, hround, TransitionSystem.Recorded.push_current, hcopies.1]
    exact hs.currentState
  case currentMode =>
    rw [hmodes', actions_push, hmode, TransitionSystem.Recorded.push_current, hcopies.2]
    exact hs.currentMode
  case rosMessage =>
    rw [hstates', actions_push, hfilledRound]
    exact fun message hmessage ↦ hs.rosMessage message (hros message hmessage)
  case qtMessage =>
    rw [hmodes', actions_push, hfilledMode]
    exact fun message hmessage ↦ hs.qtMessage message (hqt message hmessage)
  case unfinished =>
    rw [actions_push, hround]
    exact fun h ↦ hs.unfinished (hunfinished h)

theorem datedCopies_machine
    (hlocated : Located cycle r.current.machine r.current.machine.stateValue)
    (hs : DatedCopies r) {step : Action} (hnext : r.current.machineStep cycle step = some t) :
    DatedCopies (r.push (.machine step) t) := by
  obtain ⟨machine, hmachine, ⟨rfl, rfl⟩ | ⟨henter, -, rfl⟩⟩ := machineStep_node hnext
  · constructor
    case states => exact ⟨r.states, states_push ..⟩
    case modes => exact hs.modes
    case currentState => exact (states_push r _ _).symm ▸ hs.currentState.change machine.stateValue
    case currentMode => exact hs.currentMode
    case rosMessage =>
      rw [states_push]
      exact fun message hmessage ↦ (hs.rosMessage message hmessage).change machine.stateValue
    case qtMessage => exact fun message hmessage ↦ (by cases hmessage)
    case unfinished => exact fun _ ↦ rfl
  · refine hs.frame ?_ ⟨?_, stateValue_kept hlocated henter hmachine⟩ ⟨rfl, rfl⟩ ⟨rfl, rfl⟩
      (fun _ h ↦ h) (fun _ h ↦ h) id
    · cases step with
      | enter => exact absurd rfl henter
      | _ => exact ⟨rfl, rfl, rfl, rfl⟩
    · cases step with
      | enter => exact absurd rfl henter
      | _ => rfl

/-- The step of a round that was approved assigns `current_state`. -/
theorem datedCopies_stateRound (hcopies : CopiesInvariant r.current) (hs : DatedCopies r)
    {approved : Bool} (hnext : r.current.stateRound approved = some t) :
    DatedCopies (r.push (.stateRound approved) t) := by
  obtain ⟨hqt, state, hphase, ⟨rfl, rfl⟩ | ⟨rfl, rfl⟩⟩ := stateRound_spec hnext
  · obtain ⟨earlier, hstates⟩ := hs.states
    have hvalue : state = r.current.machine.stateValue := by
      simpa [hphase] using hcopies.notifying (by simp [hqt])
    constructor
    case states => exact hs.states
    case modes => exact hs.modes
    case currentState =>
      show IsCopy r.states true state
      rw [hstates, hvalue]
      exact .newest _ _
    case currentMode => exact hs.currentMode
    case rosMessage => exact hs.rosMessage
    case qtMessage => exact fun message hmessage ↦ (by cases hmessage)
    case unfinished => exact fun h ↦ (by rcases h with h | h <;> cases h)
  · exact hs.frame ⟨(hs.unfinished (Or.inr hqt)).symm, rfl, rfl, rfl⟩ ⟨rfl, rfl⟩ ⟨rfl, rfl⟩
      ⟨rfl, rfl⟩ (fun _ h ↦ h) (fun _ h ↦ (by cases h)) fun h ↦ (by rcases h with h | h <;> cases h)

theorem datedCopies_step (hlocated : Located cycle r.current.machine r.current.machine.stateValue)
    (hcopies : CopiesInvariant r.current) (hs : DatedCopies r)
    (hnext : (smNode cycle).next r.current action = some t) : DatedCopies (r.push action t) := by
  have hkeeps : ∀ {phase : RosPhase}, phase.message = none → ∀ message,
      phase.message = some message → r.current.ros.message = some message :=
    fun hnone _ hsome ↦ (by cases hnone.symm.trans hsome)
  cases action with
  | machine step => exact datedCopies_machine hlocated hs hnext
  | callState =>
    obtain ⟨-, hqt, rfl⟩ := callState_spec hnext
    exact hs.frame ⟨rfl, rfl, rfl, rfl⟩ ⟨rfl, rfl⟩ ⟨rfl, rfl⟩ ⟨rfl, rfl⟩ (fun _ h ↦ h)
      (fun _ h ↦ (by cases h)) fun _ ↦ Or.inl hqt
  | stateRound approved => exact datedCopies_stateRound hcopies hs hnext
  | fillState =>
    obtain ⟨hqt, rfl⟩ := fillState_spec hnext
    refine ⟨hs.states, hs.modes, hs.currentState, hs.currentMode, hs.rosMessage, ?_, ?_⟩
    · intro message hmessage
      obtain rfl := QtStage.publishing.inj hmessage
      exact hs.currentMode
    · exact fun h ↦ (by rcases h with h | h <;> cases h)
  | publishState =>
    obtain ⟨message, hqt, rfl⟩ := publishState_spec hnext
    exact hs.frame ⟨rfl, rfl, rfl, rfl⟩ ⟨rfl, rfl⟩ ⟨rfl, rfl⟩ ⟨rfl, rfl⟩ (fun _ h ↦ h)
      (fun _ h ↦ (by cases h)) fun h ↦ (by rcases h with h | h <;> cases h)
  | modeRequest mode =>
    obtain ⟨-, ⟨machine, hmachine, rfl⟩ | ⟨response, -, rfl⟩⟩ := modeRequest_spec hnext
    · obtain ⟨-, ⟨-, rfl⟩ | ⟨-, rfl⟩⟩ := changeMode_spec hmachine
      · exact hs.frame ⟨rfl, rfl, rfl, rfl⟩ ⟨rfl, rfl⟩ ⟨rfl, rfl⟩ ⟨rfl, rfl⟩ (hkeeps rfl)
          (fun _ h ↦ h) id
      · exact hs.frame ⟨rfl, rfl, rfl, rfl⟩ ⟨rfl, rfl⟩ ⟨rfl, rfl⟩ ⟨rfl, rfl⟩ (hkeeps rfl)
          (fun _ h ↦ h) id
    · exact hs.frame ⟨rfl, rfl, rfl, rfl⟩ ⟨rfl, rfl⟩ ⟨rfl, rfl⟩ ⟨rfl, rfl⟩ (hkeeps rfl)
        (fun _ h ↦ h) id
  | install =>
    obtain ⟨-, mode, machine, -, hmachine, rfl⟩ := install_spec hnext
    obtain ⟨-, -, rfl⟩ := modeSwitched_spec hmachine
    refine ⟨hs.states, ⟨r.modes, modes_push ..⟩, hs.currentState, ?_, ?_, ?_, hs.unfinished⟩
    · exact (modes_push r _ _).symm ▸ hs.currentMode.change mode
    · exact fun message hmessage ↦ (by cases hmessage)
    · rw [modes_push]
      exact fun message hmessage ↦ (hs.qtMessage message hmessage).change mode
  | recordMode =>
    obtain ⟨mode, hrecording, rfl⟩ := recordMode_spec hnext
    obtain ⟨earlier, hmodes⟩ := hs.modes
    have haccepted : r.current.accepted = mode := hcopies.mode mode (by rw [hrecording]; rfl)
    refine ⟨hs.states, hs.modes, hs.currentState, ?_, ?_, hs.qtMessage, hs.unfinished⟩
    · show IsCopy r.modes true mode
      rw [hmodes, haccepted]
      exact .newest _ _
    · exact fun message hmessage ↦ (by cases hmessage)
  | fillMode =>
    obtain ⟨mode, -, rfl⟩ := fillMode_spec hnext
    refine ⟨hs.states, hs.modes, hs.currentState, hs.currentMode, ?_, hs.qtMessage, hs.unfinished⟩
    intro message hmessage
    obtain rfl := Option.some.inj hmessage
    exact hs.currentState
  | publishMode =>
    obtain ⟨mode, message, -, rfl⟩ := publishMode_spec hnext
    exact hs.frame ⟨rfl, rfl, rfl, rfl⟩ ⟨rfl, rfl⟩ ⟨rfl, rfl⟩ ⟨rfl, rfl⟩ (hkeeps rfl)
      (fun _ h ↦ h) id
  | callMode =>
    obtain ⟨mode, -, rfl⟩ := callMode_spec hnext
    exact hs.frame ⟨rfl, rfl, rfl, rfl⟩ ⟨rfl, rfl⟩ ⟨rfl, rfl⟩ ⟨rfl, rfl⟩ (hkeeps rfl)
      (fun _ h ↦ h) id
  | modeRound approved =>
    obtain ⟨mode, hphase, ⟨-, rfl⟩ | ⟨-, response, -, rfl⟩⟩ := modeRound_spec hnext
    · -- the mode that is assigned once more is the one that `on_mode_changed` has assigned
      have hassigned : mode = r.current.currentMode :=
        (hcopies.mode mode (by rw [hphase]; rfl)).symm.trans
          (hcopies.currentMode (by rw [hphase]; rfl)).symm
      exact hs.frame ⟨rfl, rfl, rfl, rfl⟩ ⟨rfl, rfl⟩ ⟨rfl, rfl⟩ ⟨rfl, hassigned⟩ (hkeeps rfl)
        (fun _ h ↦ h) id
    · exact hs.frame ⟨rfl, rfl, rfl, rfl⟩ ⟨rfl, rfl⟩ ⟨rfl, rfl⟩ ⟨rfl, rfl⟩ (hkeeps rfl)
        (fun _ h ↦ h) id
  | fillModeAgain =>
    obtain ⟨mode, -, rfl⟩ := fillModeAgain_spec hnext
    refine ⟨hs.states, hs.modes, hs.currentState, hs.currentMode, ?_, hs.qtMessage, hs.unfinished⟩
    intro message hmessage
    obtain rfl := Option.some.inj hmessage
    exact hs.currentState
  | publishModeAgain =>
    obtain ⟨mode, message, -, response, -, rfl⟩ := publishModeAgain_spec hnext
    exact hs.frame ⟨rfl, rfl, rfl, rfl⟩ ⟨rfl, rfl⟩ ⟨rfl, rfl⟩ ⟨rfl, rfl⟩ (hkeeps rfl)
      (fun _ h ↦ h) id

theorem datedCopies_of_reachable (hrun : (smNode cycle).recorded.Reachable r) : DatedCopies r := by
  refine hrun.recorded_invariant (fun s hs ↦
    And.intro (located_stateValue (nodeMachine_reachable hs)) (copiesInvariant_of_reachable hs))
    ?_ ?_
  · rintro s rfl
    refine ⟨⟨[.undefined], rfl⟩, ⟨[], rfl⟩, List.mem_singleton_self _, rfl, ?_, ?_, fun _ ↦ rfl⟩
    · exact fun message hmessage ↦ (by cases hmessage)
    · exact fun message hmessage ↦ (by cases hmessage)
  · intro r action t hbase hs hnext
    exact datedCopies_step hbase.1 hbase.2 hs hnext

/-! ### Which publications are true -/

/-- A message of the ROS thread that was filled in time is true, and no other one is, unless a state
was entered again. -/
theorem rosMessage_true (hcopies : CopiesInvariant r.current) (hs : DatedCopies r)
    {message : Status} (hmessage : r.current.ros.message = some message) :
    (filledAfterRound r.actions = true →
        message = ⟨r.current.machine.stateValue, r.current.accepted⟩) ∧
      (r.states.Nodup → message = ⟨r.current.machine.stateValue, r.current.accepted⟩ →
        filledAfterRound r.actions = true) := by
  have hcopy := hs.rosMessage message hmessage
  obtain ⟨earlier, hstates⟩ := hs.states
  rw [hstates] at hcopy ⊢
  constructor
  · intro hinTime
    rw [← hcopy.eq_newest hinTime, ← hcopies.rosMessage message hmessage]
  · rintro hdistinct rfl
    exact hcopy.upToDate_of_newest hdistinct

/-- A message of the Qt thread that was filled in time is true, and no other one is, unless a mode
was accepted again. -/
theorem qtMessage_true (hcopies : CopiesInvariant r.current) (hs : DatedCopies r)
    {message : Status} (hmessage : r.current.qt = .publishing message) :
    (filledAfterMode r.actions = true →
        message = ⟨r.current.machine.stateValue, r.current.accepted⟩) ∧
      (r.modes.Nodup → message = ⟨r.current.machine.stateValue, r.current.accepted⟩ →
        filledAfterMode r.actions = true) := by
  have hcopy := hs.qtMessage message hmessage
  obtain ⟨earlier, hmodes⟩ := hs.modes
  rw [hmodes] at hcopy ⊢
  constructor
  · intro hinTime
    rw [← hcopy.eq_newest hinTime, ← hcopies.qtMessage message hmessage]
  · rintro hdistinct rfl
    exact hcopy.upToDate_of_newest hdistinct

/-- A step that comes in time sends a true message, and no other one does, unless a state was
entered or a mode accepted again. -/
theorem statusSent_true (hcopies : CopiesInvariant r.current) (hs : DatedCopies r)
    (hnext : (smNode cycle).next r.current action = some t) :
    (PublishesInTime r.actions action → ∀ message ∈ r.current.statusSent action,
        message = ⟨r.current.machine.stateValue, r.current.accepted⟩) ∧
      (r.states.Nodup → r.modes.Nodup → (∀ message ∈ r.current.statusSent action,
        message = ⟨r.current.machine.stateValue, r.current.accepted⟩) →
          PublishesInTime r.actions action) := by
  cases action with
  | publishState =>
    obtain ⟨message, hqt, -⟩ := publishState_spec hnext
    have hsent : r.current.statusSent .publishState = [message] := by
      simp [SMNode.statusSent, SMNode.qtMessage, hqt]
    obtain ⟨htrue, hinTime⟩ := qtMessage_true hcopies hs hqt
    rw [hsent, List.forall_mem_singleton]
    exact ⟨htrue, fun _ hdistinct ↦ hinTime hdistinct⟩
  | publishMode =>
    obtain ⟨mode, message, hphase, -⟩ := publishMode_spec hnext
    have hmessage : r.current.ros.message = some message := by rw [hphase]; rfl
    obtain ⟨htrue, hinTime⟩ := rosMessage_true hcopies hs hmessage
    rw [SMNode.statusSent, hmessage, Option.toList_some, List.forall_mem_singleton]
    exact ⟨htrue, fun hdistinct _ ↦ hinTime hdistinct⟩
  | publishModeAgain =>
    obtain ⟨mode, message, hphase, -⟩ := publishModeAgain_spec hnext
    have hmessage : r.current.ros.message = some message := by rw [hphase]; rfl
    obtain ⟨htrue, hinTime⟩ := rosMessage_true hcopies hs hmessage
    rw [SMNode.statusSent, hmessage, Option.toList_some, List.forall_mem_singleton]
    exact ⟨htrue, fun hdistinct _ ↦ hinTime hdistinct⟩
  | _ => exact ⟨fun _ message hmessage ↦ (by cases hmessage), fun _ _ _ ↦ trivial⟩

/-- Every status that a run has published is true when every publication of the run came in time,
and otherwise one is not, unless a state was entered or a mode accepted again. -/
theorem published_status_true_iff (hrun : (smNode cycle).recorded.Reachable r) :
    (InTime r.actions → ∀ publication ∈ r.current.published, publication.IsTrue) ∧
      (r.states.Nodup → r.modes.Nodup →
        (∀ publication ∈ r.current.published, publication.IsTrue) → InTime r.actions) := by
  induction hrun with
  | @initial r h =>
    obtain ⟨current, steps⟩ := r
    obtain ⟨rfl, rfl⟩ := h
    exact ⟨fun _ publication hpublication ↦ (by cases hpublication), fun _ _ _ ↦ trivial⟩
  | @step r _ action hbefore _ hnext ih =>
    obtain ⟨t, ht, rfl⟩ := TransitionSystem.recorded_next hnext
    obtain ⟨hinTime, htrue⟩ := ih
    obtain ⟨hsentTrue, hsentInTime⟩ :=
      statusSent_true (copiesInvariant_of_reachable hbefore.current)
        (datedCopies_of_reachable hbefore) ht
    rw [TransitionSystem.Recorded.push_current, published_step ht, List.forall_mem_append,
      List.forall_mem_map, actions_push, states_push, modes_push]
    constructor
    · rintro ⟨hnow, hpast⟩
      exact ⟨hinTime hpast, hsentTrue hnow⟩
    · rintro hstates hmodes ⟨hpast, hnow⟩
      have hearlierStates := (List.nodup_append.mp hstates).2.1
      have hearlierModes := (List.nodup_append.mp hmodes).2.1
      exact ⟨hsentInTime hearlierStates hearlierModes hnow,
        htrue hearlierStates hearlierModes hpast⟩

end Dates

/-! ### Runs -/

/-- A round in which every client approves the state just entered. -/
def approvedRound : List NodeAction :=
  [.callState, .stateRound true, .fillState, .publishState, .machine .notified]

/-- A command is posted and carried out up to the entry of its target. -/
def carryOut (cmd : TransitionCmd) : List NodeAction :=
  [.machine (.post cmd), .machine .select, .machine .leave, .machine .enter]

/-- An operation finishes and its completion leads to the entry of the next state. -/
def complete (activation : Activation) : List NodeAction :=
  [.machine (.finish activation 0), .machine .select, .machine .leave, .machine .enter]

/-- The manager is taken from ABORTED to the entry of IDLE, and every round is approved. -/
def enterIdleRun : List NodeAction :=
  approvedRound ++ carryOut .clear ++ approvedRound ++ complete ⟨.clearing, 0⟩ ++ approvedRound ++
    carryOut .reset ++ approvedRound ++ complete ⟨.resetting, 1⟩

/-- A mode change, up to its first publication. -/
def changeModeTo (mode : ModeType) : List NodeAction :=
  [.modeRequest mode, .install, .recordMode, .fillMode, .publishMode]

/-- A mode change in IDLE, when the round of IDLE was approved. -/
def approvedIdleRun : List NodeAction :=
  enterIdleRun ++ approvedRound ++ changeModeTo .maintenance

theorem published_status_true_iff_approvedIdleRun :
    ∃ r : SMNodeRun, (smNode .singleCycle).recorded.runFrom ⟨.activated, []⟩ approvedIdleRun =
        some r ∧
      r.current.published.length = 6 ∧
        ∀ publication ∈ r.current.published, publication.IsTrue := by
  have hend : ((smNode .singleCycle).recorded.runFrom ⟨.activated, []⟩ approvedIdleRun).map
      (fun r ↦ (r.current.published.length, decide (InTime (SMNodeRun.actions r)))) =
        some (6, true) := rfl
  obtain ⟨r, hrun, hr⟩ := Option.map_eq_some_iff.mp hend
  obtain ⟨hlength, hinTime⟩ := Prod.mk.injEq .. ▸ hr
  have hinitial : (smNode .singleCycle).recorded.initial ⟨.activated, []⟩ := ⟨rfl, rfl⟩
  have hreachable : (smNode .singleCycle).recorded.Reachable r :=
    TransitionSystem.reachable_of_runFrom (.initial hinitial) approvedIdleRun hrun
  exact ⟨r, hrun, hlength, (published_status_true_iff hreachable).1 (of_decide_eq_true hinTime)⟩

/-- A mode change in IDLE, when a client has refused IDLE. -/
def refusedIdleRun : List NodeAction :=
  enterIdleRun ++ [.callState, .stateRound false, .machine .notified] ++ changeModeTo .maintenance

/-- The mode change publishes RESETTING, although the machine is in IDLE. -/
theorem stale_state_published :
    ∃ s, (smNode .singleCycle).runFrom .activated refusedIdleRun = some s ∧
      s.machine.stateValue = .idle ∧
        ⟨⟨.resetting, .maintenance⟩, ⟨.idle, .maintenance⟩⟩ ∈ s.published ∧
          ¬ ∀ publication ∈ s.published, publication.IsTrue := by
  have hend : ((smNode .singleCycle).runFrom .activated refusedIdleRun).map
      (fun s ↦ (s.machine.stateValue, s.published.getLast?)) =
        some (.idle, some ⟨⟨.resetting, .maintenance⟩, ⟨.idle, .maintenance⟩⟩) := rfl
  obtain ⟨s, hrun, hs⟩ := Option.map_eq_some_iff.mp hend
  obtain ⟨hidle, hlast⟩ := Prod.mk.injEq .. ▸ hs
  have hmem := List.mem_of_getLast? hlast
  refine ⟨s, hrun, hidle, hmem, ?_⟩
  intro htrue
  exact absurd (htrue _ hmem) (by decide)

end PackML
