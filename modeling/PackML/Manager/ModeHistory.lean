import PackML.Manager.OfflineNodes
import PackML.Manager.SeenStatuses

/-!
# What a node sees of the mode

`on_mode_changed` publishes a mode as soon as `changeMode` has installed it, before the nodes are
asked whether they approve it. So the modes, other than the states, need no agreement: when nothing
is lost and no message with an older mode is published by the Qt thread, a node sees every mode that
was installed, in order and repetitions left out, also those that it or another node has refused and
those whose request was answered as a failure (`modes_seen`).
-/

set_option autoImplicit false
set_option relaxedAutoImplicit false

namespace PackML

open TransitionSystem

/-- What the calls of `on_status_changed` for the mode see in a step. -/
def seenModes {Client : Type} [DecidableEq Client] (client : Client)
    (step : Step (Voting Client) (LossyAction Client)) : List ModeType :=
  (received client step).flatMap fun status ↦
    (((step.before.link client).node.onStateChanged status.state).1.onModeChanged
      status.mode).2.map (·.mode)

/-- Whether a mode was installed that `on_mode_changed` has not published. -/
def RosPhase.isUnpublished : RosPhase → Bool
  | .recording _ | .filling _ | .publishing _ _ => true
  | _ => false

/-- The mode installed last, which `on_mode_changed` publishes. -/
def acceptedMode : PublishedVariable ModeType where
  field status := status.mode
  value s := s.accepted
  changes := installedMode
  pending s := s.ros.isUnpublished = true
  refuses _ := false

theorem onModeChanged_seen (node : PackmlNodeInterface) (status : Status) :
    ((node.onStateChanged status.state).1.onModeChanged status.mode).2.map (·.mode) =
      if node.currentMode = status.mode then [] else [status.mode] := by
  have hmode : (node.onStateChanged status.state).1.currentMode = node.currentMode :=
    congrArg Follower.current (node.onStateChanged_modeFollower status.state)
  unfold PackmlNodeInterface.onModeChanged
  rw [hmode]
  by_cases hsame : node.currentMode = status.mode
  · rw [if_neg (not_not.mpr hsame), if_pos hsame]
    rfl
  · rw [if_pos hsame, if_neg hsame]
    rfl

section Runs

variable {Client : Type} [DecidableEq Client] {cycle : Cycle} {clients : List Client}
  {client : Client} {s t : SMNode} {action : NodeAction}
  {r : Recorded (Voting Client) (LossyAction Client)}

theorem seenModes_eq : seenModes client = seenField (·.mode) client := by
  funext step
  exact List.flatMap_congr fun status _ ↦ onModeChanged_seen _ status

/-- Where the mode was published, a step may do anything but install another. -/
theorem acceptedMode_keeps {phase : RosPhase} (hphase : s.ros = phase)
    (hpublished : phase.isUnpublished = false) (hchanges : installedMode ⟨s, action, t⟩ = [])
    (haccepted : t.accepted = s.accepted) : acceptedMode.Moves s action t := by
  refine .keeps hchanges haccepted fun hpending ↦ ?_
  have hunpublished : s.ros.isUnpublished = true := hpending
  rw [hphase, hpublished] at hunpublished
  cases hunpublished

/-- A mode is installed when the one before was published. -/
theorem acceptedMode_moves (hnext : (smNode cycle).next s action = some t) :
    acceptedMode.Moves s action t := by
  cases action with
  | machine step =>
    obtain ⟨machine, -, ⟨-, rfl⟩ | ⟨-, -, rfl⟩⟩ := machineStep_node hnext
    · exact .keeps rfl rfl Or.inl
    · exact .keeps rfl rfl Or.inl
  | callState =>
    obtain ⟨-, -, rfl⟩ := callState_spec hnext
    exact .keeps rfl rfl Or.inl
  | stateRound approved =>
    obtain ⟨-, state, -, ⟨-, rfl⟩ | ⟨-, rfl⟩⟩ := stateRound_spec hnext
    · exact .keeps rfl rfl Or.inl
    · exact .keeps rfl rfl Or.inl
  | fillState =>
    obtain ⟨-, rfl⟩ := fillState_spec hnext
    exact .keeps rfl rfl Or.inl
  | publishState =>
    obtain ⟨message, -, rfl⟩ := publishState_spec hnext
    exact .keeps rfl rfl Or.inl
  | modeRequest mode =>
    obtain ⟨hidle, ⟨machine, -, rfl⟩ | ⟨response, -, rfl⟩⟩ := modeRequest_spec hnext
    · exact acceptedMode_keeps hidle rfl rfl rfl
    · exact acceptedMode_keeps hidle rfl rfl rfl
  | install =>
    obtain ⟨hchanging, mode, machine, -, -, rfl⟩ := install_spec hnext
    exact .changes (by simp [acceptedMode, RosPhase.isUnpublished, hchanging]) rfl rfl rfl
  | recordMode =>
    obtain ⟨mode, -, rfl⟩ := recordMode_spec hnext
    exact .keeps rfl rfl fun _ ↦ Or.inl rfl
  | fillMode =>
    obtain ⟨mode, -, rfl⟩ := fillMode_spec hnext
    exact .keeps rfl rfl fun _ ↦ Or.inl rfl
  | publishMode =>
    obtain ⟨mode, message, hphase, rfl⟩ := publishMode_spec hnext
    refine .keeps rfl rfl fun _ ↦ Or.inr (Or.inl ?_)
    simp [SMNode.statusSent, RosPhase.message, hphase]
  | callMode =>
    obtain ⟨mode, hphase, rfl⟩ := callMode_spec hnext
    exact acceptedMode_keeps hphase rfl rfl rfl
  | modeRound approved =>
    obtain ⟨mode, hphase, ⟨-, rfl⟩ | ⟨-, response, -, rfl⟩⟩ := modeRound_spec hnext
    · exact acceptedMode_keeps hphase rfl rfl rfl
    · exact acceptedMode_keeps hphase rfl rfl rfl
  | fillModeAgain =>
    obtain ⟨mode, hphase, rfl⟩ := fillModeAgain_spec hnext
    exact acceptedMode_keeps hphase rfl rfl rfl
  | publishModeAgain =>
    obtain ⟨mode, message, hphase, response, -, rfl⟩ := publishModeAgain_spec hnext
    exact acceptedMode_keeps hphase rfl rfl rfl

theorem acceptedMode_follows (cycle : Cycle) : acceptedMode.Follows cycle where
  moves _ _ _ _ hnext := acceptedMode_moves hnext
  covered := rfl
  published _ := rfl

/-- In every run in which no message with an older mode is published and nothing is lost on the way
to a node, the node has seen a beginning of the modes that were installed, repetitions left out and
whichever of them were refused, and all of them when the last one was published and nothing is under
way to the node. -/
theorem modes_seen (hclient : client ∈ clients)
    (hrun : (lossy cycle clients).recorded.ReachableBy
      (fun r action ↦ acceptedMode.PassesOn client r.current action) r) :
    r.produced (seenModes client) <+:
        (.manual :: r.produced (ofManager installedMode)).destutter (· ≠ ·) ∧
      (r.current.manager.ros.isUnpublished = false → (r.current.link client).statuses = [] →
        r.produced (seenModes client) =
          (.manual :: r.produced (ofManager installedMode)).destutter (· ≠ ·)) := by
  obtain ⟨hbegins, hall⟩ := (acceptedMode_follows cycle).seen_history hclient
    (show ModeType.undefined ≠ .manual by decide) hrun
  rw [seenModes_eq]
  exact ⟨hbegins, fun hpublished hdelivered ↦ hall (Bool.eq_false_iff.mp hpublished) hdelivered⟩

end Runs

/-! ### A run -/

/-- One node, which receives everything, while the other is offline and every round fails. -/
def maintenanceReceived : List (LossyAction Bool) :=
  (agreedRound ++ idleOffline).map .voting ++ List.replicate 3 (.voting (.handleStatus true))

/-- The node sees MAINTENANCE, whose request is answered as a failure. -/
theorem modes_seen_maintenanceReceived :
    ∃ r, (lossy .singleCycle [true, false]).recorded.runFrom ⟨.activated, []⟩
        maintenanceReceived = some r ∧
      r.produced (seenModes true) = [.manual, .maintenance] ∧
        (r.produced (seenModes true) <+:
            (.manual :: r.produced (ofManager installedMode)).destutter (· ≠ ·) ∧
          (r.current.manager.ros.isUnpublished = false → (r.current.link true).statuses = [] →
            r.produced (seenModes true) =
              (.manual :: r.produced (ofManager installedMode)).destutter (· ≠ ·))) := by
  have hend : ((lossy .singleCycle [true, false]).recorded.runFrom ⟨.activated, []⟩
      maintenanceReceived).map (fun r ↦ r.produced (seenModes true)) =
        some [.manual, .maintenance] := rfl
  obtain ⟨r, hrun, hseen⟩ := Option.map_eq_some_iff.mp hend
  have hinitial : (lossy .singleCycle [true, false]).recorded.initial ⟨.activated, []⟩ :=
    ⟨rfl, rfl⟩
  have hallowed : (lossy .singleCycle [true, false]).recorded.AllowedAlong
      (fun r action ↦ acceptedMode.PassesOn true r.current action) maintenanceReceived
        ⟨.activated, []⟩ := by
    decide +kernel
  exact ⟨r, hrun, hseen, modes_seen (by decide)
    (reachableBy_of_runFrom (.initial hinitial) _ hallowed hrun)⟩

end PackML
