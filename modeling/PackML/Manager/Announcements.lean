import PackML.Manager.LostStatuses

/-!
# The states that are announced

A state that the machine enters is on its way through the manager until `on_state_changed` returns:
it is announced to the nodes by `call_all_clients`, its round is closed by `wait_all_futures`, and
when the round was approved it is published. The machine does not go on before, so that no state
overtakes another and none is left out: the states entered, announced, decided, approved and
published are the same in each case up to the one that is under way, and a node answers the requests
that were sent to it, in this order, each once (`states_accounted`).

`round_step` says once what a step of the manager does to the round of a state.
-/

set_option autoImplicit false
set_option relaxedAutoImplicit false

namespace PackML

open TransitionSystem

/-! ### The stations of a state -/

section Stations

variable (step : Step SMNode NodeAction)

/-- The state that the nodes are asked to approve. -/
def announced : List State := step.before.stateRequest step.action

/-- The state whose round is over. -/
def decided : List State :=
  match step.action with
  | .stateRound _ => [step.before.machine.stateValue]
  | _ => []

/-- The state whose round was approved. -/
def approvedState : List State :=
  match step.action with
  | .stateRound true => [step.before.machine.stateValue]
  | _ => []

/-- The state that `on_state_changed` publishes. -/
def publishedState : List State :=
  match step.action with
  | .publishState => step.before.qtMessage.map (·.state)
  | _ => []

end Stations

namespace SMNode

variable (s : SMNode)

/-- The state that was entered and not announced. -/
def unannounced : List State := if s.qt = .calling then [s.machine.stateValue] else []

/-- The state that was announced and not decided. -/
def undecided : List State := if s.qt = .waiting then [s.machine.stateValue] else []

/-- The state that was approved and not published. -/
def unpublished : List State :=
  match s.qt with
  | .filling | .publishing _ => [s.machine.stateValue]
  | _ => []

end SMNode

/-- Whether a step belongs to the round of a state. -/
def NodeAction.ofRound : NodeAction → Bool
  | .machine .enter | .callState | .stateRound _ | .fillState | .publishState => true
  | _ => false

/-- What a step does to the round of a state: the state is entered, announced, approved or refused;
the message is filled, or published; or the round is left as it is. -/
inductive RoundStep (s : SMNode) : NodeAction → SMNode → Prop
  | enters {t : SMNode} (hbefore : s.qt = .done) (hafter : t.qt = .calling) :
      RoundStep s (.machine .enter) t
  | calls {t : SMNode} (hrequest : s.stateRequest .callState = [s.machine.stateValue])
      (hbefore : s.qt = .calling) (hafter : t.qt = .waiting)
      (hvalue : t.machine.stateValue = s.machine.stateValue) : RoundStep s .callState t
  | approves {t : SMNode} (hbefore : s.qt = .waiting) (hafter : t.qt = .filling)
      (hvalue : t.machine.stateValue = s.machine.stateValue) : RoundStep s (.stateRound true) t
  | refuses {t : SMNode} (hbefore : s.qt = .waiting) (hafter : t.qt = .done)
      (hvalue : t.machine.stateValue = s.machine.stateValue) : RoundStep s (.stateRound false) t
  | fills {t : SMNode} {message : Status} (hbefore : s.qt = .filling)
      (hafter : t.qt = .publishing message)
      (hvalue : t.machine.stateValue = s.machine.stateValue) : RoundStep s .fillState t
  | publishes {t : SMNode} {message : Status} (hmessage : message.state = s.machine.stateValue)
      (hbefore : s.qt = .publishing message) (hafter : t.qt = .done)
      (hvalue : t.machine.stateValue = s.machine.stateValue) : RoundStep s .publishState t
  | keeps {t : SMNode} {action : NodeAction} (haction : action.ofRound = false)
      (hqt : t.qt = s.qt) (hvalue : t.machine.stateValue = s.machine.stateValue) :
      RoundStep s action t

section Manager

variable {cycle : Cycle} {s t : SMNode} {action : NodeAction}

/-- A state is entered when the round of the state before it is over. -/
theorem round_machine (hlocated : Located cycle s.machine s.machine.stateValue)
    (hcopies : CopiesInvariant s) {step : Action} (hnext : s.machineStep cycle step = some t) :
    RoundStep s (.machine step) t := by
  obtain ⟨machine, hmachine, ⟨rfl, rfl⟩ | ⟨henter, -, rfl⟩⟩ := machineStep_node hnext
  · have hdone : s.qt = .done := by
      by_contra hround
      simp [execution, Execution.enter, hcopies.notifying hround] at hmachine
    exact .enters hdone rfl
  · refine .keeps ?_ rfl (stateValue_kept hlocated henter hmachine)
    cases step <;> first | rfl | exact absurd rfl henter

theorem round_step (hrun : (smNode cycle).Reachable s)
    (hnext : (smNode cycle).next s action = some t) : RoundStep s action t := by
  have hlocated := located_stateValue (nodeMachine_reachable hrun)
  have hcopies := copiesInvariant_of_reachable hrun
  by_cases hros : action.onRos = true
  · obtain ⟨hqt, hvalue⟩ := qt_kept hros hnext
    refine .keeps ?_ hqt hvalue
    cases action <;> first | rfl | cases hros
  · cases action with
    | machine step => exact round_machine hlocated hcopies hnext
    | callState =>
      obtain ⟨⟨state, hphase⟩, hqt, rfl⟩ := callState_spec hnext
      refine .calls ?_ hqt rfl rfl
      rw [SMNode.stateRequest, hcopies.notifying (by simp [hqt])]
    | stateRound approved =>
      obtain ⟨hqt, state, hphase, ⟨rfl, rfl⟩ | ⟨rfl, rfl⟩⟩ := stateRound_spec hnext
      · exact .approves hqt rfl rfl
      · exact .refuses hqt rfl rfl
    | fillState =>
      obtain ⟨hqt, rfl⟩ := fillState_spec hnext
      exact .fills hqt rfl rfl
    | publishState =>
      obtain ⟨message, hqt, rfl⟩ := publishState_spec hnext
      exact .publishes (by rw [hcopies.qtMessage message hqt]) hqt rfl rfl
    | modeRequest | install | recordMode | fillMode | publishMode | callMode | modeRound
    | fillModeAgain | publishModeAgain => exact absurd rfl hros

/-- A step that does not belong to a round passes no state on. -/
theorem stations_of_not_ofRound (haction : action.ofRound = false) :
    entered ⟨s, action, t⟩ = [] ∧ announced ⟨s, action, t⟩ = [] ∧ decided ⟨s, action, t⟩ = [] ∧
      approvedState ⟨s, action, t⟩ = [] ∧ publishedState ⟨s, action, t⟩ = [] := by
  cases action with
  | machine step =>
    cases step with
    | enter => cases haction
    | _ => exact ⟨rfl, rfl, rfl, rfl, rfl⟩
  | callState | stateRound | fillState | publishState => cases haction
  | _ => exact ⟨rfl, rfl, rfl, rfl, rfl⟩

theorem announced_step (hstep : RoundStep s action t) :
    s.unannounced ++ entered ⟨s, action, t⟩ = announced ⟨s, action, t⟩ ++ t.unannounced := by
  cases hstep with
  | enters hbefore hafter => simp [SMNode.unannounced, entered, announced, SMNode.stateRequest, *]
  | calls hrequest hbefore hafter hvalue => simp [SMNode.unannounced, entered, announced, *]
  | approves | refuses | fills | publishes =>
    simp [SMNode.unannounced, entered, announced, SMNode.stateRequest, *]
  | keeps haction hqt hvalue =>
    obtain ⟨hentered, hannounced, -⟩ := stations_of_not_ofRound (s := s) (t := t) haction
    simp [SMNode.unannounced, *]

theorem decided_step (hstep : RoundStep s action t) :
    s.undecided ++ announced ⟨s, action, t⟩ = decided ⟨s, action, t⟩ ++ t.undecided := by
  cases hstep with
  | calls hrequest hbefore hafter hvalue => simp [SMNode.undecided, announced, decided, *]
  | enters | approves | refuses | fills | publishes =>
    simp [SMNode.undecided, announced, decided, SMNode.stateRequest, *]
  | keeps haction hqt hvalue =>
    obtain ⟨-, hannounced, hdecided, -⟩ := stations_of_not_ofRound (s := s) (t := t) haction
    simp [SMNode.undecided, *]

theorem publishedState_step (hstep : RoundStep s action t) :
    s.unpublished ++ approvedState ⟨s, action, t⟩ =
      publishedState ⟨s, action, t⟩ ++ t.unpublished := by
  cases hstep with
  | publishes hmessage hbefore hafter hvalue =>
    simp [SMNode.unpublished, approvedState, publishedState, SMNode.qtMessage, *]
  | enters | calls | approves | refuses | fills =>
    simp [SMNode.unpublished, approvedState, publishedState, *]
  | keeps haction hqt hvalue =>
    obtain ⟨-, -, -, happroved, hpublished⟩ := stations_of_not_ofRound (s := s) (t := t) haction
    simp [SMNode.unpublished, *]

/-- Only states whose round is over are approved. -/
theorem approvedState_sublist (step : Step SMNode NodeAction) :
    (approvedState step).Sublist (decided step) := by
  unfold approvedState decided
  split
  · rename_i haction
    rw [haction]
  · exact List.nil_sublist _

end Manager

/-! ### What happens in a network -/

section Network

variable {Client : Type}

/-- What a step of the manager passes on. -/
def ofManager {Item : Type} (items : Step SMNode NodeAction → List Item)
    (step : Step (Voting Client) (LossyAction Client)) : List Item :=
  match step.action with
  | .voting (.manager action _) => items ⟨step.before.manager, action, step.after.manager⟩
  | _ => []

theorem ofManager_of_ne {Item : Type} {items : Step SMNode NodeAction → List Item}
    {s t : Voting Client} {action : LossyAction Client}
    (haction : ∀ step available, action ≠ .voting (.manager step available)) :
    ofManager items ⟨s, action, t⟩ = [] := by
  unfold ofManager
  split
  · rename_i step available h
    exact absurd h (haction step available)
  · rfl

variable (client : Client) (step : Step (Voting Client) (LossyAction Client))

/-- The state that a node is asked to approve: the one announced, if its service is available. -/
def asked : List State :=
  match step.action with
  | .voting (.manager action available) =>
    if available client then step.before.manager.stateRequest action else []
  | _ => []

theorem ofManager_sublist {Item : Type} {part items : Step SMNode NodeAction → List Item}
    (hpart : ∀ step, (part step).Sublist (items step))
    (step : Step (Voting Client) (LossyAction Client)) :
    (ofManager part step).Sublist (ofManager items step) := by
  unfold ofManager
  split
  · exact hpart _
  · exact List.Sublist.refl _

theorem asked_sublist : (asked client step).Sublist (ofManager announced step) := by
  unfold asked ofManager
  split
  · rename_i action available haction
    split
    · exact List.Sublist.refl _
    · exact List.nil_sublist _
  · exact List.nil_sublist _

/-- The state that a node approves or refuses. -/
def answered [DecidableEq Client] (client : Client)
    (step : Step (Voting Client) (LossyAction Client)) : List State :=
  match step.action with
  | .voting (.handleState handled _) =>
    if handled = client then
      (step.before.link client).stateRequests.head?.toList.map (·.value)
    else []
  | _ => []

end Network

section Runs

variable {Client : Type} [DecidableEq Client] {cycle : Cycle} {clients : List Client}
  {client : Client} {s t : Voting Client}

/-- A step of a network is one of the manager, or leaves the manager as it is. -/
theorem lossy_manager {action : LossyAction Client}
    (hnext : (lossy cycle clients).next s action = some t) :
    (∃ step available, action = .voting (.manager step available) ∧
        (smNode cycle).next s.manager step = some t.manager) ∨
      ((∀ step available, action ≠ .voting (.manager step available)) ∧
        t.manager = s.manager) := by
  cases action with
  | lose handled index =>
    obtain ⟨link, -, rfl⟩ := Option.map_eq_some_iff.mp hnext
    exact Or.inr ⟨by simp, rfl⟩
  | voting action =>
    cases action with
    | manager step available =>
      obtain ⟨-, hnext⟩ := Option.ite_none_right_eq_some.mp hnext
      obtain ⟨manager, hmanager, rfl⟩ := Option.map_eq_some_iff.mp hnext
      exact Or.inl ⟨step, available, rfl, hmanager⟩
    | handleState handled approved =>
      obtain ⟨link, -, rfl⟩ := Option.map_eq_some_iff.mp hnext
      exact Or.inr ⟨by simp, rfl⟩
    | handleMode handled approved =>
      obtain ⟨link, -, rfl⟩ := Option.map_eq_some_iff.mp hnext
      exact Or.inr ⟨by simp, rfl⟩
    | handleStatus handled =>
      obtain ⟨link, -, rfl⟩ := Option.map_eq_some_iff.mp hnext
      exact Or.inr ⟨by simp, rfl⟩

theorem lossyManager_reachable (hrun : (lossy cycle clients).Reachable s) :
    (smNode cycle).Reachable s.manager := by
  refine hrun.project Voting.manager ?_ ?_
  · rintro s rfl
    rfl
  · intro s action t hnext
    obtain ⟨step, available, -, hmanager⟩ | ⟨-, hmanager⟩ := lossy_manager hnext
    · exact Or.inr ⟨step, hmanager⟩
    · exact Or.inl hmanager

variable {r : Recorded (Voting Client) (LossyAction Client)}

/-- What every step of the manager passes on in order is passed on in every run of a network. -/
theorem passedOn_ofManager {Item : Type} {held : SMNode → List Item}
    {taken given : Step SMNode NodeAction → List Item}
    (hstep : ∀ s action t, RoundStep s action t →
      held s ++ taken ⟨s, action, t⟩ = given ⟨s, action, t⟩ ++ held t)
    (hrun : (lossy cycle clients).recorded.Reachable r) :
    held .activated ++ r.produced (ofManager taken) =
      r.produced (ofManager given) ++ held r.current.manager := by
  have hinitial : ∀ s, (lossy cycle clients).initial s → held s.manager = held .activated := by
    rintro s rfl
    rfl
  have hkept : ∀ s action t, (lossy cycle clients).Reachable s →
      (lossy cycle clients).next s action = some t →
        held s.manager ++ ofManager taken ⟨s, action, t⟩ =
          ofManager given ⟨s, action, t⟩ ++ held t.manager := by
    intro s action t hs hnext
    obtain ⟨step, available, rfl, hmanager⟩ | ⟨hnode, hmanager⟩ := lossy_manager hnext
    · exact hstep _ _ _ (round_step (lossyManager_reachable hs) hmanager)
    · rw [ofManager_of_ne hnode, ofManager_of_ne hnode, List.append_nil, List.nil_append, hmanager]
  have hpassed := hrun.passedOn hinitial hkept
  exact hpassed

/-- A step of a node that leaves the requests under way to another node, or to itself. -/
theorem answered_update {handled : Client} {link : VotingLink} {action : LossyAction Client}
    (hlink : handled = client → link.stateRequests = (s.link handled).stateRequests)
    (hasked : asked client ⟨s, action, s.update handled link⟩ = [])
    (hanswered : answered client ⟨s, action, s.update handled link⟩ = []) :
    (s.link client).stateRequests.map (·.value) ++ asked client ⟨s, action, s.update handled link⟩ =
      answered client ⟨s, action, s.update handled link⟩ ++
        ((s.update handled link).link client).stateRequests.map (·.value) := by
  have hkept : ((s.update handled link).link client).stateRequests =
      (s.link client).stateRequests := by
    by_cases hsame : handled = client
    · subst hsame
      simpa [Voting.update] using hlink rfl
    · simp [Voting.update, Function.update_of_ne (Ne.symm hsame)]
  rw [hasked, hanswered, hkept, List.append_nil, List.nil_append]

/-- A node answers the requests sent to it in their order. -/
theorem answered_step (hclient : client ∈ clients) {action : LossyAction Client}
    (hnext : (lossy cycle clients).next s action = some t) :
    (s.link client).stateRequests.map (·.value) ++ asked client ⟨s, action, t⟩ =
      answered client ⟨s, action, t⟩ ++ (t.link client).stateRequests.map (·.value) := by
  cases action with
  | lose handled index =>
    obtain ⟨link, hlose, rfl⟩ := Option.map_eq_some_iff.mp hnext
    obtain ⟨-, hlose⟩ := Option.ite_none_right_eq_some.mp hlose
    obtain rfl := Option.some.inj hlose
    exact answered_update (fun _ ↦ rfl) rfl rfl
  | voting action =>
    cases action with
    | manager step available =>
      obtain ⟨-, hnext⟩ := Option.ite_none_right_eq_some.mp hnext
      obtain ⟨manager, -, rfl⟩ := Option.map_eq_some_iff.mp hnext
      cases havailable : available client with
      | true => simp [asked, answered, Voting.sent, Voting.requestsTo, hclient, havailable,
          Function.comp_def]
      | false => simp [asked, answered, Voting.sent, Voting.requestsTo, hclient, havailable]
    | handleState handled approved =>
      obtain ⟨link, hhandle, rfl⟩ := Option.map_eq_some_iff.mp hnext
      unfold Voting.handleState at hhandle
      split at hhandle
      · rename_i request rest hrequests
        obtain rfl := Option.some.inj hhandle
        by_cases hsame : handled = client
        · subst hsame
          simp [asked, answered, Voting.update, hrequests]
        · exact answered_update (fun h ↦ absurd h hsame) rfl (if_neg hsame)
      · cases hhandle
    | handleMode handled approved =>
      obtain ⟨link, hhandle, rfl⟩ := Option.map_eq_some_iff.mp hnext
      unfold Voting.handleMode at hhandle
      split at hhandle
      · obtain rfl := Option.some.inj hhandle
        exact answered_update (fun _ ↦ rfl) rfl rfl
      · cases hhandle
    | handleStatus handled =>
      obtain ⟨link, hhandle, rfl⟩ := Option.map_eq_some_iff.mp hnext
      unfold Voting.handleStatus at hhandle
      split at hhandle
      · obtain rfl := Option.some.inj hhandle
        exact answered_update (fun _ ↦ rfl) rfl rfl
      · cases hhandle

/-- The states that were entered were announced, those that were announced were decided, and those
that were approved were published, in this order and each once, up to the one that is under way; a
node has answered the requests for the states at whose announcement it was available, in this order
and each once, up to those under way to it. -/
theorem states_accounted (hclient : client ∈ clients)
    (hrun : (lossy cycle clients).recorded.Reachable r) :
    .aborted :: r.produced (ofManager entered) =
        r.produced (ofManager announced) ++ r.current.manager.unannounced ∧
      r.produced (ofManager announced) =
        r.produced (ofManager decided) ++ r.current.manager.undecided ∧
      (r.produced (ofManager approvedState)).Sublist (r.produced (ofManager decided)) ∧
      r.produced (ofManager approvedState) =
        r.produced (ofManager publishedState) ++ r.current.manager.unpublished ∧
      (r.produced (asked client)).Sublist (r.produced (ofManager announced)) ∧
      r.produced (asked client) = r.produced (answered client) ++
        (r.current.link client).stateRequests.map (·.value) := by
  refine ⟨passedOn_ofManager (fun _ _ _ ↦ announced_step) hrun,
    passedOn_ofManager (fun _ _ _ ↦ decided_step) hrun, ?_,
    passedOn_ofManager (fun _ _ _ ↦ publishedState_step) hrun, ?_, ?_⟩
  · exact Recorded.produced_sublist (ofManager_sublist approvedState_sublist) r
  · exact Recorded.produced_sublist (asked_sublist client) r
  · have hinitial : ∀ s, (lossy cycle clients).initial s →
        (s.link client).stateRequests.map (·.value) = [] := by
      rintro s rfl
      rfl
    have hpassed := hrun.passedOn hinitial (fun s action t _ hnext ↦ answered_step hclient hnext)
    exact hpassed

end Runs

/-! ### A run -/

/-- ABORTED was agreed and published, CLEARING was announced and refused. -/
theorem states_accounted_servedFailure :
    ∃ r, (lossy .singleCycle [true, false]).recorded.runFrom ⟨.activated, []⟩
        (servedFailure.map .voting) = some r ∧
      r.produced (ofManager entered) = [.clearing] ∧
        (.aborted :: r.produced (ofManager entered) =
            r.produced (ofManager announced) ++ r.current.manager.unannounced ∧
          r.produced (ofManager announced) =
            r.produced (ofManager decided) ++ r.current.manager.undecided ∧
          (r.produced (ofManager approvedState)).Sublist (r.produced (ofManager decided)) ∧
          r.produced (ofManager approvedState) =
            r.produced (ofManager publishedState) ++ r.current.manager.unpublished ∧
          (r.produced (asked true)).Sublist (r.produced (ofManager announced)) ∧
          r.produced (asked true) = r.produced (answered true) ++
            (r.current.link true).stateRequests.map (·.value)) := by
  have hend : ((lossy .singleCycle [true, false]).recorded.runFrom ⟨.activated, []⟩
      (servedFailure.map .voting)).map (fun r ↦ r.produced (ofManager entered)) =
        some [.clearing] := rfl
  obtain ⟨r, hrun, hentered⟩ := Option.map_eq_some_iff.mp hend
  have hinitial : (lossy .singleCycle [true, false]).recorded.initial ⟨.activated, []⟩ :=
    ⟨rfl, rfl⟩
  exact ⟨r, hrun, hentered,
    states_accounted (by decide) (reachable_of_runFrom (.initial hinitial) _ hrun)⟩

end PackML
