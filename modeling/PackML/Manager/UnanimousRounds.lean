import PackML.Manager.FailedRounds

/-!
# Rounds that every node approves

In `network` all nodes are available and approve, and a round is over when every node has handled
its request. In `voting` availability and answers are inputs, and a round ends with what
`wait_all_futures` returns for the answers given. Every run of the first is a run of the second
(`network_voting`), by a simulation step for step.

`Unanimous` relates the states: the links agree up to the numbers of the rounds, and while a thread
waits, every node was called in the round that it waits for, and has its request under way or has
approved it.
-/

set_option autoImplicit false
set_option relaxedAutoImplicit false

namespace PackML

/-! ### The relation -/

/-- A client was sent the request of a round, which is under way or was approved. -/
def Asked {Value : Type} (round : ℕ) (requests : List (Request Value))
    (responses : List Response) : Prop :=
  (∃ request ∈ requests, request.round = round) ∨ ⟨round, true⟩ ∈ responses

/-- The same messages are under way to the same node. -/
structure NodeLink.Agrees (link : NodeLink) (voting : VotingLink) : Prop where
  node : voting.node = link.node
  stateRequests : voting.stateRequests.map (·.value) = link.stateRequests
  modeRequests : voting.modeRequests.map (·.value) = link.modeRequests
  statuses : voting.statuses = link.statuses

/-- A network in which every node approves, and the same network with its votes. -/
structure Unanimous {Client : Type} (clients : List Client) (s : Network Client)
    (u : Voting Client) : Prop where
  manager : u.manager = s.manager
  link : ∀ client, (s.link client).Agrees (u.link client)
  state : s.manager.qt = .waiting → u.stateBallot.called = clients ∧ ∀ client ∈ clients,
    Asked u.stateBallot.round (u.link client).stateRequests (u.link client).stateResponses
  mode : (∃ mode, s.manager.ros = .waiting mode) → u.modeBallot.called = clients ∧
    ∀ client ∈ clients,
      Asked u.modeBallot.round (u.link client).modeRequests (u.link client).modeResponses

section Asked

variable {Value : Type} {round : ℕ} {requests : List (Request Value)} {responses : List Response}

/-- When nothing is under way, the request was approved. -/
theorem Asked.approved (hasked : Asked round requests responses) (hnone : requests = []) :
    ⟨round, true⟩ ∈ responses := by
  refine hasked.resolve_left ?_
  rintro ⟨request, hrequest, -⟩
  rw [hnone] at hrequest
  cases hrequest

theorem Asked.append (hasked : Asked round requests responses) (more : List (Request Value)) :
    Asked round (requests ++ more) responses :=
  hasked.imp_left fun ⟨request, hrequest, hround⟩ ↦
    ⟨request, List.mem_append_left more hrequest, hround⟩

/-- The oldest request is approved. -/
theorem Asked.handle {request : Request Value} {rest : List (Request Value)}
    (hasked : Asked round (request :: rest) responses) :
    Asked round rest (responses ++ [⟨request.round, true⟩]) := by
  rcases hasked with ⟨other, hother, hround⟩ | hresponse
  · rcases List.mem_cons.mp hother with rfl | hlater
    · exact Or.inr (by simp [hround])
    · exact Or.inl ⟨other, hlater, hround⟩
  · exact Or.inr (List.mem_append_left _ hresponse)

end Asked

/-! ### The simulation -/

section Simulation

variable {Client : Type} {cycle : Cycle} {clients : List Client} {s t : Network Client}
  {u : Voting Client}

/-- A round in which every client was asked and nothing is under way may return true. -/
theorem mayReturn_of_asked [DecidableEq Client] {Value : Type} {ballot : Ballot Client}
    {requests : Client → List (Request Value)} {responses : Client → List Response}
    (hclients : clients ≠ []) (hcalled : ballot.called = clients)
    (hasked : ∀ client ∈ clients, Asked ballot.round (requests client) (responses client))
    (hnone : ∀ client ∈ clients, requests client = []) :
    ballot.mayReturn clients responses true = true := by
  have happroved : ∀ client ∈ clients, ⟨ballot.round, true⟩ ∈ responses client :=
    fun client hclient ↦ (hasked client hclient).approved (hnone client hclient)
  obtain ⟨first, rest, rfl⟩ := List.exists_cons_of_ne_nil hclients
  simp only [Ballot.mayReturn, Bool.and_eq_true, List.all_eq_true, List.any_eq_true,
    List.contains_iff_mem, decide_eq_true_eq]
  refine ⟨fun client hclient ↦ ⟨by rwa [hcalled], ⟨_, happroved client hclient, rfl⟩⟩, first,
    List.mem_cons_self, happroved first List.mem_cons_self⟩

theorem requestsTo_true {Value : Type} (round : ℕ) (values : List Value) :
    (Voting.requestsTo true round values).map (·.value) = values := by
  rw [Voting.requestsTo, if_pos rfl, List.map_map]
  exact List.map_id values

/-- Only the call of the nodes for a state leads to the wait for them. -/
theorem waiting_of_next {manager manager' : SMNode} {action : NodeAction}
    (hnext : (smNode cycle).next manager action = some manager')
    (hwaiting : manager'.qt = .waiting) :
    action = .callState ∨ manager.qt = .waiting := by
  cases action with
  | callState => exact Or.inl rfl
  | machine step =>
    obtain ⟨machine, -, ⟨-, rfl⟩ | ⟨-, -, rfl⟩⟩ := machineStep_node hnext
    · cases hwaiting
    · exact Or.inr hwaiting
  | stateRound approved =>
    obtain ⟨-, state, -, ⟨-, rfl⟩ | ⟨-, rfl⟩⟩ := stateRound_spec hnext
    · cases hwaiting
    · cases hwaiting
  | fillState =>
    obtain ⟨-, rfl⟩ := fillState_spec hnext
    cases hwaiting
  | publishState =>
    obtain ⟨message, -, rfl⟩ := publishState_spec hnext
    cases hwaiting
  | modeRequest | install | recordMode | fillMode | publishMode | callMode | modeRound
  | fillModeAgain | publishModeAgain =>
    exact Or.inr ((qt_kept rfl hnext).1.symm.trans hwaiting)

/-- Only the call of the nodes for a mode leads to the wait for them. -/
theorem waiting_mode_of_next {manager manager' : SMNode} {action : NodeAction} {mode : ModeType}
    (hnext : (smNode cycle).next manager action = some manager')
    (hwaiting : manager'.ros = .waiting mode) :
    action = .callMode ∨ manager.ros = .waiting mode := by
  cases action with
  | callMode => exact Or.inl rfl
  | machine | callState | stateRound | fillState | publishState =>
    exact Or.inr ((ros_kept rfl hnext).symm.trans hwaiting)
  | modeRequest requested =>
    obtain ⟨-, ⟨machine, -, rfl⟩ | ⟨response, -, rfl⟩⟩ := modeRequest_spec hnext
    · cases hwaiting
    · cases hwaiting
  | install =>
    obtain ⟨-, installed, machine, -, -, rfl⟩ := install_spec hnext
    cases hwaiting
  | recordMode =>
    obtain ⟨recorded, -, rfl⟩ := recordMode_spec hnext
    cases hwaiting
  | fillMode =>
    obtain ⟨filled, -, rfl⟩ := fillMode_spec hnext
    cases hwaiting
  | publishMode =>
    obtain ⟨published, message, -, rfl⟩ := publishMode_spec hnext
    cases hwaiting
  | modeRound approved =>
    obtain ⟨requested, -, ⟨-, rfl⟩ | ⟨-, response, -, rfl⟩⟩ := modeRound_spec hnext
    · cases hwaiting
    · cases hwaiting
  | fillModeAgain =>
    obtain ⟨filled, -, rfl⟩ := fillModeAgain_spec hnext
    cases hwaiting
  | publishModeAgain =>
    obtain ⟨published, message, -, response, -, rfl⟩ := publishModeAgain_spec hnext
    cases hwaiting

/-- A node keeps the requests that it was asked, or approves them. -/
structure VotingLink.KeepsAsked (before after : VotingLink) : Prop where
  state : ∀ {round}, Asked round before.stateRequests before.stateResponses →
    Asked round after.stateRequests after.stateResponses
  mode : ∀ {round}, Asked round before.modeRequests before.modeResponses →
    Asked round after.modeRequests after.modeResponses

theorem agrees_handleState {client : Client} (hagrees : (s.link client).Agrees (u.link client))
    {link : NodeLink} (hhandle : s.handleState client = some link) :
    ∃ voting, u.handleState client true = some voting ∧ link.Agrees voting ∧
      (u.link client).KeepsAsked voting := by
  obtain ⟨hnode, hstates, hmodes, hstatuses⟩ := hagrees
  unfold Network.handleState at hhandle
  split at hhandle
  · rename_i state rest hrequests
    obtain rfl := Option.some.inj hhandle
    rw [hrequests] at hstates
    obtain ⟨request, later, hvoting, rfl, hlater⟩ := List.map_eq_cons_iff.mp hstates
    refine ⟨_, u.handleState_eq hvoting true, ⟨?_, hlater, hmodes, hstatuses⟩, ?_, id⟩
    · rw [hnode]
    · intro round hasked
      rw [hvoting] at hasked
      exact hasked.handle
  · cases hhandle

theorem agrees_handleMode {client : Client} (hagrees : (s.link client).Agrees (u.link client))
    {link : NodeLink} (hhandle : s.handleMode client = some link) :
    ∃ voting, u.handleMode client true = some voting ∧ link.Agrees voting ∧
      (u.link client).KeepsAsked voting := by
  obtain ⟨hnode, hstates, hmodes, hstatuses⟩ := hagrees
  unfold Network.handleMode at hhandle
  split at hhandle
  · rename_i mode rest hrequests
    obtain rfl := Option.some.inj hhandle
    rw [hrequests] at hmodes
    obtain ⟨request, later, hvoting, rfl, hlater⟩ := List.map_eq_cons_iff.mp hmodes
    refine ⟨_, u.handleMode_eq hvoting true, ⟨?_, hstates, hlater, hstatuses⟩, id, ?_⟩
    · rw [hnode]
    · intro round hasked
      rw [hvoting] at hasked
      exact hasked.handle
  · cases hhandle

theorem agrees_handleStatus {client : Client} (hagrees : (s.link client).Agrees (u.link client))
    {link : NodeLink} (hhandle : s.handleStatus client = some link) :
    ∃ voting, u.handleStatus client = some voting ∧ link.Agrees voting ∧
      (u.link client).KeepsAsked voting := by
  obtain ⟨hnode, hstates, hmodes, hstatuses⟩ := hagrees
  unfold Network.handleStatus at hhandle
  split at hhandle
  · rename_i status rest hreceived
    obtain rfl := Option.some.inj hhandle
    rw [hreceived] at hstatuses
    refine ⟨_, u.handleStatus_eq hstatuses, ⟨?_, hstates, hmodes, rfl⟩, id, id⟩
    rw [hnode]
  · cases hhandle

variable [DecidableEq Client]

/-- What `network` lets end a round, `voting` does. -/
theorem mayEnd_of_endsRound (hs : Unanimous clients s u) {action : NodeAction} {manager : SMNode}
    (hround : s.endsRound clients action = true)
    (hnext : (smNode cycle).next s.manager action = some manager) :
    u.mayEnd clients action = true := by
  have hclients : (∃ approved, action = .stateRound approved ∨ action = .modeRound approved) →
      clients ≠ [] := by
    rintro ⟨approved, rfl | rfl⟩ rfl
    · simp [Network.endsRound] at hround
    · simp [Network.endsRound] at hround
  cases action with
  | stateRound approved =>
    obtain ⟨rfl, hhandled⟩ := endsRound_state hround
    obtain ⟨hcalled, hasked⟩ := hs.state (stateRound_spec hnext).1
    refine mayReturn_of_asked (hclients ⟨true, Or.inl rfl⟩) hcalled hasked fun client hclient ↦ ?_
    have hvalues := (hs.link client).stateRequests
    rw [hhandled client hclient] at hvalues
    exact List.map_eq_nil_iff.mp hvalues
  | modeRound approved =>
    obtain ⟨rfl, hhandled⟩ := endsRound_mode hround
    obtain ⟨mode, hros, -⟩ := modeRound_spec hnext
    obtain ⟨hcalled, hasked⟩ := hs.mode ⟨mode, hros⟩
    refine mayReturn_of_asked (hclients ⟨true, Or.inr rfl⟩) hcalled hasked fun client hclient ↦ ?_
    have hvalues := (hs.link client).modeRequests
    rw [hhandled client hclient] at hvalues
    exact List.map_eq_nil_iff.mp hvalues
  | _ => rfl

/-- A step of the manager sends the same messages. -/
theorem agrees_sent (hs : Unanimous clients s u) (action : NodeAction) (client : Client) :
    (s.sent clients action client).Agrees (u.sent clients (fun _ ↦ true) action client) := by
  obtain ⟨hnode, hstates, hmodes, hstatuses⟩ := hs.link client
  unfold Network.sent Voting.sent
  rw [hs.manager]
  split
  · refine ⟨hnode, ?_, ?_, ?_⟩
    · show (_ ++ _ : List (Request State)).map _ = _
      rw [List.map_append, hstates, requestsTo_true]
    · show (_ ++ _ : List (Request ModeType)).map _ = _
      rw [List.map_append, hmodes, requestsTo_true]
    · show (u.link client).statuses ++ _ = _
      rw [hstatuses]
  · exact ⟨hnode, hstates, hmodes, hstatuses⟩

/-- The network with votes after a step of the manager, when all nodes are available. -/
def Voting.afterManager (u : Voting Client) (clients : List Client) (action : NodeAction)
    (manager : SMNode) : Voting Client where
  manager := manager
  link := u.sent clients (fun _ ↦ true) action
  stateBallot := u.stateBallotAfter clients (fun _ ↦ true) action
  modeBallot := u.modeBallotAfter clients (fun _ ↦ true) action
  failed := u.failedAfter action

theorem asked_state (hs : Unanimous clients s u) {action : NodeAction} {manager : SMNode}
    (hnext : (smNode cycle).next s.manager action = some manager)
    (hwaiting : manager.qt = .waiting) :
    (u.stateBallotAfter clients (fun _ ↦ true) action).called = clients ∧ ∀ client ∈ clients,
      Asked (u.stateBallotAfter clients (fun _ ↦ true) action).round
        (u.sent clients (fun _ ↦ true) action client).stateRequests
        (u.sent clients (fun _ ↦ true) action client).stateResponses := by
  by_cases hcall : action = .callState
  · subst hcall
    obtain ⟨⟨state, hphase⟩, -, -⟩ := callState_spec hnext
    refine ⟨List.filter_eq_self.mpr fun _ _ ↦ rfl, fun client hclient ↦ Or.inl ?_⟩
    refine ⟨⟨u.stateBallot.round + 1, state⟩, ?_, rfl⟩
    rw [show u.sent clients (fun _ ↦ true) .callState client = _ from if_pos hclient, hs.manager]
    refine List.mem_append_right _ ?_
    simp [Voting.requestsTo, SMNode.stateRequest, hphase]
  · obtain ⟨hcalled, hasked⟩ := hs.state ((waiting_of_next hnext hwaiting).resolve_left hcall)
    have hballot : u.stateBallotAfter clients (fun _ ↦ true) action = u.stateBallot := by
      unfold Voting.stateBallotAfter
      split
      · exact absurd rfl hcall
      · rfl
    rw [hballot]
    refine ⟨hcalled, fun client hclient ↦ ?_⟩
    rw [show u.sent clients (fun _ ↦ true) action client = _ from if_pos hclient]
    exact (hasked client hclient).append _

theorem asked_mode (hs : Unanimous clients s u) {action : NodeAction} {manager : SMNode}
    {mode : ModeType} (hnext : (smNode cycle).next s.manager action = some manager)
    (hwaiting : manager.ros = .waiting mode) :
    (u.modeBallotAfter clients (fun _ ↦ true) action).called = clients ∧ ∀ client ∈ clients,
      Asked (u.modeBallotAfter clients (fun _ ↦ true) action).round
        (u.sent clients (fun _ ↦ true) action client).modeRequests
        (u.sent clients (fun _ ↦ true) action client).modeResponses := by
  by_cases hcall : action = .callMode
  · subst hcall
    obtain ⟨requested, hros, -⟩ := callMode_spec hnext
    refine ⟨List.filter_eq_self.mpr fun _ _ ↦ rfl, fun client hclient ↦ Or.inl ?_⟩
    refine ⟨⟨u.modeBallot.round + 1, requested⟩, ?_, rfl⟩
    rw [show u.sent clients (fun _ ↦ true) .callMode client = _ from if_pos hclient, hs.manager]
    refine List.mem_append_right _ ?_
    simp [Voting.requestsTo, SMNode.modeRequestSent, hros]
  · obtain ⟨hcalled, hasked⟩ :=
      hs.mode ⟨mode, (waiting_mode_of_next hnext hwaiting).resolve_left hcall⟩
    have hballot : u.modeBallotAfter clients (fun _ ↦ true) action = u.modeBallot := by
      unfold Voting.modeBallotAfter
      split
      · exact absurd rfl hcall
      · rfl
    rw [hballot]
    refine ⟨hcalled, fun client hclient ↦ ?_⟩
    rw [show u.sent clients (fun _ ↦ true) action client = _ from if_pos hclient]
    exact (hasked client hclient).append _

theorem unanimous_manager (hs : Unanimous clients s u) {action : NodeAction} {manager : SMNode}
    (hnext : (smNode cycle).next s.manager action = some manager) :
    Unanimous clients ⟨manager, s.sent clients action⟩ (u.afterManager clients action manager) :=
  ⟨rfl, agrees_sent hs action, fun hwaiting ↦ asked_state hs hnext hwaiting,
    fun ⟨_, hwaiting⟩ ↦ asked_mode hs hnext hwaiting⟩

/-- A node handles the same message in both networks. -/
theorem unanimous_update (hs : Unanimous clients s u) {handled : Client} {link : NodeLink}
    {voting : VotingLink} (hlink : link.Agrees voting)
    (hkeeps : (u.link handled).KeepsAsked voting) :
    Unanimous clients ⟨s.manager, Function.update s.link handled link⟩
      (u.update handled voting) := by
  refine ⟨hs.manager, fun client ↦ ?_, fun hwaiting ↦ ?_, fun hwaiting ↦ ?_⟩
  · show (Function.update s.link handled link client).Agrees
      (Function.update u.link handled voting client)
    by_cases hsame : client = handled
    · subst hsame
      rw [Function.update_self, Function.update_self]
      exact hlink
    · rw [Function.update_of_ne hsame, Function.update_of_ne hsame]
      exact hs.link client
  · obtain ⟨hcalled, hasked⟩ := hs.state hwaiting
    refine ⟨hcalled, fun client hclient ↦ ?_⟩
    exact update_link (fun link ↦ Asked u.stateBallot.round link.stateRequests link.stateResponses)
      (hasked client hclient) hkeeps.state
  · obtain ⟨hcalled, hasked⟩ := hs.mode hwaiting
    refine ⟨hcalled, fun client hclient ↦ ?_⟩
    exact update_link (fun link ↦ Asked u.modeBallot.round link.modeRequests link.modeResponses)
      (hasked client hclient) hkeeps.mode

/-- Every step of `network` is one of `voting`. -/
theorem unanimous_step (hs : Unanimous clients s u) {action : NetworkAction Client}
    (hnext : (network cycle clients).next s action = some t) :
    ∃ action' v, (voting cycle clients).next u action' = some v ∧ Unanimous clients t v := by
  cases action with
  | manager action =>
    obtain ⟨hround, hnext⟩ := Option.ite_none_right_eq_some.mp hnext
    obtain ⟨manager, hmanager, rfl⟩ := Option.map_eq_some_iff.mp hnext
    refine ⟨.manager action fun _ ↦ true, u.afterManager clients action manager, ?_,
      unanimous_manager hs hmanager⟩
    show (if u.mayEnd clients action then _ else none) = _
    rw [if_pos (mayEnd_of_endsRound hs hround hmanager), hs.manager, hmanager]
    rfl
  | handleState handled =>
    obtain ⟨link, hlink, rfl⟩ := Option.map_eq_some_iff.mp hnext
    obtain ⟨voting, hvoting, hagrees, hkeeps⟩ := agrees_handleState (hs.link handled) hlink
    refine ⟨.handleState handled true, u.update handled voting, ?_,
      unanimous_update hs hagrees hkeeps⟩
    show (u.handleState handled true).map (u.update handled) = _
    rw [hvoting]
    rfl
  | handleMode handled =>
    obtain ⟨link, hlink, rfl⟩ := Option.map_eq_some_iff.mp hnext
    obtain ⟨voting, hvoting, hagrees, hkeeps⟩ := agrees_handleMode (hs.link handled) hlink
    refine ⟨.handleMode handled true, u.update handled voting, ?_,
      unanimous_update hs hagrees hkeeps⟩
    show (u.handleMode handled true).map (u.update handled) = _
    rw [hvoting]
    rfl
  | handleStatus handled =>
    obtain ⟨link, hlink, rfl⟩ := Option.map_eq_some_iff.mp hnext
    obtain ⟨voting, hvoting, hagrees, hkeeps⟩ := agrees_handleStatus (hs.link handled) hlink
    refine ⟨.handleStatus handled, u.update handled voting, ?_,
      unanimous_update hs hagrees hkeeps⟩
    show (u.handleStatus handled).map (u.update handled) = _
    rw [hvoting]
    rfl

/-- Every reachable network in which all nodes approve is a reachable network with votes. -/
theorem network_voting (hrun : (network cycle clients).Reachable s) :
    ∃ u, (voting cycle clients).Reachable u ∧ Unanimous clients s u := by
  refine hrun.simulated (Unanimous clients) ?_ fun s action t u hs hnext ↦ unanimous_step hs hnext
  rintro s rfl
  refine ⟨.activated, rfl, rfl, fun client ↦ ⟨rfl, rfl, rfl, rfl⟩, fun hwaiting ↦ ?_,
    fun ⟨mode, hwaiting⟩ ↦ ?_⟩
  · cases hwaiting
  · cases hwaiting

end Simulation

end PackML
