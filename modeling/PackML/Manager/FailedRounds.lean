import PackML.Manager.Agreement
import PackML.Manager.ClientRounds

/-!
# Rounds that fail

A round of requests is a vote: the manager sends the request to every client whose service is
available, each node approves or refuses it on its own, and the manager publishes the state only if
`wait_all_futures` returns true. Which services are available and what a node answers are inputs,
and the order in which requests, responses and Status messages are handled is free.

A node that approves waits for the state, and only a Status with a state that it does not have ends
the wait. No message tells it that the round has failed, so a node that has approved may wait for
ever (`approving_node_left_waiting`). Along the runs in which such a Status is on the way to every
node that has approved when a round fails, or approves after it has, none is left waiting
(`none_left_waiting`). Where no such Status is on the way, the delivery of everything that is leaves
the node waiting (`left_waiting_of_not_served`).
-/

set_option autoImplicit false
set_option relaxedAutoImplicit false

namespace PackML

/-! ### Votes -/

/-- The request of a round. -/
structure Request (Value : Type) where
  round : ℕ
  value : Value
  deriving DecidableEq, Repr

/-- A node, what it has not handled, oldest first, and the responses that its services have sent. -/
structure VotingLink where
  node : PackmlNodeInterface
  stateRequests : List (Request State)
  modeRequests : List (Request ModeType)
  statuses : List Status
  stateResponses : List Response
  modeResponses : List Response

namespace VotingLink

variable (link : VotingLink)

/-- Nothing is under way to the node. -/
def Delivered : Prop :=
  link.stateRequests = [] ∧ link.modeRequests = [] ∧ link.statuses = []

/-- The round of the request for a state that the node has approved last. -/
def approvedRound : Option ℕ :=
  (link.stateResponses.filter (·.success)).getLast?.map (·.round)

/-- The states in the Status messages under way. -/
def comingStates : List State := link.statuses.map (·.state)

end VotingLink

/-- The number of a round, and the clients that were sent its request. -/
structure Ballot (Client : Type) where
  round : ℕ
  called : List Client
  deriving Repr

/-- What `wait_all_futures` may return: false when a client was not called or has refused, or there
is none; true when every client was called and has answered, and some have approved. -/
def Ballot.mayReturn {Client : Type} [DecidableEq Client] (clients : List Client)
    (ballot : Ballot Client) (responses : Client → List Response) : Bool → Bool
  | true =>
    (clients.all fun client ↦ ballot.called.contains client &&
        (responses client).any fun response ↦ response.round = ballot.round) &&
      clients.any fun client ↦ (responses client).contains ⟨ballot.round, true⟩
  | false =>
    clients.isEmpty || clients.any fun client ↦ !ballot.called.contains client ||
      (responses client).contains ⟨ballot.round, false⟩

/-- A manager, its nodes, the rounds that it has begun last for a state and for a mode, and the
rounds for a state that have ended unsuccessfully. -/
structure Voting (Client : Type) where
  manager : SMNode
  link : Client → VotingLink
  stateBallot : Ballot Client
  modeBallot : Ballot Client
  failed : List ℕ

/-- A step of the manager, with the clients that are available when it calls them, or the handling
of a message by a node, with its answer to a request. -/
inductive VotingAction (Client : Type)
  | manager (action : NodeAction) (available : Client → Bool)
  | handleState (client : Client) (approved : Bool)
  | handleMode (client : Client) (approved : Bool)
  | handleStatus (client : Client)

namespace Voting

variable {Client : Type} (clients : List Client) (s : Voting Client)

/-- The round for a state after a step of the manager. -/
def stateBallotAfter (available : Client → Bool) : NodeAction → Ballot Client
  | .callState => ⟨s.stateBallot.round + 1, clients.filter available⟩
  | _ => s.stateBallot

/-- The round for a mode after a step of the manager. -/
def modeBallotAfter (available : Client → Bool) : NodeAction → Ballot Client
  | .callMode => ⟨s.modeBallot.round + 1, clients.filter available⟩
  | _ => s.modeBallot

/-- The failed rounds after a step of the manager. -/
def failedAfter : NodeAction → List ℕ
  | .stateRound false => s.failed ++ [s.stateBallot.round]
  | _ => s.failed

/-- The requests to an available client. -/
def requestsTo {Value : Type} (available : Bool) (round : ℕ) (values : List Value) :
    List (Request Value) :=
  if available then values.map fun value ↦ ⟨round, value⟩ else []

/-- A link after a step of the manager. -/
def sent [DecidableEq Client] (available : Client → Bool) (action : NodeAction) (client : Client) :
    VotingLink :=
  let link := s.link client
  if client ∈ clients then
    { link with
      stateRequests := link.stateRequests ++
        requestsTo (available client) (s.stateBallot.round + 1) (s.manager.stateRequest action)
      modeRequests := link.modeRequests ++
        requestsTo (available client) (s.modeBallot.round + 1) (s.manager.modeRequestSent action)
      statuses := link.statuses ++ s.manager.statusSent action }
  else link

/-- A round ends with a value that `wait_all_futures` may return. -/
def mayEnd [DecidableEq Client] : NodeAction → Bool
  | .stateRound approved =>
    s.stateBallot.mayReturn clients (fun client ↦ (s.link client).stateResponses) approved
  | .modeRound approved =>
    s.modeBallot.mayReturn clients (fun client ↦ (s.link client).modeResponses) approved
  | _ => true

/-- A node answers the oldest request for a state. -/
def handleState (client : Client) (approved : Bool) : Option VotingLink :=
  match (s.link client).stateRequests with
  | request :: rest =>
    let answered := (s.link client).node.onStateTransReq request.value approved
    some { s.link client with
      node := answered.1
      stateRequests := rest
      stateResponses := (s.link client).stateResponses ++ [⟨request.round, answered.2.success⟩] }
  | [] => none

/-- A node answers the oldest request for a mode. -/
def handleMode (client : Client) (approved : Bool) : Option VotingLink :=
  match (s.link client).modeRequests with
  | request :: rest =>
    let answered := (s.link client).node.onModeTransReq request.value approved
    some { s.link client with
      node := answered.1
      modeRequests := rest
      modeResponses := (s.link client).modeResponses ++ [⟨request.round, answered.2.success⟩] }
  | [] => none

/-- A node receives the oldest Status. -/
def handleStatus (client : Client) : Option VotingLink :=
  match (s.link client).statuses with
  | status :: rest =>
    some { s.link client with
      node := ((s.link client).node.onStatusChanged status).1
      statuses := rest }
  | [] => none

section Handling

variable {client : Client}

theorem handleState_eq {request : Request State} {rest : List (Request State)}
    (hrequests : (s.link client).stateRequests = request :: rest) (approved : Bool) :
    s.handleState client approved = some { s.link client with
      node := ((s.link client).node.onStateTransReq request.value approved).1
      stateRequests := rest
      stateResponses := (s.link client).stateResponses ++
        [⟨request.round,
          ((s.link client).node.onStateTransReq request.value approved).2.success⟩] } := by
  rw [handleState, hrequests]

theorem handleMode_eq {request : Request ModeType} {rest : List (Request ModeType)}
    (hrequests : (s.link client).modeRequests = request :: rest) (approved : Bool) :
    s.handleMode client approved = some { s.link client with
      node := ((s.link client).node.onModeTransReq request.value approved).1
      modeRequests := rest
      modeResponses := (s.link client).modeResponses ++
        [⟨request.round,
          ((s.link client).node.onModeTransReq request.value approved).2.success⟩] } := by
  rw [handleMode, hrequests]

theorem handleStatus_eq {status : Status} {rest : List Status}
    (hstatuses : (s.link client).statuses = status :: rest) :
    s.handleStatus client = some { s.link client with
      node := ((s.link client).node.onStatusChanged status).1
      statuses := rest } := by
  rw [handleStatus, hstatuses]

end Handling

/-- A link is replaced. -/
def update [DecidableEq Client] (client : Client) (link : VotingLink) : Voting Client :=
  { s with link := Function.update s.link client link }

/-- A network after its start: the nodes are initialised and wait for nothing, and the first
publication of the manager is under way. -/
def activated : Voting Client where
  manager := .activated
  link _ :=
    { node :=
        PackmlNodeInterface.init ⟨.undefined, .undefined, .undefined, .undefined, false, false⟩
      stateRequests := []
      modeRequests := []
      statuses := [⟨.undefined, .manual⟩]
      stateResponses := []
      modeResponses := [] }
  stateBallot := ⟨0, []⟩
  modeBallot := ⟨0, []⟩
  failed := []

/-- No node waits for the state of a round that has failed, once everything is delivered. -/
def NoneLeftWaiting : Prop :=
  (∀ client ∈ clients, (s.link client).Delivered) →
    ∀ client ∈ clients, ∀ round ∈ (s.link client).approvedRound, round ∈ s.failed →
      (s.link client).node.waitingForNewState = false

/-- When a round fails, every node that has approved its request and still waits has a Status on the
way with a state that it does not have; and a node approves a request whose round has failed only
while such a Status is on the way. -/
def FailsServed : VotingAction Client → Prop
  | .manager (.stateRound false) _ =>
    ∀ client ∈ clients, (s.link client).approvedRound = some s.stateBallot.round →
      (s.link client).node.waitingForNewState = true →
        ∃ state ∈ (s.link client).comingStates, state ≠ (s.link client).node.currentState
  | .handleState client true =>
    ∀ request ∈ (s.link client).stateRequests.head?, request.round ∈ s.failed →
      ∃ state ∈ (s.link client).comingStates, state ≠ (s.link client).node.currentState
  | _ => True

instance : (action : VotingAction Client) → Decidable (s.FailsServed clients action)
  | .manager (.stateRound false) _ =>
    inferInstanceAs (Decidable (∀ client ∈ clients, _ → _ → ∃ state ∈ (_ : List State), _))
  | .handleState _ true =>
    inferInstanceAs (Decidable (∀ request ∈ (_ : Option _), _ → ∃ state ∈ (_ : List State), _))
  | .manager (.machine _) _ | .manager .callState _ | .manager (.stateRound true) _
  | .manager .fillState _ | .manager .publishState _ | .manager (.modeRequest _) _
  | .manager .install _ | .manager .recordMode _ | .manager .fillMode _ | .manager .publishMode _
  | .manager .callMode _ | .manager (.modeRound _) _ | .manager .fillModeAgain _
  | .manager .publishModeAgain _ | .handleState _ false | .handleMode _ _ | .handleStatus _ =>
    inferInstanceAs (Decidable True)

end Voting

/-- The runs of a manager whose client map holds the nodes of `clients`. -/
def voting {Client : Type} [DecidableEq Client] (cycle : Cycle) (clients : List Client) :
    TransitionSystem (Voting Client) (VotingAction Client) where
  initial s := s = .activated
  next s
    | .manager action available =>
      if s.mayEnd clients action then
        ((smNode cycle).next s.manager action).map fun manager ↦
          { manager := manager
            link := s.sent clients available action
            stateBallot := s.stateBallotAfter clients available action
            modeBallot := s.modeBallotAfter clients available action
            failed := s.failedAfter action }
      else none
    | .handleState client approved => (s.handleState client approved).map (s.update client)
    | .handleMode client approved => (s.handleMode client approved).map (s.update client)
    | .handleStatus client => (s.handleStatus client).map (s.update client)

/-! ### Rounds whose approvals are served -/

section Served

variable {Client : Type} {cycle : Cycle} {clients : List Client} {s t : Voting Client}

/-- The wait of a node that has approved a failed round last is served by the Status messages on the
way. -/
def VotingLink.FailuresServed (link : VotingLink) (failed : List ℕ) : Prop :=
  ∀ round ∈ link.approvedRound, round ∈ failed → link.node.stateFollower.Served link.comingStates

/-- A response adds its round to those approved, or leaves the round approved last as it is. -/
theorem approvedRound_append (responses : List Response) (response : Response) :
    ((responses ++ [response]).filter (·.success)).getLast?.map (·.round) =
      if response.success then some response.round
      else (responses.filter (·.success)).getLast?.map (·.round) := by
  rw [List.filter_append]
  cases hsuccess : response.success with
  | true => simp [hsuccess]
  | false => simp [hsuccess]

/-- When a round fails, the nodes that have approved it are served. -/
theorem failuresServed_failed {client : Client} (hclient : client ∈ clients)
    (hlink : (s.link client).FailuresServed s.failed) {available : Client → Bool}
    {action : NodeAction} (hserved : s.FailsServed clients (.manager action available)) :
    (s.link client).FailuresServed (s.failedAfter action) := by
  intro round hround hfailed
  by_cases hends : action = .stateRound false
  · subst hends
    rcases List.mem_append.mp hfailed with hbefore | hnow
    · exact hlink round hround hbefore
    · rw [List.mem_singleton] at hnow
      subst hnow
      exact hserved client hclient hround
  · have hsame : s.failedAfter action = s.failed := by
      unfold Voting.failedAfter
      split
      · exact absurd rfl hends
      · rfl
    exact hlink round hround (hsame ▸ hfailed)

theorem failuresServed_handleState {client : Client} {approved : Bool} {link : VotingLink}
    (hlink : (s.link client).FailuresServed s.failed)
    (hserved : s.FailsServed clients (.handleState client approved))
    (hhandle : s.handleState client approved = some link) : link.FailuresServed s.failed := by
  unfold Voting.handleState at hhandle
  split at hhandle
  · rename_i request rest hrequests
    obtain rfl := Option.some.inj hhandle
    intro round hround hfailed
    rw [VotingLink.approvedRound, approvedRound_append,
      PackmlNodeInterface.onStateTransReq_success] at hround
    cases approved with
    | true =>
      obtain rfl : request.round = round := by simpa using hround
      intro _
      exact hserved request (by simp [hrequests]) hfailed
    | false => exact hlink round hround hfailed
  · cases hhandle

theorem failuresServed_handleMode {client : Client} {approved : Bool} {link : VotingLink}
    (hlink : (s.link client).FailuresServed s.failed)
    (hhandle : s.handleMode client approved = some link) : link.FailuresServed s.failed := by
  unfold Voting.handleMode at hhandle
  split at hhandle
  · obtain rfl := Option.some.inj hhandle
    intro round hround hfailed
    show (PackmlNodeInterface.stateFollower _).Served _
    rw [PackmlNodeInterface.onModeTransReq_stateFollower]
    exact hlink round hround hfailed
  · cases hhandle

theorem failuresServed_handleStatus {client : Client} {link : VotingLink}
    (hlink : (s.link client).FailuresServed s.failed)
    (hhandle : s.handleStatus client = some link) : link.FailuresServed s.failed := by
  unfold Voting.handleStatus at hhandle
  split at hhandle
  · rename_i status rest hstatuses
    obtain rfl := Option.some.inj hhandle
    intro round hround hfailed
    have hbefore := hlink round hround hfailed
    rw [VotingLink.comingStates, hstatuses] at hbefore
    show (PackmlNodeInterface.stateFollower _).Served _
    rw [PackmlNodeInterface.onStatusChanged_stateFollower]
    exact hbefore.receive
  · cases hhandle

variable [DecidableEq Client]

/-- A link to which a step of the manager sends more. -/
theorem failuresServed_sent {client : Client} {failed : List ℕ}
    (hlink : (s.link client).FailuresServed failed) (available : Client → Bool)
    (action : NodeAction) : (s.sent clients available action client).FailuresServed failed := by
  unfold Voting.sent
  split
  · intro round hround hfailed
    refine (hlink round hround hfailed).mono fun state hstate ↦ ?_
    show state ∈ (_ ++ _ : List Status).map _
    rw [List.map_append]
    exact List.mem_append_left _ hstate
  · exact hlink

/-- A step of one node leaves the links of the others as they are. -/
theorem update_link (P : VotingLink → Prop) {client handled : Client} {link : VotingLink}
    (hs : P (s.link client)) (hlink : P (s.link handled) → P link) :
    P ((s.update handled link).link client) :=
  update_property P hs hlink

theorem failuresServed_step (hs : ∀ client ∈ clients, (s.link client).FailuresServed s.failed)
    {action : VotingAction Client} (hserved : s.FailsServed clients action)
    (hnext : (voting cycle clients).next s action = some t) :
    ∀ client ∈ clients, (t.link client).FailuresServed t.failed := by
  intro client hclient
  cases action with
  | manager action available =>
    obtain ⟨-, hnext⟩ := Option.ite_none_right_eq_some.mp hnext
    obtain ⟨manager, -, rfl⟩ := Option.map_eq_some_iff.mp hnext
    exact failuresServed_sent (failuresServed_failed hclient (hs client hclient) hserved) available
      action
  | handleState handled approved =>
    obtain ⟨link, hlink, rfl⟩ := Option.map_eq_some_iff.mp hnext
    exact update_link (·.FailuresServed s.failed) (hs client hclient) fun hbefore ↦
      failuresServed_handleState hbefore hserved hlink
  | handleMode handled approved =>
    obtain ⟨link, hlink, rfl⟩ := Option.map_eq_some_iff.mp hnext
    exact update_link (·.FailuresServed s.failed) (hs client hclient) fun hbefore ↦
      failuresServed_handleMode hbefore hlink
  | handleStatus handled =>
    obtain ⟨link, hlink, rfl⟩ := Option.map_eq_some_iff.mp hnext
    exact update_link (·.FailuresServed s.failed) (hs client hclient) fun hbefore ↦
      failuresServed_handleStatus hbefore hlink

/-- No node is left waiting for the state of a round that has failed, along the runs in which a
Status with another state is on the way to every node that has approved such a round. -/
theorem none_left_waiting
    (hrun : (voting cycle clients).ReachableBy (Voting.FailsServed clients) s) :
    s.NoneLeftWaiting clients := by
  have hserved : ∀ client ∈ clients, (s.link client).FailuresServed s.failed := by
    refine hrun.invariant ?_ ?_
    · rintro s rfl client -
      intro round hround
      cases hround
    · intro s action t hs hallowed hnext
      exact failuresServed_step hs hallowed hnext
  intro hdelivered client hclient round hround hfailed
  obtain ⟨-, -, hstatuses⟩ := hdelivered client hclient
  have hlink := hserved client hclient round hround hfailed
  rw [VotingLink.comingStates, hstatuses] at hlink
  exact hlink.waiting_eq_false

end Served

/-! ### Nodes that are left waiting -/

/-- Whether a step delivers a message that is under way; requests are refused. -/
def VotingAction.delivers {Client : Type} : VotingAction Client → Prop
  | .handleState _ approved | .handleMode _ approved => approved = false
  | .handleStatus _ => True
  | .manager _ _ => False

/-- A node waits for the state of a failed round, and no Status with a state that it does not have
is on the way. -/
structure VotingLink.Stuck (link : VotingLink) (failed : List ℕ) : Prop where
  failed : ∃ round ∈ link.approvedRound, round ∈ failed
  waiting : link.node.waitingForNewState = true
  coming : ∀ state ∈ link.comingStates, state = link.node.currentState

section Stuck

variable {Client : Type} {cycle : Cycle} {clients : List Client} {s t : Voting Client}

/-- The number of messages under way to a node. -/
def VotingLink.underWay (link : VotingLink) : ℕ :=
  link.stateRequests.length + link.modeRequests.length + link.statuses.length

/-- What the delivery of a message leaves of a link. -/
structure VotingLink.Delivery (before after : VotingLink) : Prop where
  fewer : after.underWay < before.underWay
  stuck : ∀ failed, before.Stuck failed → after.Stuck failed

theorem handleState_delivery {client : Client} {request : Request State}
    {rest : List (Request State)} (hrequests : (s.link client).stateRequests = request :: rest) :
    ∃ link, s.handleState client false = some link ∧ (s.link client).Delivery link := by
  refine ⟨_, s.handleState_eq hrequests false, ?_, fun failed hstuck ↦ ?_⟩
  · simp [VotingLink.underWay, hrequests]
  · obtain ⟨⟨round, hround, hfailed⟩, hwaiting, hcoming⟩ := hstuck
    refine ⟨⟨round, ?_, hfailed⟩, hwaiting, hcoming⟩
    rw [VotingLink.approvedRound, approvedRound_append]
    exact hround

theorem handleMode_delivery {client : Client} {request : Request ModeType}
    {rest : List (Request ModeType)} (hrequests : (s.link client).modeRequests = request :: rest) :
    ∃ link, s.handleMode client false = some link ∧ (s.link client).Delivery link := by
  refine ⟨_, s.handleMode_eq hrequests false, ?_, fun failed hstuck ↦ ?_⟩
  · simp [VotingLink.underWay, hrequests]
  · exact ⟨hstuck.failed, hstuck.waiting, hstuck.coming⟩

theorem handleStatus_delivery {client : Client} {status : Status} {rest : List Status}
    (hstatuses : (s.link client).statuses = status :: rest) :
    ∃ link, s.handleStatus client = some link ∧ (s.link client).Delivery link := by
  refine ⟨_, s.handleStatus_eq hstatuses, ?_, fun failed hstuck ↦ ?_⟩
  · simp [VotingLink.underWay, hstatuses]
  · obtain ⟨hfailed, hwaiting, hcoming⟩ := hstuck
    rw [VotingLink.comingStates, hstatuses] at hcoming
    have hsame : status.state = (s.link client).node.currentState :=
      hcoming status.state List.mem_cons_self
    have hfollower : ((s.link client).node.onStatusChanged status).1.stateFollower =
        (s.link client).node.stateFollower := by
      rw [PackmlNodeInterface.onStatusChanged_stateFollower]
      exact Follower.receive_same hsame.symm
    refine ⟨hfailed, (congrArg Follower.waiting hfollower).trans hwaiting, fun state hstate ↦ ?_⟩
    exact (hcoming state (List.mem_cons_of_mem _ hstate)).trans
      (congrArg Follower.current hfollower).symm

variable [DecidableEq Client]

/-- While something is under way to a node, it can be delivered. -/
theorem exists_delivery (cycle : Cycle) (clients : List Client) {client : Client}
    (hunderWay : ¬ (s.link client).Delivered) :
    ∃ action link, action.delivers ∧
      (voting cycle clients).next s action = some (s.update client link) ∧
        (s.link client).Delivery link := by
  cases hstates : (s.link client).stateRequests with
  | cons request rest =>
    obtain ⟨link, hhandle, hdelivery⟩ := handleState_delivery hstates
    refine ⟨.handleState client false, link, rfl, ?_, hdelivery⟩
    show (s.handleState client false).map (s.update client) = _
    rw [hhandle]
    rfl
  | nil =>
    cases hmodes : (s.link client).modeRequests with
    | cons request rest =>
      obtain ⟨link, hhandle, hdelivery⟩ := handleMode_delivery hmodes
      refine ⟨.handleMode client false, link, rfl, ?_, hdelivery⟩
      show (s.handleMode client false).map (s.update client) = _
      rw [hhandle]
      rfl
    | nil =>
      cases hstatuses : (s.link client).statuses with
      | cons status rest =>
        obtain ⟨link, hhandle, hdelivery⟩ := handleStatus_delivery hstatuses
        refine ⟨.handleStatus client, link, trivial, ?_, hdelivery⟩
        show (s.handleStatus client).map (s.update client) = _
        rw [hhandle]
        rfl
      | nil => exact absurd ⟨hstates, hmodes, hstatuses⟩ hunderWay

/-- What every delivery keeps can be kept until nothing is under way to a node. -/
theorem canDeliver (Kept : Voting Client → Prop) (client : Client)
    (hkept : ∀ s client link, Kept s → (s.link client).Delivery link → Kept (s.update client link))
    (hs : Kept s) :
    (voting cycle clients).CanReach VotingAction.delivers
      (fun t ↦ Kept t ∧ (t.link client).Delivered) s := by
  induction hcount : (s.link client).underWay using Nat.strongRecOn generalizing s with
  | _ count ih =>
    by_cases hdelivered : (s.link client).Delivered
    · exact .here ⟨hs, hdelivered⟩
    · obtain ⟨action, link, hdelivers, hnext, hdelivery⟩ :=
        exists_delivery cycle clients hdelivered
      have hlink : (s.update client link).link client = link := Function.update_self ..
      refine .of_step hnext hdelivers (ih _ ?_ (hkept s client link hs hdelivery) rfl)
      rw [hlink, ← hcount]
      exact hdelivery.fewer

/-- Nothing comes under way by a delivery. -/
theorem delivered_of_delivery {before after : VotingLink} (hdelivery : before.Delivery after)
    (hbefore : before.Delivered) : after.Delivered := by
  obtain ⟨hstates, hmodes, hstatuses⟩ := hbefore
  have hfewer := hdelivery.fewer
  simp [VotingLink.underWay, hstates, hmodes, hstatuses] at hfewer

/-- Everything can be delivered to a list of nodes. -/
theorem canDeliverAll (pending : List Client) : ∀ (Kept : Voting Client → Prop),
    (∀ s client link, Kept s → (s.link client).Delivery link → Kept (s.update client link)) →
      ∀ s, Kept s → (voting cycle clients).CanReach VotingAction.delivers
        (fun t ↦ Kept t ∧ ∀ client ∈ pending, (t.link client).Delivered) s := by
  induction pending with
  | nil =>
    intro Kept _ s hs
    exact .here ⟨hs, fun client hclient ↦ absurd hclient List.not_mem_nil⟩
  | cons client rest ih =>
    intro Kept hkept s hs
    refine (canDeliver Kept client hkept hs).trans fun t ht ↦ ?_
    -- the first node has everything, and keeps it while the others are served
    have hboth : ∀ s other link, Kept s ∧ (s.link client).Delivered →
        (s.link other).Delivery link →
          Kept (s.update other link) ∧ ((s.update other link).link client).Delivered := by
      rintro s other link ⟨hs, hdelivered⟩ hdelivery
      exact ⟨hkept s other link hs hdelivery,
        update_link VotingLink.Delivered hdelivered (delivered_of_delivery hdelivery)⟩
    refine (ih _ hboth t ht).trans fun u hu ↦ .here ⟨hu.1.1, ?_⟩
    exact List.forall_mem_cons.mpr ⟨hu.1.2, hu.2⟩

/-- A node that has approved a failed round and that no Status on the way serves is left waiting
when everything is delivered. -/
theorem left_waiting_of_not_served {client : Client} (hclient : client ∈ clients)
    (hstuck : (s.link client).Stuck s.failed) :
    (voting cycle clients).CanReach VotingAction.delivers (fun t ↦ ¬ t.NoneLeftWaiting clients)
      s := by
  have hkept : ∀ (s : Voting Client) other link, (s.link client).Stuck s.failed →
      (s.link other).Delivery link →
        ((s.update other link).link client).Stuck (s.update other link).failed := by
    intro s other link hstuck hdelivery
    exact update_link (·.Stuck s.failed) hstuck (hdelivery.stuck s.failed)
  refine (canDeliverAll clients _ hkept s hstuck).trans fun t ht ↦ .here fun hnone ↦ ?_
  obtain ⟨⟨⟨round, hround, hfailed⟩, hwaiting, -⟩, hdelivered⟩ := ht
  have hover := hnone hdelivered client hclient round hround hfailed
  rw [hwaiting] at hover
  cases hover

end Stuck

/-! ### Runs -/

/-- A round for two nodes, of which the first approves and the second refuses. -/
def splitRound : List (VotingAction Bool) :=
  [.manager .callState fun _ ↦ true, .handleState true true, .handleState false false,
    .manager (.stateRound false) fun _ ↦ true]

/-- A round that two nodes approve. -/
def agreedRound : List (VotingAction Bool) :=
  [.manager .callState fun _ ↦ true, .handleState true true, .handleState false true] ++
    [.stateRound true, .fillState, .publishState, .machine .notified].map fun action ↦
      .manager action fun _ ↦ true

/-- ABORTED is agreed and published. The round of CLEARING fails before the Status has arrived at
the node that approves. -/
def servedFailure : List (VotingAction Bool) :=
  agreedRound ++ (carryOut .clear).map (fun action ↦ .manager action fun _ ↦ true) ++ splitRound ++
    [.handleStatus true, .handleStatus true, .handleStatus false, .handleStatus false]

/-- The node that approved CLEARING does not wait for it. -/
theorem none_left_waiting_servedFailure :
    ∃ s, (voting .singleCycle [true, false]).runFrom .activated servedFailure = some s ∧
      s.failed = [2] ∧ (s.link true).approvedRound = some 2 ∧
        s.NoneLeftWaiting [true, false] := by
  have hend : ((voting .singleCycle [true, false]).runFrom .activated servedFailure).map
      (fun s ↦ (s.failed, (s.link true).approvedRound)) = some ([2], some 2) := rfl
  obtain ⟨s, hrun, hs⟩ := Option.map_eq_some_iff.mp hend
  obtain ⟨hfailed, happroved⟩ := Prod.mk.inj hs
  have hallowed : (voting .singleCycle [true, false]).AllowedAlong
      (Voting.FailsServed [true, false]) servedFailure .activated := by
    decide +kernel
  exact ⟨s, hrun, hfailed, happroved, none_left_waiting
    (TransitionSystem.reachableBy_of_runFrom (.initial rfl) _ hallowed hrun)⟩

/-- The first round fails, and everything is delivered. -/
def unservedFailure : List (VotingAction Bool) :=
  [.handleStatus true, .handleStatus false] ++ splitRound

/-- The node that approved ABORTED waits for it, although nothing is published or under way. -/
theorem approving_node_left_waiting :
    (∃ s, (voting .singleCycle [true, false]).runFrom .activated unservedFailure = some s ∧
      s.manager.qt = .done ∧ s.manager.published = [] ∧ s.failed = [1] ∧
        (s.link true).approvedRound = some 1 ∧
          (s.link true).node.waitingForNewState = true ∧
            (s.link true).node.switchingState = .aborted ∧
              ∀ client ∈ [true, false], (s.link client).Delivered) ∧
      ¬ ∀ s, (voting .singleCycle [true, false]).Reachable s →
        s.NoneLeftWaiting [true, false] := by
  have hend : ((voting .singleCycle [true, false]).runFrom .activated unservedFailure).map
      (fun s ↦ (s.manager.qt, s.manager.published, s.failed, s.link true, s.link false)) =
      some (.done, [], [1],
        ⟨⟨.manual, .undefined, .undefined, .aborted, false, true⟩, [], [], [], [⟨1, true⟩], []⟩,
        ⟨⟨.manual, .undefined, .undefined, .undefined, false, false⟩, [], [], [], [⟨1, false⟩],
          []⟩) := rfl
  obtain ⟨s, hrun, hs⟩ := Option.map_eq_some_iff.mp hend
  simp only [Prod.mk.injEq] at hs
  obtain ⟨hqt, hpublished, hfailed, hfirst, hsecond⟩ := hs
  have hdelivered : ∀ client ∈ [true, false], (s.link client).Delivered := by
    intro client _
    cases client
    · rw [hsecond]
      exact ⟨rfl, rfl, rfl⟩
    · rw [hfirst]
      exact ⟨rfl, rfl, rfl⟩
  have happroved : (s.link true).approvedRound = some 1 := by
    rw [hfirst]
    rfl
  have hwaiting : (s.link true).node.waitingForNewState = true := by
    rw [hfirst]
  have hswitching : (s.link true).node.switchingState = .aborted := by
    rw [hfirst]
  refine ⟨⟨s, hrun, hqt, hpublished, hfailed, happroved, hwaiting, hswitching, hdelivered⟩,
    fun hnone ↦ ?_⟩
  have hreachable : (voting .singleCycle [true, false]).Reachable s :=
    TransitionSystem.reachable_of_runFrom (.initial rfl) _ hrun
  have hover := hnone s hreachable hdelivered true (by simp) 1 happroved (by simp [hfailed])
  rw [hwaiting] at hover
  cases hover

end PackML
