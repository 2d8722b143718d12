import PackML.Manager.NodeInterface

/-!
# Networks of a manager and its nodes

A network is a manager and the links to its nodes: the requests and the Status messages that a node
has not handled, oldest first. A step of the manager sends requests or a Status to all nodes, and a
node handles what is under way to it in any order across the three channels. Nodes approve every
request and are available, so a round is over, and approved, when every node has handled its
request; a manager without nodes has no such round.
-/

set_option autoImplicit false
set_option relaxedAutoImplicit false

namespace PackML

/-! ### Networks -/

/-- A node and what it has not handled. -/
structure NodeLink where
  node : PackmlNodeInterface
  stateRequests : List State
  modeRequests : List ModeType
  statuses : List Status

/-- Nothing is under way to the node. -/
def NodeLink.Delivered (link : NodeLink) : Prop :=
  link.stateRequests = [] ∧ link.modeRequests = [] ∧ link.statuses = []

/-- A manager and its nodes. -/
structure Network (Client : Type) where
  manager : SMNode
  link : Client → NodeLink

/-- The steps of a network: those of the manager, and the handling of a message by a node. -/
inductive NetworkAction (Client : Type)
  | manager (action : NodeAction)
  | handleState (client : Client)
  | handleMode (client : Client)
  | handleStatus (client : Client)
  deriving DecidableEq

namespace SMNode

variable (s : SMNode)

/-- The state that a step requests from every node. -/
def stateRequest : NodeAction → List State
  | .callState =>
    match s.machine.phase with
    | .notifying state => [state]
    | _ => []
  | _ => []

/-- The mode that a step requests from every node. -/
def modeRequestSent : NodeAction → List ModeType
  | .callMode =>
    match s.ros with
    | .calling mode => [mode]
    | _ => []
  | _ => []

/-- The status published last; the constructor has published the mode MANUAL. -/
def lastStatus : Status :=
  (s.published.getLast?.map (·.status)).getD ⟨.undefined, .manual⟩

end SMNode

namespace Network

variable {Client : Type} (clients : List Client) (s : Network Client)

/-- A link after a step of the manager. -/
def sent [DecidableEq Client] (action : NodeAction) (client : Client) : NodeLink :=
  let link := s.link client
  if client ∈ clients then
    { link with
      stateRequests := link.stateRequests ++ s.manager.stateRequest action
      modeRequests := link.modeRequests ++ s.manager.modeRequestSent action
      statuses := link.statuses ++ s.manager.statusSent action }
  else link

/-- A round ends when there are nodes and all have handled its request, and it is approved. -/
def endsRound : NodeAction → Bool
  | .stateRound approved =>
    approved && !clients.isEmpty && clients.all fun client ↦ (s.link client).stateRequests.isEmpty
  | .modeRound approved =>
    approved && !clients.isEmpty && clients.all fun client ↦ (s.link client).modeRequests.isEmpty
  | _ => true

/-- A node approves the state requested. -/
def handleState (client : Client) : Option NodeLink :=
  match (s.link client).stateRequests with
  | state :: rest =>
    some { s.link client with
      node := ((s.link client).node.onStateTransReq state true).1
      stateRequests := rest }
  | [] => none

/-- A node approves the mode requested. -/
def handleMode (client : Client) : Option NodeLink :=
  match (s.link client).modeRequests with
  | mode :: rest =>
    some { s.link client with
      node := ((s.link client).node.onModeTransReq mode true).1
      modeRequests := rest }
  | [] => none

/-- A node receives a Status. -/
def handleStatus (client : Client) : Option NodeLink :=
  match (s.link client).statuses with
  | status :: rest =>
    some { s.link client with
      node := ((s.link client).node.onStatusChanged status).1
      statuses := rest }
  | [] => none

/-- A network after its start: the nodes are initialised and wait for nothing, and the first
publication of the manager is under way. -/
def activated : Network Client where
  manager := .activated
  link _ :=
    { node :=
        PackmlNodeInterface.init ⟨.undefined, .undefined, .undefined, .undefined, false, false⟩
      stateRequests := []
      modeRequests := []
      statuses := [⟨.undefined, .manual⟩] }

end Network

/-- A property of the links stays with every node when the new link of one node has it if the old
one had. -/
theorem update_property {Client Link : Type} [DecidableEq Client] (P : Link → Prop)
    {links : Client → Link} {client handled : Client} {link : Link} (hs : P (links client))
    (hlink : P (links handled) → P link) : P (Function.update links handled link client) := by
  by_cases hsame : client = handled
  · subst hsame
    rw [Function.update_self]
    exact hlink hs
  · rwa [Function.update_of_ne hsame]

section Runs

variable {Client : Type} [DecidableEq Client]

/-- The runs of a manager whose client map holds the nodes of `clients`. -/
def network (cycle : Cycle) (clients : List Client) :
    TransitionSystem (Network Client) (NetworkAction Client) where
  initial s := s = .activated
  next s
    | .manager action =>
      if s.endsRound clients action then
        ((smNode cycle).next s.manager action).map fun manager ↦
          ⟨manager, s.sent clients action⟩
      else none
    | .handleState client =>
      (s.handleState client).map fun link ↦ ⟨s.manager, Function.update s.link client link⟩
    | .handleMode client =>
      (s.handleMode client).map fun link ↦ ⟨s.manager, Function.update s.link client link⟩
    | .handleStatus client =>
      (s.handleStatus client).map fun link ↦ ⟨s.manager, Function.update s.link client link⟩

end Runs

end PackML
