import PackML.Manager.FailedRounds

/-!
# Nodes that are offline

A round needs every client of the map: `call_all_clients` skips a client whose service is not
available, and `wait_all_futures` does not return true then; nor does it when the map is empty. As
long as some client is missing whenever the manager calls them, and it need not be the same one each
time, the machine goes on but its state is not published any more: the manager keeps the state that
it had, every Status that it publishes carries this state, and every request for a mode is answered
as a failure, also one that has switched the mode (`frozen_while_short`).
-/

set_option autoImplicit false
set_option relaxedAutoImplicit false

namespace PackML

variable {Client : Type}

/-! ### Rounds with a client missing -/

/-- The round does not reach every client, or there is none. -/
def Ballot.Short (clients : List Client) (ballot : Ballot Client) : Prop :=
  clients = [] ∨ ∃ client ∈ clients, client ∉ ballot.called

theorem not_mayReturn_true [DecidableEq Client] {clients : List Client} {ballot : Ballot Client}
    (hshort : ballot.Short clients) (responses : Client → List Response) :
    ballot.mayReturn clients responses true = false := by
  rcases hshort with rfl | ⟨client, hclient, hmissing⟩
  · rfl
  · have hskipped : (ballot.called.contains client &&
        (responses client).any fun response ↦ response.round = ballot.round) = false := by
      rw [List.contains_eq_mem, decide_eq_false hmissing, Bool.false_and]
    have hall : (clients.all fun client ↦ ballot.called.contains client &&
        (responses client).any fun response ↦ response.round = ballot.round) = false :=
      List.all_eq_false.mpr ⟨client, hclient, Bool.eq_false_iff.mp hskipped⟩
    rw [Ballot.mayReturn, hall, Bool.false_and]

/-- When the manager calls its clients, one of them is not available, or there is none. -/
def CallsShort (clients : List Client) (_ : Voting Client) : VotingAction Client → Prop
  | .manager .callState available | .manager .callMode available =>
    clients = [] ∨ ∃ client ∈ clients, available client = false
  | _ => True

theorem short_of_available [DecidableEq Client] {clients : List Client} {available : Client → Bool}
    (hcalls : clients = [] ∨ ∃ client ∈ clients, available client = false) (round : ℕ) :
    (⟨round, clients.filter available⟩ : Ballot Client).Short clients := by
  refine hcalls.imp_right fun ⟨client, hclient, hoffline⟩ ↦ ⟨client, hclient, fun hcalled ↦ ?_⟩
  rw [(List.mem_filter.mp hcalled).2] at hoffline
  cases hoffline

/-! ### The state that is kept -/

/-- The manager waits for no round that can succeed, and fills its messages with this state. -/
structure Frozen (clients : List Client) (state : State) (s : Voting Client) : Prop where
  currentState : s.manager.currentState = state
  qt : match s.manager.qt with
    | .calling | .done => True
    | .waiting => s.stateBallot.Short clients
    | .filling | .publishing _ => False
  ros : match s.manager.ros with
    | .waiting _ => s.modeBallot.Short clients
    | .publishing _ message => message.state = state
    | .fillingAgain _ | .publishingAgain _ _ => False
    | _ => True

/-- What the manager has published and answered since a state carries the state that it has kept,
and the answers are failures. -/
structure KeptState (state : State) (s t : SMNode) : Prop where
  published : ∃ publications, t.published = s.published ++ publications ∧
    ∀ publication ∈ publications, publication.status.state = state
  responses : ∃ responses, t.responses = s.responses ++ responses ∧
    ∀ response ∈ responses, response.success = false

/-- The state has been kept from `start` on. -/
def FrozenSince (clients : List Client) (start s : Voting Client) : Prop :=
  Frozen clients start.manager.currentState s ∧
    KeptState start.manager.currentState start.manager s.manager

namespace KeptState

variable {state : State} {s t u : SMNode}

theorem of_eq (hpublished : t.published = s.published) (hresponses : t.responses = s.responses) :
    KeptState state s t :=
  ⟨⟨[], by simp [hpublished]⟩, ⟨[], by simp [hresponses]⟩⟩

theorem trans (hst : KeptState state s t) (htu : KeptState state t u) : KeptState state s u := by
  obtain ⟨⟨before, hbefore, hpublished⟩, ⟨answered, hanswered, hfailed⟩⟩ := hst
  obtain ⟨⟨later, hlater, hpublished'⟩, ⟨answered', hanswered', hfailed'⟩⟩ := htu
  refine ⟨⟨before ++ later, by rw [hlater, hbefore, List.append_assoc], ?_⟩,
    ⟨answered ++ answered', by rw [hanswered', hanswered, List.append_assoc], ?_⟩⟩
  · exact List.forall_mem_append.mpr ⟨hpublished, hpublished'⟩
  · exact List.forall_mem_append.mpr ⟨hfailed, hfailed'⟩

/-- A request for a mode is answered as a failure. -/
theorem of_failure {response : ModeChangeResponse} (hresponse : response.success = false)
    (hpublished : t.published = s.published)
    (hresponses : t.responses = s.responses ++ [response]) :
    KeptState state s t :=
  ⟨⟨[], by simp [hpublished]⟩, ⟨[response], hresponses, by simpa using hresponse⟩⟩

end KeptState

section Steps

variable [DecidableEq Client] {cycle : Cycle} {clients : List Client} {s t : Voting Client}
  {state : State}

/-- A step of the manager keeps the state when no call reaches every client. -/
theorem frozen_manager {action : NodeAction} {available : Client → Bool}
    (hs : Frozen clients state s) (hshort : CallsShort clients s (.manager action available))
    (hnext : (voting cycle clients).next s (.manager action available) = some t) :
    Frozen clients state t ∧ KeptState state s.manager t.manager := by
  obtain ⟨hends, hnext⟩ := Option.ite_none_right_eq_some.mp hnext
  obtain ⟨manager, hmanager, rfl⟩ := Option.map_eq_some_iff.mp hnext
  obtain ⟨hstate, hqt, hros⟩ := hs
  cases action with
  | machine step =>
    obtain ⟨machine, -, ⟨-, rfl⟩ | ⟨-, -, rfl⟩⟩ := machineStep_node hmanager
    · exact ⟨⟨hstate, trivial, hros⟩, .of_eq rfl rfl⟩
    · exact ⟨⟨hstate, hqt, hros⟩, .of_eq rfl rfl⟩
  | callState =>
    obtain ⟨-, -, rfl⟩ := callState_spec hmanager
    exact ⟨⟨hstate, short_of_available hshort _, hros⟩, .of_eq rfl rfl⟩
  | stateRound approved =>
    obtain ⟨hwaiting, entered, -, ⟨rfl, rfl⟩ | ⟨rfl, rfl⟩⟩ := stateRound_spec hmanager
    · rw [hwaiting] at hqt
      rw [Voting.mayEnd, not_mayReturn_true hqt] at hends
      cases hends
    · exact ⟨⟨hstate, trivial, hros⟩, .of_eq rfl rfl⟩
  | fillState =>
    obtain ⟨hfilling, rfl⟩ := fillState_spec hmanager
    rw [hfilling] at hqt
    exact hqt.elim
  | publishState =>
    obtain ⟨message, hpublishing, rfl⟩ := publishState_spec hmanager
    rw [hpublishing] at hqt
    exact hqt.elim
  | modeRequest mode =>
    obtain ⟨-, ⟨machine, -, rfl⟩ | ⟨response, hfailure, rfl⟩⟩ := modeRequest_spec hmanager
    · exact ⟨⟨hstate, hqt, trivial⟩, .of_eq rfl rfl⟩
    · exact ⟨⟨hstate, hqt, trivial⟩, .of_failure hfailure rfl rfl⟩
  | install =>
    obtain ⟨-, mode, machine, -, -, rfl⟩ := install_spec hmanager
    exact ⟨⟨hstate, hqt, trivial⟩, .of_eq rfl rfl⟩
  | recordMode =>
    obtain ⟨mode, -, rfl⟩ := recordMode_spec hmanager
    exact ⟨⟨hstate, hqt, trivial⟩, .of_eq rfl rfl⟩
  | fillMode =>
    obtain ⟨mode, -, rfl⟩ := fillMode_spec hmanager
    exact ⟨⟨hstate, hqt, hstate⟩, .of_eq rfl rfl⟩
  | publishMode =>
    obtain ⟨mode, message, hpublishing, rfl⟩ := publishMode_spec hmanager
    rw [hpublishing] at hros
    exact ⟨⟨hstate, hqt, trivial⟩, ⟨_, rfl, by simpa using hros⟩,
      ⟨[], by simp [SMNode.publishStatus]⟩⟩
  | callMode =>
    obtain ⟨mode, -, rfl⟩ := callMode_spec hmanager
    exact ⟨⟨hstate, hqt, short_of_available hshort _⟩, .of_eq rfl rfl⟩
  | modeRound approved =>
    obtain ⟨mode, hwaiting, ⟨rfl, rfl⟩ | ⟨rfl, response, hfailure, rfl⟩⟩ := modeRound_spec hmanager
    · rw [hwaiting] at hros
      rw [Voting.mayEnd, not_mayReturn_true hros] at hends
      cases hends
    · exact ⟨⟨hstate, hqt, trivial⟩, .of_failure hfailure rfl rfl⟩
  | fillModeAgain =>
    obtain ⟨mode, hfilling, rfl⟩ := fillModeAgain_spec hmanager
    rw [hfilling] at hros
    exact hros.elim
  | publishModeAgain =>
    obtain ⟨mode, message, hpublishing, -⟩ := publishModeAgain_spec hmanager
    rw [hpublishing] at hros
    exact hros.elim

/-- A step of a node does not concern the manager. -/
theorem frozen_step {action : VotingAction Client} (hs : Frozen clients state s)
    (hshort : CallsShort clients s action) (hnext : (voting cycle clients).next s action = some t) :
    Frozen clients state t ∧ KeptState state s.manager t.manager := by
  cases action with
  | manager action available => exact frozen_manager hs hshort hnext
  | handleState handled approved =>
    obtain ⟨link, -, rfl⟩ := Option.map_eq_some_iff.mp hnext
    exact ⟨⟨hs.currentState, hs.qt, hs.ros⟩, .of_eq rfl rfl⟩
  | handleMode handled approved =>
    obtain ⟨link, -, rfl⟩ := Option.map_eq_some_iff.mp hnext
    exact ⟨⟨hs.currentState, hs.qt, hs.ros⟩, .of_eq rfl rfl⟩
  | handleStatus handled =>
    obtain ⟨link, -, rfl⟩ := Option.map_eq_some_iff.mp hnext
    exact ⟨⟨hs.currentState, hs.qt, hs.ros⟩, .of_eq rfl rfl⟩

/-- From a state in which no round is in progress, as long as no call reaches every client, the
manager keeps its state, publishes this state only, and answers every request for a mode as a
failure. -/
theorem frozen_while_short (hqt : s.manager.qt = .calling ∨ s.manager.qt = .done)
    (hros : s.manager.ros = .idle) {actions : List (VotingAction Client)}
    (hshort : (voting cycle clients).AllowedAlong (CallsShort clients) actions s)
    (hrun : (voting cycle clients).runFrom s actions = some t) :
    t.manager.currentState = s.manager.currentState ∧
      (∃ publications, t.manager.published = s.manager.published ++ publications ∧
        ∀ publication ∈ publications, publication.status.state = s.manager.currentState) ∧
      ∃ responses, t.manager.responses = s.manager.responses ++ responses ∧
        ∀ response ∈ responses, response.success = false := by
  have hfrozen : Frozen clients s.manager.currentState s := by
    refine ⟨rfl, ?_, by rw [hros]; trivial⟩
    rcases hqt with hqt | hqt
    · rw [hqt]; trivial
    · rw [hqt]; trivial
  have hstart : FrozenSince clients s s := ⟨hfrozen, .of_eq rfl rfl⟩
  have hend : FrozenSince clients s t := by
    refine hshort.kept (fun before action after hbefore hcalls hnext ↦ ?_) hrun hstart
    obtain ⟨hafter, hkept⟩ := frozen_step hbefore.1 hcalls hnext
    exact ⟨hafter, hbefore.2.trans hkept⟩
  exact ⟨hend.1.currentState, hend.2.published, hend.2.responses⟩

end Steps

/-! ### A run -/

/-- A round that fails. -/
def failedRound : List NodeAction :=
  [.callState, .stateRound false, .machine .notified]

/-- The machine is taken from ABORTED to IDLE and switched to MAINTENANCE, and every round fails. -/
def idleUnpublished : List NodeAction :=
  carryOut .clear ++ failedRound ++ complete ⟨.clearing, 0⟩ ++ failedRound ++ carryOut .reset ++
    failedRound ++ complete ⟨.resetting, 1⟩ ++ failedRound ++ changeModeTo .maintenance ++
      [.callMode, .modeRound false]

/-- One of the two nodes is offline. -/
def idleOffline : List (VotingAction Bool) :=
  idleUnpublished.map fun action ↦ .manager action fun client ↦ client

/-- The manager publishes ABORTED with the new mode, and answers a failure. -/
theorem frozen_while_short_idleOffline :
    ∃ s t, (voting .singleCycle [true, false]).runFrom .activated agreedRound = some s ∧
      (voting .singleCycle [true, false]).runFrom s idleOffline = some t ∧
        t.manager.machine.stateValue = .idle ∧ t.manager.currentMode = .maintenance ∧
          t.manager.currentState = s.manager.currentState ∧
            (∃ publications, t.manager.published = s.manager.published ++ publications ∧
              ∀ publication ∈ publications, publication.status.state = s.manager.currentState) ∧
            ∃ responses, t.manager.responses = s.manager.responses ++ responses ∧
              ∀ response ∈ responses, response.success = false := by
  have hend : ((voting .singleCycle [true, false]).runFrom .activated agreedRound).bind
      (fun s ↦ ((voting .singleCycle [true, false]).runFrom s idleOffline).map fun t ↦
        (s.manager.qt, s.manager.ros, t.manager.machine.stateValue, t.manager.currentMode)) =
      some (.done, .idle, .idle, .maintenance) := rfl
  obtain ⟨s, hagreed, hs⟩ := Option.bind_eq_some_iff.mp hend
  obtain ⟨t, hrun, ht⟩ := Option.map_eq_some_iff.mp hs
  simp only [Prod.mk.injEq] at ht
  obtain ⟨hqt, hros, hidle, hmode⟩ := ht
  refine ⟨s, t, hagreed, hrun, hidle, hmode,
    frozen_while_short (Or.inr hqt) hros ?_ hrun⟩
  refine TransitionSystem.allowedAlong_of_forall_mem (fun action hmem before ↦ ?_) s
  obtain ⟨called, -, rfl⟩ := List.mem_map.mp hmem
  have hoffline : ∃ client ∈ [true, false], client = false := ⟨false, by decide, rfl⟩
  cases called with
  | callState => exact Or.inr hoffline
  | callMode => exact Or.inr hoffline
  | _ => trivial

end PackML
