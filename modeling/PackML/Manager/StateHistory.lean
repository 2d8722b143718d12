import PackML.Manager.SeenStatuses

/-!
# What a node sees of the state of the machine

A state is entered when the round of the state before is over, and published at the end of its own
round when the round is approved; in between, `on_change_mode` may publish the state agreed on last.
So far as the manager publishes the state that the machine is in, what a node sees are states that
the machine has entered, in the order of entry, whatever is lost and whichever rounds fail
(`states_seen_in_order`). When also no round is refused and nothing is lost, a node sees each of
them: what it has seen is always a beginning of the history of the machine, and the whole history
when the last round is over and everything has arrived (`seenStates_history`).
-/

set_option autoImplicit false
set_option relaxedAutoImplicit false

namespace PackML

open TransitionSystem

/-! ### What a node sees -/

/-- What the calls of `on_status_changed` for the state see in a step. -/
def seenStates {Client : Type} [DecidableEq Client] (client : Client)
    (step : Step (Voting Client) (LossyAction Client)) : List State :=
  (received client step).flatMap fun status ↦
    ((step.before.link client).node.onStateChanged status.state).2.map (·.state)

theorem onStateChanged_seen (node : PackmlNodeInterface) (state : State) :
    (node.onStateChanged state).2.map (·.state) =
      if node.currentState = state then [] else [state] := by
  unfold PackmlNodeInterface.onStateChanged
  by_cases hsame : node.currentState = state
  · rw [if_neg (not_not.mpr hsame), if_pos hsame]
    rfl
  · rw [if_pos hsame, if_neg hsame]
    rfl

/-! ### The state of the machine -/

/-- Whether a step ends the round of a state with a refusal. -/
def NodeAction.refusesState : NodeAction → Bool
  | .stateRound approved => !approved
  | _ => false

/-- The state of the machine, which is published at the end of its round. -/
def machineState : PublishedVariable State where
  field status := status.state
  value s := s.machine.stateValue
  changes := entered
  pending s := s.qt ≠ .done
  refuses := NodeAction.refusesState

section Runs

variable {Client : Type} [DecidableEq Client] {cycle : Cycle} {clients : List Client}
  {client : Client} {r : Recorded (Voting Client) (LossyAction Client)}

theorem seenStates_eq : seenStates client = seenField (·.state) client := by
  funext step
  exact List.flatMap_congr fun status _ ↦ onStateChanged_seen _ _

/-- A state is entered when the one before was published or refused. -/
theorem machineState_moves {s t : SMNode} {action : NodeAction} (hstep : RoundStep s action t) :
    machineState.Moves s action t := by
  have hround : ∀ {stage : QtStage}, stage ≠ .done → t.qt = stage → machineState.pending t := by
    rintro stage hstage rfl
    exact hstage
  cases hstep with
  | enters hbefore hafter =>
    exact .changes (not_not.mpr hbefore) (hround (by simp) hafter) rfl rfl
  | calls _ _ hafter hvalue => exact .keeps rfl hvalue fun _ ↦ Or.inl (hround (by simp) hafter)
  | approves _ hafter hvalue => exact .keeps rfl hvalue fun _ ↦ Or.inl (hround (by simp) hafter)
  | refuses _ _ hvalue => exact .keeps rfl hvalue fun _ ↦ Or.inr (Or.inr rfl)
  | fills _ hafter hvalue => exact .keeps rfl hvalue fun _ ↦ Or.inl (hround (by simp) hafter)
  | publishes _ hbefore _ hvalue =>
    refine .keeps rfl hvalue fun _ ↦ Or.inr (Or.inl ?_)
    simp [SMNode.statusSent, SMNode.qtMessage, hbefore]
  | keeps haction hqt hvalue =>
    refine .keeps (stations_of_not_ofRound haction).1 hvalue fun hpending ↦ Or.inl ?_
    exact hround hpending hqt

theorem machineState_follows (cycle : Cycle) : machineState.Follows cycle where
  moves _ _ _ hs hnext := machineState_moves (round_step hs hnext)
  covered := rfl
  published hdone := absurd (fun h ↦ (by cases h)) hdone

/-- In every run in which the manager publishes the state that the machine is in, what a node sees
are states that the machine has entered, in the order of entry, whatever is lost. -/
theorem states_seen_in_order (hclient : client ∈ clients)
    (hrun : (lossy cycle clients).recorded.ReachableBy
      (fun r action ↦ machineState.PublishesValue r.current action) r) :
    (r.produced (seenStates client)).Sublist (.aborted :: r.produced (ofManager entered)) := by
  rw [seenStates_eq]
  exact (machineState_follows cycle).seen_sublist hclient hrun

/-- When also no round of a state is refused and nothing is lost on the way to a node, the node has
seen a beginning of the history of the machine, and all of it when no round is in progress and
nothing is under way to the node. -/
theorem seenStates_history (hclient : client ∈ clients)
    (hrun : (lossy cycle clients).recorded.ReachableBy
      (fun r action ↦ machineState.PassesOn client r.current action) r) :
    r.produced (seenStates client) <+:
        (.aborted :: r.produced (ofManager entered)).destutter (· ≠ ·) ∧
      (r.current.manager.qt = .done → (r.current.link client).statuses = [] →
        r.produced (seenStates client) =
          (.aborted :: r.produced (ofManager entered)).destutter (· ≠ ·)) := by
  obtain ⟨hbegins, hall⟩ := (machineState_follows cycle).seen_history hclient
    (show State.undefined ≠ .aborted by decide) hrun
  rw [seenStates_eq]
  exact ⟨hbegins, fun hdone hdelivered ↦ hall (not_not.mpr hdone) hdelivered⟩

end Runs

/-! ### A run -/

/-- ABORTED and CLEARING are agreed and published. -/
def clearingAgreed : List (VotingAction Bool) :=
  agreedRound ++ (carryOut .clear).map (fun action ↦ .manager action fun _ ↦ true) ++ agreedRound

/-- One node receives the first two statuses. -/
def clearingReceived : List (LossyAction Bool) :=
  clearingAgreed.map .voting ++ [.voting (.handleStatus true), .voting (.handleStatus true)]

theorem states_seen_in_order_clearingReceived :
    ∃ r, (lossy .singleCycle [true, false]).recorded.runFrom ⟨.activated, []⟩
        (clearingReceived ++ [.lose true 0]) = some r ∧
      r.produced (ofManager entered) = [.clearing] ∧
        (r.produced (seenStates true)).Sublist (.aborted :: r.produced (ofManager entered)) := by
  have hend : ((lossy .singleCycle [true, false]).recorded.runFrom ⟨.activated, []⟩
      (clearingReceived ++ [.lose true 0])).map (fun r ↦ r.produced (ofManager entered)) =
        some [.clearing] := rfl
  obtain ⟨r, hrun, hentered⟩ := Option.map_eq_some_iff.mp hend
  have hinitial : (lossy .singleCycle [true, false]).recorded.initial ⟨.activated, []⟩ :=
    ⟨rfl, rfl⟩
  have hallowed : (lossy .singleCycle [true, false]).recorded.AllowedAlong
      (fun r action ↦ machineState.PublishesValue r.current action)
      (clearingReceived ++ [.lose true 0]) ⟨.activated, []⟩ := by
    decide +kernel
  exact ⟨r, hrun, hentered, states_seen_in_order (by decide)
    (reachableBy_of_runFrom (.initial hinitial) _ hallowed hrun)⟩

end PackML
