import PackML.Execution.EventOrder
import PackML.Manager.StateHistory

/-!
# The nodes follow the flat table

The machine of a manager runs as it does alone, whatever happens in the network: `machineRun` is its
run. So what is known about the runs of a machine and the order of its events holds of a network,
and with what a node sees of the machine (`seenStates_history`) it gives the view that a node has of
the whole system: when the manager publishes the state that the machine is in, no round is refused
and nothing is lost, a node sees the states to which the flat table leads from ABORTED on the events
of the queue, commands, completions and errors, in the order of their posting
(`node_follows_table`).
-/

set_option autoImplicit false
set_option relaxedAutoImplicit false

namespace PackML

open TransitionSystem

/-! ### The run of the machine -/

/-- The step of the machine in a step of the manager. -/
def ofMachine (step : Step SMNode NodeAction) : List ExecutionStep :=
  match step.action with
  | .machine action => [⟨step.before.machine, action, step.after.machine⟩]
  | .modeRequest mode =>
    if step.after.ros = .changing then
      [⟨step.before.machine, .changeMode mode, step.after.machine⟩]
    else []
  | .install => [⟨step.before.machine, .modeSwitched, step.after.machine⟩]
  | _ => []

/-- The steps in which the constructor installs MANUAL, the last one first. -/
def manualInstalled : List ExecutionStep :=
  let switching := { Execution.activated with switching := some .manual }
  [⟨switching, .modeSwitched, SMNode.activated.machine⟩,
    ⟨.activated, .changeMode .manual, switching⟩]

/-- The run of the machine in a run of a network. -/
def machineRun {Client : Type} (r : Recorded (Voting Client) (LossyAction Client)) :
    Recorded Execution Action :=
  r.ofPart (fun s ↦ s.manager.machine) (ofManager ofMachine) manualInstalled

section Manager

variable {cycle : Cycle} {s t : SMNode} {action : NodeAction}

/-- A step of the manager takes one step of the machine, or leaves it as it is. -/
theorem ofMachine_step (hnext : (smNode cycle).next s action = some t) :
    (ofMachine ⟨s, action, t⟩ = [] ∧ t.machine = s.machine) ∨
      ∃ step, ofMachine ⟨s, action, t⟩ = [⟨s.machine, step, t.machine⟩] ∧
        (execution cycle).next s.machine step = some t.machine := by
  cases action with
  | machine step =>
    obtain ⟨machine, hmachine, ⟨-, rfl⟩ | ⟨-, -, rfl⟩⟩ := machineStep_node hnext
    · exact Or.inr ⟨step, rfl, hmachine⟩
    · exact Or.inr ⟨step, rfl, hmachine⟩
  | modeRequest mode =>
    obtain ⟨-, ⟨machine, hmachine, rfl⟩ | ⟨response, -, rfl⟩⟩ := modeRequest_spec hnext
    · exact Or.inr ⟨.changeMode mode, rfl, hmachine⟩
    · exact Or.inl ⟨rfl, rfl⟩
  | install =>
    obtain ⟨-, mode, machine, -, hmachine, rfl⟩ := install_spec hnext
    exact Or.inr ⟨.modeSwitched, rfl, hmachine⟩
  | callState =>
    obtain ⟨-, -, rfl⟩ := callState_spec hnext
    exact Or.inl ⟨rfl, rfl⟩
  | stateRound approved =>
    obtain ⟨-, state, -, ⟨-, rfl⟩ | ⟨-, rfl⟩⟩ := stateRound_spec hnext
    · exact Or.inl ⟨rfl, rfl⟩
    · exact Or.inl ⟨rfl, rfl⟩
  | fillState =>
    obtain ⟨-, rfl⟩ := fillState_spec hnext
    exact Or.inl ⟨rfl, rfl⟩
  | publishState =>
    obtain ⟨message, -, rfl⟩ := publishState_spec hnext
    exact Or.inl ⟨rfl, rfl⟩
  | recordMode =>
    obtain ⟨mode, -, rfl⟩ := recordMode_spec hnext
    exact Or.inl ⟨rfl, rfl⟩
  | fillMode =>
    obtain ⟨mode, -, rfl⟩ := fillMode_spec hnext
    exact Or.inl ⟨rfl, rfl⟩
  | publishMode =>
    obtain ⟨mode, message, -, rfl⟩ := publishMode_spec hnext
    exact Or.inl ⟨rfl, rfl⟩
  | callMode =>
    obtain ⟨mode, -, rfl⟩ := callMode_spec hnext
    exact Or.inl ⟨rfl, rfl⟩
  | modeRound approved =>
    obtain ⟨mode, -, ⟨-, rfl⟩ | ⟨-, response, -, rfl⟩⟩ := modeRound_spec hnext
    · exact Or.inl ⟨rfl, rfl⟩
    · exact Or.inl ⟨rfl, rfl⟩
  | fillModeAgain =>
    obtain ⟨mode, -, rfl⟩ := fillModeAgain_spec hnext
    exact Or.inl ⟨rfl, rfl⟩
  | publishModeAgain =>
    obtain ⟨mode, message, -, response, -, rfl⟩ := publishModeAgain_spec hnext
    exact Or.inl ⟨rfl, rfl⟩

end Manager

section Runs

variable {Client : Type} [DecidableEq Client] {cycle : Cycle} {clients : List Client}
  {client : Client} {r : Recorded (Voting Client) (LossyAction Client)}

/-- The machine of a network runs as it does alone. -/
theorem machineRun_reachable (hrun : (lossy cycle clients).recorded.Reachable r) :
    (execution cycle).recorded.Reachable (machineRun r) := by
  refine Reachable.ofPart ?_ ?_ hrun
  · rintro s rfl
    have hinitial : (execution cycle).recorded.initial ⟨.activated, []⟩ := ⟨rfl, rfl⟩
    exact reachable_of_runFrom (.initial hinitial) [.changeMode .manual, .modeSwitched] rfl
  · intro s action t _ hnext
    obtain ⟨step, available, rfl, hmanager⟩ | ⟨hnode, hmanager⟩ := lossy_manager hnext
    · exact ofMachine_step hmanager
    · exact Or.inl ⟨ofManager_of_ne hnode, by rw [hmanager]⟩

omit [DecidableEq Client] in
/-- The machine reports the states that it enters. -/
theorem reported_machineRun (r : Recorded (Voting Client) (LossyAction Client)) :
    (machineRun r).produced ExecutionStep.reported = r.produced (ofManager entered) := by
  have hreported : ∀ step : Step (Voting Client) (LossyAction Client),
      (ofManager ofMachine step).flatMap ExecutionStep.reported = ofManager entered step := by
    rintro ⟨before, action, after⟩
    cases action with
    | lose => rfl
    | voting action =>
      cases action with
      | handleState | handleMode | handleStatus => rfl
      | manager action available =>
        cases action with
        | machine step => cases step <;> rfl
        | modeRequest mode =>
          show List.flatMap _ (if _ then _ else _) = []
          split <;> rfl
        | _ => rfl
  rw [machineRun, Recorded.produced_ofPart, funext hreported]
  rfl

/-! ### What a node sees -/

/-- When the manager publishes the state that the machine is in, no round of a state is refused and
nothing is lost on the way to a node, the machine takes the events from its queue in the order of
their posting, and the node sees a beginning of what the flat table makes of them from ABORTED: all
of it when the machine has processed the events that it has taken, and nothing is under way to the
node. -/
theorem node_follows_table (hclient : client ∈ clients)
    (hrun : (lossy cycle clients).recorded.ReachableBy
      (fun r action ↦ machineState.PassesOn client r.current action) r) :
    (machineRun r).produced ExecutionStep.posted =
        ((machineRun r).produced ExecutionStep.taken).map TakenEvent.posted ++
          r.current.manager.machine.queue ∧
      r.produced (seenStates client) <+: (.aborted ::
        flatVisited cycle .aborted ((machineRun r).produced ExecutionStep.taken)).destutter
          (· ≠ ·) ∧
      (r.current.manager.machine.phase = .idle → (r.current.link client).statuses = [] →
        r.produced (seenStates client) = (.aborted ::
          flatVisited cycle .aborted ((machineRun r).produced ExecutionStep.taken)).destutter
            (· ≠ ·)) := by
  have hmachine := machineRun_reachable hrun.reachable
  obtain ⟨horder, -, hreported⟩ := followsTable_of_reachable hmachine
  rw [reported_machineRun] at hreported
  obtain ⟨hbegins, hall⟩ := seenStates_history hclient hrun
  refine ⟨horder, ?_, fun hidle hdelivered ↦ ?_⟩
  · refine hbegins.trans (Stutter.destutter_prefix_mono ((List.prefix_cons_inj _).mpr ?_))
    exact ⟨_, hreported⟩
  · have hdone : r.current.manager.qt = .done := by
      by_contra hround
      have hcopies := copiesInvariant_of_reachable (lossyManager_reachable hrun.current.reachable)
      cases hidle.symm.trans (hcopies.notifying hround)
    have hentered : r.produced (ofManager entered) =
        flatVisited cycle .aborted ((machineRun r).produced ExecutionStep.taken) := by
      rw [← hreported, show (machineRun r).current.phase = .idle from hidle]
      exact (List.append_nil _).symm
    rw [← hentered]
    exact hall hdone hdelivered

end Runs

/-! ### A run -/

/-- The node sees ABORTED and CLEARING, to which CLEAR leads, and the machine is idle. -/
theorem node_follows_table_clearingReceived :
    ∃ r, (lossy .singleCycle [true, false]).recorded.runFrom ⟨.activated, []⟩
        (clearingReceived ++ [.voting (.handleStatus true)]) = some r ∧
      r.produced (seenStates true) = [.aborted, .clearing] ∧
        ((machineRun r).produced ExecutionStep.posted =
            ((machineRun r).produced ExecutionStep.taken).map TakenEvent.posted ++
              r.current.manager.machine.queue ∧
          r.produced (seenStates true) <+: (.aborted ::
            flatVisited .singleCycle .aborted
              ((machineRun r).produced ExecutionStep.taken)).destutter (· ≠ ·) ∧
          (r.current.manager.machine.phase = .idle → (r.current.link true).statuses = [] →
            r.produced (seenStates true) = (.aborted ::
              flatVisited .singleCycle .aborted
                ((machineRun r).produced ExecutionStep.taken)).destutter (· ≠ ·))) := by
  have hend : ((lossy .singleCycle [true, false]).recorded.runFrom ⟨.activated, []⟩
      (clearingReceived ++ [.voting (.handleStatus true)])).map
        (fun r ↦ r.produced (seenStates true)) = some [.aborted, .clearing] := rfl
  obtain ⟨r, hrun, hseen⟩ := Option.map_eq_some_iff.mp hend
  have hinitial : (lossy .singleCycle [true, false]).recorded.initial ⟨.activated, []⟩ :=
    ⟨rfl, rfl⟩
  have hallowed : (lossy .singleCycle [true, false]).recorded.AllowedAlong
      (fun r action ↦ machineState.PassesOn true r.current action)
        (clearingReceived ++ [.voting (.handleStatus true)]) ⟨.activated, []⟩ := by
    decide +kernel
  exact ⟨r, hrun, hseen, node_follows_table (by decide)
    (reachableBy_of_runFrom (.initial hinitial) _ hallowed hrun)⟩

end PackML
