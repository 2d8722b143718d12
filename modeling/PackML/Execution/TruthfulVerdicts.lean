import PackML.Execution.CallVerdicts

/-!
# When a verdict tells the truth

The verdict of a command is the accept flag that its tests leave behind. A `CmdTransition` that is
offered a command writes its own outcome to the flag, but a new event is accepted, so a command that
is offered to no `CmdTransition` at all is accepted although nothing was selected for it. ABORTING
is the one state without a `CmdTransition` on its path (`candidates_isCommand`).

`processed_sound` says where the records of the commands come from, for any number of threads.
`verdict_truthful_iff` is the result for a single caller, in every run: the verdict is true exactly
when the record of the event has selected a transition with the command, if and only if ABORTING was
not the active leaf then.
`command_in_aborting_succeeds` is a run with a false verdict.
-/

set_option autoImplicit false
set_option relaxedAutoImplicit false

namespace PackML

/-- `StateMachine::changeState`, with the value that the command method has returned. -/
def changeState (cmd : TransitionCmd) (commandRtn : Bool) : Except String Bool :=
  if cmd = .noCommand then
    .error ("Invalid transition request command: " ++ cmd.toString)
  else if commandRtn then .ok true
  else .error ("Transition command failed: " ++ cmd.toString)

/-- `changeState` succeeds exactly when the command method returns true. -/
theorem changeState_eq_ok_iff {cmd : TransitionCmd} (hcmd : cmd ≠ .noCommand) (commandRtn : Bool) :
    changeState cmd commandRtn = .ok true ↔ commandRtn = true := by
  cases commandRtn with
  | false => simp [changeState, hcmd]
  | true => simp [changeState, hcmd]

/-- `changeState` reports success only for a command that was accepted. -/
theorem changeState_ok {cmd : TransitionCmd} {commandRtn value : Bool}
    (hok : changeState cmd commandRtn = .ok value) : commandRtn = true := by
  unfold changeState at hok
  split_ifs at hok
  assumption

/-! ### The records of the commands -/

section Records

variable {Thread : Type} {cycle : Cycle} {s t : CommandCalls Thread}

/-- Every record was made by a reachable machine whose first event was the command. -/
def ProcessedSound (cycle : Cycle) (s : CommandCalls Thread) : Prop :=
  ∀ origin record, s.processed origin = some record →
    ∃ before rest, (execution cycle).Reachable before ∧ before.phase = .idle ∧
      before.queue = ⟨.cmdEvent record.cmd, origin⟩ :: rest ∧
      record = before.processCommand cycle record.cmd

/-- The selection step records the command that it takes from the queue. -/
theorem processedSound_select (hmachine : (execution cycle).Reachable s.machine)
    (hs : ProcessedSound cycle s) {machine : Execution}
    (hnext : s.machine.select cycle = some machine) :
    ProcessedSound cycle { s.endSelectTransitions cycle with machine := machine } := by
  obtain ⟨-, -, hphase, -⟩ := select_queue hnext
  intro origin record hrecord
  rcases endSelectTransitions_processed hrecord with hold | ⟨cmd, rest, hqueue, rfl⟩
  · exact hs origin record hold
  · exact ⟨s.machine, rest, hmachine, hphase, hqueue, rfl⟩

variable [DecidableEq Thread]

/-- The machine of a reachable state of the calls is reachable. -/
theorem machine_reachable (hrun : (commandCalls cycle Thread).Reachable s) :
    (execution cycle).Reachable s.machine := by
  refine hrun.project CommandCalls.machine ?_ ?_
  · rintro s rfl
    rfl
  · intro s action t hnext
    rcases call_step_spec hnext with ⟨-, hsame | ⟨cmd, hpost⟩⟩ | ⟨step, -, hmove⟩
    · exact Or.inl hsame
    · exact Or.inr ⟨.post cmd, congrArg some hpost.symm⟩
    · obtain ⟨machine, hmachine, ⟨-, rfl⟩ | ⟨-, -, rfl⟩⟩ := machineStep_spec hmove
      · exact Or.inr ⟨step, hmachine⟩
      · exact Or.inr ⟨step, hmachine⟩

theorem processed_sound (hrun : (commandCalls cycle Thread).Reachable s) :
    ProcessedSound cycle s := by
  refine TransitionSystem.ReachableBy.invariant_of_reachable
    (fun s hs ↦ machine_reachable hs) ?_ ?_ hrun
  · rintro s rfl origin record hrecord
    cases hrecord
  · intro s action t hmachine hs _ hnext
    rcases call_step_spec hnext with ⟨hsame, -⟩ | ⟨step, -, hmove⟩
    · unfold ProcessedSound
      rw [hsame]
      exact hs
    · obtain ⟨machine, hselect, ⟨rfl, rfl⟩ | ⟨-, -, rfl⟩⟩ := machineStep_spec hmove
      · exact processedSound_select hmachine hs hselect
      · exact hs

end Records

/-! ### The accept flag -/

/-- ABORTING is the only PackML state in which no `CmdTransition` is tested. -/
theorem candidates_isCommand (cycle : Cycle) {state : State} (hstate : state ≠ .undefined) :
    ((candidates cycle state).any fun candidate ↦ candidate.2.kind.isCommand) =
      decide (state ≠ .aborting) := by
  rw [candidates_eq, transitions_generated]
  cases state <;> first | exact absurd rfl hstate | rfl

/-- A transition selected for a command carries it. -/
theorem selected_command {cycle : Cycle} {available : AvailableProperty} {state : State}
    {cmd : TransitionCmd} {source : PackmlState} {transition : PackmlTransition}
    (hselected : selected cycle available state (.cmdEvent cmd) = some (source, transition)) :
    transition.kind = .cmdTransition cmd := by
  have hfor := (selected_some hselected).2.1
  cases hkind : transition.kind with
  | cmdTransition carried =>
    rw [hkind] at hfor
    rw [of_decide_eq_true hfor]
  | stateCompleteTransition => simp [hkind, TransitionKind.isFor] at hfor
  | errorTransition => simp [hkind, TransitionKind.isFor] at hfor

/-- Nothing is selected for a command in ABORTING. -/
theorem selected_aborting (cycle : Cycle) (available : AvailableProperty) (cmd : TransitionCmd) :
    selected cycle available .aborting (.cmdEvent cmd) = none := by
  refine (selected_none_iff _ _ _ _).mpr fun target htarget ↦ ?_
  cases cmd <;> cases htarget

/-- The flag left behind by the tests of a command, outside ABORTING: whether something was
selected. -/
theorem accepted_eq_isSome (cycle : Cycle) (available : AvailableProperty) {state : State}
    (hstate : state ≠ .undefined) (haborting : state ≠ .aborting) (cmd : TransitionCmd) :
    (selectTransitions cycle available (chart.path state.generated) (.cmdEvent cmd)).2.accepted =
      (selected cycle available state (.cmdEvent cmd)).isSome := by
  rw [selectTransitions_accepted, candidates_isCommand cycle hstate]
  simp [haborting]

/-- ABORTING leaves the flag of a new event. -/
theorem accepted_aborting (cycle : Cycle) (available : AvailableProperty) (cmd : TransitionCmd) :
    (selectTransitions cycle available (chart.path State.aborting.generated)
      (.cmdEvent cmd)).2.accepted = true := by
  have haccepted := selectTransitions_accepted cycle available .aborting cmd
  rwa [candidates_isCommand cycle (by decide)] at haccepted

/-- The flag is false exactly when nothing was selected outside ABORTING. -/
theorem accepted_eq_false_iff (cycle : Cycle) (available : AvailableProperty) {state : State}
    (hstate : state ≠ .undefined) (cmd : TransitionCmd) :
    (selectTransitions cycle available (chart.path state.generated)
        (.cmdEvent cmd)).2.accepted = false ↔
      state ≠ .aborting ∧ selected cycle available state (.cmdEvent cmd) = none := by
  by_cases haborting : state = .aborting
  · subst haborting
    simp [accepted_aborting]
  · rw [accepted_eq_isSome cycle available hstate haborting]
    simp [haborting]

/-- The flag left behind by the tests of a command says whether a transition with the command was
selected, in every state but ABORTING. -/
theorem accepted_iff_selected (cycle : Cycle) (available : AvailableProperty) {state : State}
    (hstate : state ≠ .undefined) (cmd : TransitionCmd) :
    let tested := selectTransitions cycle available (chart.path state.generated) (.cmdEvent cmd)
    (tested.2.accepted = true ↔
        ∃ source transition, (source, transition) ∈ tested.1 ∧
          transition.kind = .cmdTransition cmd) ↔
      state ≠ .aborting := by
  intro tested
  have hselection : tested.1 = (selected cycle available state (.cmdEvent cmd)).toList :=
    selectTransitions_path cycle available state (.cmdEvent cmd)
  by_cases haborting : state = .aborting
  · subst haborting
    have htrue : tested.2.accepted = true := accepted_aborting cycle available cmd
    have hnone : tested.1 = [] := by
      rw [hselection, selected_aborting]
      rfl
    simp [htrue, hnone]
  · refine iff_of_true ?_ haborting
    rw [show tested.2.accepted = _ from accepted_eq_isSome cycle available hstate haborting cmd,
      hselection]
    constructor
    · intro hsome
      obtain ⟨⟨source, transition⟩, hselected⟩ := Option.isSome_iff_exists.mp hsome
      exact ⟨source, transition, by simp [hselected], selected_command hselected⟩
    · rintro ⟨source, transition, hmem, -⟩
      rw [Option.mem_toList.mp hmem]
      rfl

/-! ### A single caller -/

/-- A single caller finds all other threads settled. -/
theorem settledBeforeAssign_of_subsingleton {Thread : Type} [Subsingleton Thread]
    (s : CommandCalls Thread) (action : CallAction Thread) : SettledBeforeAssign s action := by
  cases action with
  | assign thread cmd => exact fun other hother ↦ absurd (Subsingleton.elim other thread) hother
  | _ => trivial

/-- The record of a command tells what the machine that processed it has tested: its verdict is
true exactly when a transition with the command was selected, outside ABORTING and only there. -/
theorem record_truthful_iff {cycle : Cycle} {before : Execution}
    (hbefore : (execution cycle).Reachable before) (hphase : before.phase = .idle)
    (cmd : TransitionCmd) :
    let record := before.processCommand cycle cmd
    (record.accepted = true ↔ ∃ source transition,
        (source, transition) ∈ record.selection ∧ transition.kind = .cmdTransition cmd) ↔
      State.aborting.generated ∉ chart.activeLeaves record.configuration := by
  intro record
  have hs := located_stateValue hbefore
  have hconfiguration : before.configuration = chart.path before.stateValue.generated :=
    hs.configuration_eq (by simp [hphase])
  have htested := accepted_iff_selected cycle before.gen.available hs.defined cmd
  rw [← hconfiguration] at htested
  have hleaves : State.aborting.generated ∉ chart.activeLeaves record.configuration ↔
      before.stateValue ≠ .aborting := by
    rw [show record.configuration = _ from hconfiguration, chart_activeLeaves_path]
    simp [eq_comm]
  exact htested.trans hleaves.symm

/-- The verdict that a single caller gets for a command is the accept flag in the record of its
event. It is true exactly when the record has selected a transition with the command, provided that
ABORTING was not the active leaf, and only then. The record was made by a machine that was idle and
had the event first in its queue, and `changeState` reports the verdict. -/
theorem verdict_truthful_iff {cycle : Cycle} {s : CommandCalls Unit}
    (hrun : (commandCalls cycle Unit).Reachable s) {cmd : TransitionCmd} {number : ℕ}
    {verdict : Bool} (hcmd : cmd ≠ .noCommand)
    (hreturned : s.threads () = .returned cmd number verdict) :
    ∃ record, s.processed (.command number) = some record ∧ record.cmd = cmd ∧
      record.accepted = verdict ∧
      (∃ before rest, (execution cycle).Reachable before ∧ before.phase = .idle ∧
        before.queue = ⟨.cmdEvent cmd, .command number⟩ :: rest ∧
        record = before.processCommand cycle cmd) ∧
      ((verdict = true ↔ ∃ source transition,
          (source, transition) ∈ record.selection ∧ transition.kind = .cmdTransition cmd) ↔
        State.aborting.generated ∉ chart.activeLeaves record.configuration) ∧
      (changeState cmd verdict = .ok true ↔ verdict = true) := by
  have hguarded := hrun.mono fun s action _ ↦ settledBeforeAssign_of_subsingleton s action
  obtain ⟨active, hinv⟩ := callInvariant_of_reachableBy hguarded
  obtain ⟨record, hrecord, rfl, rfl⟩ := hinv.verdict_of_returned hreturned
  obtain ⟨before, rest, hbefore, hphase, hqueue, hprocessed⟩ :=
    processed_sound hrun _ _ hrecord
  have htruthful := record_truthful_iff hbefore hphase record.cmd
  rw [← hprocessed] at htruthful
  exact ⟨record, hrecord, rfl, rfl, ⟨before, rest, hbefore, hphase, hqueue, hprocessed⟩,
    htruthful, changeState_eq_ok_iff hcmd _⟩

/-- A call of CLEAR in ABORTED. -/
def clearCall : List (CallAction Unit) :=
  [.machine (.changeMode .manual), .machine .modeSwitched, .machine .notified,
    .assign () .clear, .post (), .takeFuture (), .machine .select, .wait ()]

theorem verdict_truthful_iff_clearCall :
    ∃ s, (commandCalls .singleCycle Unit).runFrom .activated clearCall = some s ∧
      s.threads () = .returned .clear 0 true ∧
      ∃ record, s.processed (.command 0) = some record ∧
        record.configuration = [State.aborted.generated] ∧
        ∃ source transition, (source, transition) ∈ record.selection ∧
          transition.kind = .cmdTransition .clear := by
  have hend : ((commandCalls .singleCycle Unit).runFrom .activated clearCall).map
      (fun s ↦ (s.threads (), (s.processed (.command 0)).map ProcessedCommand.configuration)) =
      some (.returned .clear 0 true, some [State.aborted.generated]) := rfl
  obtain ⟨s, hrun, hs⟩ := Option.map_eq_some_iff.mp hend
  obtain ⟨hreturned, hconfiguration⟩ := Prod.mk.injEq .. ▸ hs
  obtain ⟨record, hrecord, -, -, -, htruthful, -⟩ := verdict_truthful_iff
    (TransitionSystem.reachable_of_runFrom (.initial rfl) clearCall hrun) (by decide) hreturned
  have haborted : record.configuration = [State.aborted.generated] := by
    rw [hrecord] at hconfiguration
    exact Option.some.inj hconfiguration
  have hselected := htruthful.mpr (by rw [haborted]; decide)
  exact ⟨s, hrun, hreturned, record, hrecord, haborted, hselected.mp rfl⟩

/-- A call of START in ABORTING, which CLEARING was left for by ABORT. -/
def abortingCall : List (CallAction Unit) :=
  clearCall ++
    [.machine .leave, .machine .enter, .machine .notified,
      .assign () .abort, .post (), .takeFuture (), .machine .select, .wait (),
      .machine (.finish ⟨.clearing, 0⟩ 1), .machine .leave, .machine .enter, .machine .notified,
      .machine .select, .assign () .start, .post (), .takeFuture (), .machine .select, .wait ()]

/-- START returns true in ABORTING, `changeState` reports success, and nothing was selected. -/
theorem command_in_aborting_succeeds :
    ∃ s, (commandCalls .singleCycle Unit).runFrom .activated abortingCall = some s ∧
      s.threads () = .returned .start 2 true ∧ changeState .start true = .ok true ∧
      ∃ record, s.processed (.command 2) = some record ∧ record.cmd = .start ∧
        record.configuration = [State.aborting.generated] ∧ record.selection = [] := by
  have hend : ((commandCalls .singleCycle Unit).runFrom .activated abortingCall).map
      (fun s ↦ (s.threads (), (s.processed (.command 2)).map fun record ↦
        (record.cmd, record.configuration, record.selection))) =
      some (.returned .start 2 true, some (.start, [State.aborting.generated], [])) := rfl
  obtain ⟨s, hrun, hs⟩ := Option.map_eq_some_iff.mp hend
  obtain ⟨hreturned, hprocessed⟩ := Prod.mk.injEq .. ▸ hs
  obtain ⟨record, hrecord, hfields⟩ := Option.map_eq_some_iff.mp hprocessed
  simp only [Prod.mk.injEq] at hfields
  exact ⟨s, hrun, hreturned, rfl, record, hrecord, hfields⟩

end PackML
