import PackML.Execution.InstalledMode
import PackML.Plugin.OperatorPanel

/-!
# The commands of the panel

A button can be pressed while it is enabled. Its command travels to the node, which handles it when
it is its turn: the method of the command posts it to the machine, and returns the verdict
(`PressInvariant`). `presses_answered` compares the verdict with what the panel showed when the
button was pressed: a command is refused only when the machine has left that state, or when it has
no mode.
-/

set_option autoImplicit false
set_option relaxedAutoImplicit false

namespace PackML

/-! ### Statements -/

/-- The command of a call. -/
def CallPhase.cmd : CallPhase → Option TransitionCmd
  | .idle => none
  | .assigned cmd | .posted cmd _ | .waiting cmd _ _ | .returned cmd _ _ | .failed cmd _ => some cmd

/-- The handler calls the method of its command. -/
def CallsOwn (s : CommandServer) : Prop :=
  ∀ service command cmd, s.handler = .calling service command cmd →
    (s.calls.threads ()).cmd = some cmd

/-- The node handles the command of a press. -/
def Serving (s : CommandServer) (press : Press) : Prop :=
  s.handler = .starting .transition press.cmd.request press.cmd ∨
    s.handler = .calling .transition press.cmd.request press.cmd

/-- The button that was pressed was enabled, and it belongs to a command. -/
structure Press.Offered (press : Press) : Prop where
  enabled : press.panel.enabled press.cmd = true
  command : press.cmd ≠ .noCommand

/-- What was answered to a press is the verdict of an idle machine on its command. -/
structure AnswerSound (cycle : Cycle) (answered : AnsweredPress) : Prop where
  offered : answered.press.Offered
  record : ∃ before : Execution, (execution cycle).Reachable before ∧ before.phase = .idle ∧
    answered.record = some (before.processCommand cycle answered.press.cmd) ∧
      answered.verdict = (before.processCommand cycle answered.press.cmd).accepted

/-- Buttons were enabled when they were pressed, the node handles what it is said to, and the
answers are those of the machine. -/
structure PressInvariant (cycle : Cycle) (s : OperatorPanel) : Prop where
  presses : ∀ press ∈ s.presses, press.Offered
  serving : ∀ press, s.serving = some press → press.Offered ∧ Serving s.server press
  answered : ∀ answered ∈ s.answered, AnswerSound cycle answered

section Presses

variable {cycle : Cycle}

/-- A statement of a call, other than its first one, and the steps of the machine leave the command
of the call. -/
theorem callCmd_step {calls next : CommandCalls Unit} {action : CallAction Unit}
    (hassign : ∀ cmd, action ≠ .assign () cmd)
    (hnext : (commandCalls cycle Unit).next calls action = some next) :
    (next.threads ()).cmd = (calls.threads ()).cmd := by
  obtain ⟨-, hnext⟩ := Option.ite_none_left_eq_some.mp hnext
  cases action with
  | assign thread cmd => exact absurd rfl (hassign cmd)
  | post thread =>
    obtain ⟨cmd, hphase, rfl⟩ := post_spec hnext
    simp [hphase, CallPhase.cmd]
  | takeFuture thread =>
    obtain ⟨cmd, number, hphase, ⟨future, prom, -, rfl⟩ | ⟨error, -, rfl⟩⟩ := takeFuture_spec hnext
    · simp [hphase, CallPhase.cmd]
    · simp [hphase, CallPhase.cmd]
  | wait thread =>
    obtain ⟨cmd, number, future, hphase, ⟨verdict, -, rfl⟩ | ⟨error, -, rfl⟩⟩ := wait_spec hnext
    · simp [hphase, CallPhase.cmd]
    · simp [hphase, CallPhase.cmd]
  | machine step => rw [machineStep_threads hnext]

/-- What a statement of the call does to the handler. -/
theorem after_cases {handler : ServerPhase} {action : CallAction Unit}
    (hpermits : handler.permits action = true) :
    (∃ service command cmd, action = .assign () cmd ∧ handler = .starting service command cmd ∧
        handler.after action = .calling service command cmd) ∨
      ((∀ cmd, action ≠ .assign () cmd) ∧ handler.after action = handler) := by
  cases action with
  | assign thread cmd =>
    cases handler with
    | starting service command called =>
      obtain rfl : called = cmd := of_decide_eq_true hpermits
      exact Or.inl ⟨service, command, called, rfl, rfl, rfl⟩
    | _ => cases hpermits
  | _ => exact Or.inr ⟨nofun, rfl⟩

theorem callsOwn_step {s t : CommandServer} (hbase : ServerBase cycle s) (hs : CallsOwn s)
    {action : CommandAction}
    (hnext : (commandServices cycle).next s action = some t) : CallsOwn t := by
  intro service command cmd hhandler
  cases action with
  | request service' command' =>
    obtain ⟨-, -, ⟨response, rfl⟩ | ⟨-, rfl⟩⟩ := server_request_spec hnext
    · cases hhandler
    · cases hhandler
  | call action =>
    obtain ⟨hpermits, calls, hcalls, rfl⟩ := server_call_spec hnext
    rcases after_cases hpermits with ⟨service', command', called, rfl, -, hafter⟩ | ⟨hother, hafter⟩
    · obtain ⟨rfl, rfl, rfl⟩ := ServerPhase.calling.inj (hafter.symm.trans hhandler)
      obtain ⟨-, hassign⟩ := Option.ite_none_left_eq_some.mp hcalls
      obtain ⟨-, rfl⟩ := assign_spec hassign
      simp [CallPhase.cmd]
    · rw [callCmd_step hother hcalls]
      exact hs service command cmd (hafter ▸ hhandler)
  | returned =>
    obtain ⟨_, _, _, _, _, _, -, -, ⟨-, -, rfl⟩ | ⟨-, response, rfl⟩⟩ :=
      server_returned_spec hbase hnext
    · cases hhandler
    · cases hhandler
  | takeChanged =>
    obtain ⟨command', -, ⟨future, prom, -, rfl⟩ | ⟨error, rfl⟩⟩ := server_takeChanged_spec hnext
    · cases hhandler
    · cases hhandler
  | awaitChanged =>
    have hnext : s.awaitChanged = some t := hnext
    rw [awaitChanged_eq_none hbase.pending] at hnext
    cases hnext

theorem callsOwn_of_reachable {s : CommandServer} (hrun : (commandServices cycle).Reachable s) :
    CallsOwn s := by
  refine TransitionSystem.ReachableBy.invariant_of_reachable
    (fun s hs ↦ serverBase_of_reachable hs) ?_ ?_ hrun
  · rintro s rfl service command cmd hhandler
    cases hhandler
  · intro s action t hbase hs _ hnext
    exact callsOwn_step hbase hs hnext

/-- A command of the panel that the node takes is handled by its method. -/
theorem serving_request {s t : CommandServer} {press : Press}
    (hcmd : press.cmd ≠ .noCommand)
    (hnext : s.request .transition press.cmd.request = some t) : Serving t press := by
  obtain ⟨hhandler, hswitching, -⟩ := server_request_spec hnext
  rcases request_eq hhandler hswitching .transition press.cmd.request with
    ⟨hnone, -⟩ | ⟨-, hrequest⟩
  · exact absurd ((toTransitionCmd_request press.cmd).symm.trans hnone) hcmd
  · rw [toTransitionCmd_request] at hrequest
    obtain rfl := Option.some.inj (hnext.symm.trans hrequest)
    exact Or.inl rfl

/-- Until its method has returned, a command stays the one that is handled. -/
theorem Serving.step {s t : CommandServer} {press : Press} (hs : Serving s press)
    {action : CommandAction} (haction : action ≠ .returned)
    (hnext : (commandServices cycle).next s action = some t) : Serving t press := by
  cases action with
  | request service command =>
    obtain ⟨hidle, -⟩ := server_request_spec hnext
    rcases hs with hhandler | hhandler <;> simp [hidle] at hhandler
  | call action =>
    obtain ⟨hpermits, calls, -, rfl⟩ := server_call_spec hnext
    rcases after_cases hpermits with ⟨service, command, cmd, -, hstarting, hafter⟩ | ⟨-, hafter⟩
    · rcases hs with hhandler | hhandler
      · obtain ⟨rfl, rfl, rfl⟩ := ServerPhase.starting.inj (hstarting.symm.trans hhandler)
        exact Or.inr hafter
      · simp [hstarting] at hhandler
    · exact hs.imp hafter.trans hafter.trans
  | returned => exact absurd rfl haction
  | takeChanged =>
    obtain ⟨command, htaking, -⟩ := server_takeChanged_spec hnext
    rcases hs with hhandler | hhandler <;> simp [htaking] at hhandler
  | awaitChanged =>
    obtain ⟨command, future, hwaiting⟩ := awaitChanged_enabled hnext
    rcases hs with hhandler | hhandler <;> simp [hwaiting] at hhandler

/-- The answer to a press is the verdict of the machine. -/
theorem answerSound_of_serving {s : OperatorPanel}
    (hserver : (commandServices cycle).Reachable s.server) {press : Press}
    (hpress : press.Offered) (hserving : Serving s.server press)
    {number : ℕ} {verdict : Bool} (hreturned : s.server.returnedCall = some (number, verdict)) :
    AnswerSound cycle ⟨press, verdict, s.server.calls.processed (.command number)⟩ := by
  have hbase := serverBase_of_reachable hserver
  unfold CommandServer.returnedCall at hreturned
  split at hreturned
  · rename_i service command cmd called number' verdict' hhandler hthread
    obtain ⟨rfl, rfl⟩ : number' = number ∧ verdict' = verdict := by simpa using hreturned
    have hcmd : press.cmd = cmd := by
      rcases hserving with hserving | hserving
      · cases hserving.symm.trans hhandler
      · exact (ServerPhase.calling.inj (hserving.symm.trans hhandler)).2.2
    have hown := callsOwn_of_reachable hserver service command cmd hhandler
    obtain rfl : called = cmd := by simpa [hthread, CallPhase.cmd] using hown
    obtain ⟨active, hcalls⟩ := callInvariant_of_single hbase.calls
    obtain ⟨record, hrecord, rfl, rfl⟩ := hcalls.verdict_of_returned hthread
    obtain ⟨before, rest, hbefore, hphase, -, hprocessed⟩ :=
      processed_sound hbase.calls _ _ hrecord
    refine ⟨hpress, before, hbefore, hphase, ?_, ?_⟩
    · rw [hcmd, ← hprocessed]
      exact hrecord
    · rw [hcmd, ← hprocessed]
  · cases hreturned

/-- A button that is enabled belongs to a command. -/
theorem DisplayInvariant.offered {s : OperatorPanel} (hs : DisplayInvariant s) {cmd : TransitionCmd}
    (henabled : s.panel.enabled cmd = true) : (Press.mk cmd s.panel).Offered := by
  refine ⟨henabled, ?_⟩
  rintro rfl
  rcases hs.panel with hsetup | hblank | ⟨state, -, hshows⟩
  · simp [hsetup, PackmlPanel.setupUi] at henabled
  · simp [hblank.enabled] at henabled
  · simp [hshows.enabled, flatCommand] at henabled

section Invariant

variable {s t : OperatorPanel}

/-- The presses stay what they are when the node is not involved. -/
theorem PressInvariant.frame (hs : PressInvariant cycle s) (hserver : t.server = s.server)
    (hpresses : t.presses = s.presses) (hserving : t.serving = s.serving)
    (hanswered : t.answered = s.answered) : PressInvariant cycle t := by
  refine ⟨hpresses ▸ hs.presses, fun press hpress ↦ ?_, hanswered ▸ hs.answered⟩
  rw [hserver]
  exact hs.serving press (hserving ▸ hpress)

theorem pressInvariant_server (hserver : (commandServices cycle).Reachable s.server)
    (hs : PressInvariant cycle s) {action : CommandAction}
    (hnext : s.serverStep cycle action = some t) : PressInvariant cycle t := by
  obtain ⟨server, hstep, rfl⟩ := serverStep_spec hnext
  refine ⟨hs.presses, fun press hpress ↦ ?_, fun answered hmem ↦ ?_⟩
  · obtain ⟨haction, hserving⟩ := Option.ite_none_left_eq_some.mp hpress
    obtain ⟨hoffered, hhandled⟩ := hs.serving press hserving
    exact ⟨hoffered, hhandled.step haction hstep⟩
  · rcases List.mem_append.mp hmem with hold | hnew
    · exact hs.answered answered hold
    · unfold OperatorPanel.newlyAnswered at hnew
      split at hnew
      · split at hnew
        · rename_i press call hserving hreturned
          obtain rfl := List.mem_singleton.mp hnew
          obtain ⟨hoffered, hhandled⟩ := hs.serving press hserving
          exact answerSound_of_serving hserver hoffered hhandled hreturned
        · cases hnew
      · cases hnew

theorem pressInvariant_step (hrun : (operatorPanel cycle).Reachable s)
    (hs : PressInvariant cycle s) {action : PanelAction}
    (hnext : (operatorPanel cycle).next s action = some t) : PressInvariant cycle t := by
  cases action with
  | timerEvent =>
    obtain ⟨-, rfl⟩ := timerEvent_spec hnext
    exact hs.frame rfl rfl rfl rfl
  | timedOut =>
    obtain rfl := timedOut_spec hnext
    exact hs.frame rfl rfl rfl rfl
  | received index =>
    obtain ⟨number, response, -, -, ⟨-, rfl⟩ | rfl⟩ := received_spec hnext
    · exact hs.frame rfl rfl rfl rfl
    · exact hs.frame rfl rfl rfl rfl
  | pressed cmd =>
    obtain ⟨henabled, rfl⟩ := pressed_spec hnext
    refine ⟨fun press hpress ↦ ?_, hs.serving, hs.answered⟩
    rcases List.mem_append.mp hpress with hold | hnew
    · exact hs.presses press hold
    · obtain rfl := List.mem_singleton.mp hnew
      exact (displayInvariant_of_reachable hrun).offered henabled
  | statusRequest =>
    obtain ⟨number, rest, -, rfl⟩ := statusRequest_spec hnext
    exact hs.frame rfl rfl rfl rfl
  | onAllStatus =>
    obtain ⟨number, rest, -, rfl⟩ := onAllStatus_spec hnext
    exact hs.frame rfl rfl rfl rfl
  | transRequest =>
    obtain ⟨press, rest, server, hqueue, hserver, rfl⟩ := transRequest_spec hnext
    have hpresses := hs.presses
    rw [hqueue] at hpresses
    have hoffered := hpresses press List.mem_cons_self
    refine ⟨fun other hother ↦ hpresses other (List.mem_cons_of_mem _ hother),
      fun other hother ↦ ?_,
      hs.answered⟩
    obtain rfl := Option.some.inj hother
    exact ⟨hoffered, serving_request hoffered.command hserver⟩
  | server action => exact pressInvariant_server (panelServer_reachable hrun) hs hnext

theorem pressInvariant_of_reachable (hrun : (operatorPanel cycle).Reachable s) :
    PressInvariant cycle s := by
  refine TransitionSystem.ReachableBy.invariant_of_reachable (fun s hs ↦ hs) ?_ ?_ hrun
  · rintro s rfl
    exact ⟨nofun, nofun, nofun⟩
  · intro s action t hs hinv _ hnext
    exact pressInvariant_step hs hinv hnext

end Invariant

/-- With a mode, the machine selects the transition of a command of the flat table. -/
theorem processCommand_of_moded (cycle : Cycle) {before : Execution} (hmoded : Moded before)
    {state : State} {cmd : TransitionCmd} {target : State}
    (hflat : flatCommand cmd state = some target)
    (hconfiguration : before.configuration = chart.path state.generated) :
    (before.processCommand cycle cmd).accepted = true ∧
      (before.processCommand cycle cmd).selection.map (fun entry ↦ entry.2.targetState) =
        [target.generated] := by
  have hdefined : state ≠ .undefined := by
    rintro rfl
    cases cmd <;> cases hflat
  have haborting : state ≠ .aborting := by
    rintro rfl
    cases cmd <;> cases hflat
  have hcompleting : target ≠ .completing := by
    rintro rfl
    cases cmd <;> simp [flatCommand] at hflat
  have havailable := hmoded.toBool
    (flatTarget_ne_undefined (show flatTarget cycle state (.cmdEvent cmd) = some target from hflat))
    hcompleting
  have htarget : (selected cycle before.gen.available state (.cmdEvent cmd)).map
      (fun entry ↦ entry.2.targetState) = some target.generated := by
    rw [selected_target, flatTarget, hflat, Option.map_some, Option.filter_some, if_pos havailable]
  obtain ⟨entry, hselected, hentry⟩ := Option.map_eq_some_iff.mp htarget
  simp only [Execution.processCommand, hconfiguration]
  refine ⟨?_, ?_⟩
  · rw [accepted_eq_isSome cycle _ hdefined haborting, hselected]
    rfl
  · rw [selectTransitions_path, hselected, Option.toList_some, List.map_singleton, hentry]

/-- Every answer to a press is the verdict of the machine on its command. When the panel showed a
state, the machine was in this state and had a mode, the command was accepted and its transition
begun; so it is refused only when the machine has left the state that was shown, or has no mode. -/
theorem presses_answered {s : OperatorPanel} (hrun : (operatorPanel cycle).Reachable s)
    {answered : AnsweredPress} (hmem : answered ∈ s.answered) :
    ∃ record, answered.record = some record ∧ record.cmd = answered.press.cmd ∧
      record.accepted = answered.verdict ∧
      ∀ state, answered.press.panel.Shows state →
        record.configuration = chart.path state.generated →
        record.available ≠ StatesGenerator.initial.available →
          answered.verdict = true ∧ ∃ target, flatCommand answered.press.cmd state = some target ∧
            record.selection.map (fun entry ↦ entry.2.targetState) = [target.generated] := by
  obtain ⟨hoffered, before, hbefore, hphase, hrecord, hverdict⟩ :=
    (pressInvariant_of_reachable hrun).answered answered hmem
  refine ⟨_, hrecord, rfl, hverdict.symm, fun state hshows hconfiguration havailable ↦ ?_⟩
  have hflat := hoffered.enabled
  rw [hshows.enabled] at hflat
  obtain ⟨target, hflat⟩ := Option.isSome_iff_exists.mp hflat
  have hmoded : Moded before := by
    refine (moded_of_reachable hbefore).resolve_left fun hunmoded ↦ havailable ?_
    exact congrArg StatesGenerator.available hunmoded.gen
  obtain ⟨haccepted, hselection⟩ := processCommand_of_moded cycle hmoded hflat hconfiguration
  exact ⟨hverdict.trans haccepted, target, hflat, hselection⟩

end Presses

/-! ### A run -/

theorem presses_answered_clearPressed :
    ∃ s answered, (operatorPanel .singleCycle).runFrom .created clearPressed = some s ∧
      s.answered = [answered] ∧ answered.press.cmd = .clear ∧
      answered.press.panel.Shows .aborted ∧ answered.verdict = true ∧
      ∃ record target, answered.record = some record ∧ record.cmd = .clear ∧
        record.accepted = answered.verdict ∧ flatCommand .clear .aborted = some target ∧
          record.selection.map (fun entry ↦ entry.2.targetState) = [target.generated] := by
  have hend : ((operatorPanel .singleCycle).runFrom .created clearPressed).map
      (fun s ↦ s.answered.map fun answered ↦ (answered.press.cmd, answered.press.panel,
        answered.record.map fun record ↦
          (record.configuration, record.available State.aborted.generated))) =
      some [(.clear, PackmlPanel.setupUi.update (statusRequest (fun _ ↦ 0) .aborted).2,
        some (chart.path State.aborted.generated, some true))] := rfl
  obtain ⟨s, hrun, hs⟩ := Option.map_eq_some_iff.mp hend
  obtain ⟨answered, hanswered, hfields⟩ := List.map_eq_singleton_iff.mp hs
  simp only [Prod.mk.injEq] at hfields
  obtain ⟨hcmd, hpanel, hfields⟩ := hfields
  have hshows : answered.press.panel.Shows .aborted := hpanel ▸ shows_update _ (by decide)
  obtain ⟨record, hrecord, hsame, haccepted, htruthful⟩ := presses_answered
    (TransitionSystem.reachable_of_runFrom (.initial rfl) _ hrun)
    (show answered ∈ s.answered by simp [hanswered])
  rw [hrecord, Option.map_some, Option.some.injEq, Prod.mk.injEq] at hfields
  have hmoded : record.available ≠ StatesGenerator.initial.available := by
    intro hinitial
    rw [hinitial] at hfields
    exact absurd hfields.2 (by decide)
  obtain ⟨hverdict, target, hflat, hselection⟩ := htruthful .aborted hshows hfields.1 hmoded
  exact ⟨s, answered, hrun, hanswered, hcmd, hshows, hverdict, record, target, hrecord,
    hsame.trans hcmd, haccepted, hcmd ▸ hflat, hselection⟩

end PackML
