import PackML.Manager.ChangeState

/-!
# Answers after the entry of the target

`OriginsNumbered` and `ServiceBase` hold in every run: a command in transit or entered has been
posted, a command whose processing selected a transition is in transit until its target is entered,
and the handler goes on to `changed_prom_` only for a command that was accepted. `PromiseInvariant`
holds along the runs in which the handler takes the promise of the target of its command: the
promise it is about to take is fresh, and the promise it waits for is or will be satisfied.
`answers_after_entry` follows.
-/

set_option autoImplicit false
set_option relaxedAutoImplicit false

namespace PackML

/-! ### The numbers of commands -/

/-- Commands in the queue and in transit have been posted. -/
structure OriginsNumbered (s : Execution) : Prop where
  queue : ∀ posted ∈ s.queue, ∀ number, posted.origin = .command number → number < s.commands
  transit : ∀ number, s.phase.inTransit (.command number) = true → number < s.commands

section

variable {cycle : Cycle}

theorem originsNumbered_step {s t : Execution} (hlocated : Located cycle s s.stateValue)
    (hs : OriginsNumbered s) {action : Action} (hnext : (execution cycle).next s action = some t) :
    OriginsNumbered t := by
  cases action with
  | post cmd =>
    obtain rfl := Option.some.inj hnext
    constructor
    · intro posted hposted number horigin
      rcases List.mem_append.mp hposted with hold | hnew
      · exact Nat.lt_succ_of_lt (hs.queue posted hold number horigin)
      · obtain rfl := List.mem_singleton.mp hnew
        obtain rfl := Origin.command.inj horigin
        exact Nat.lt_succ_self _
    · intro number htransit
      exact Nat.lt_succ_of_lt (hs.transit number htransit)
  | finish activation code =>
    obtain ⟨-, rfl⟩ := finish_spec hnext
    refine ⟨fun posted hposted number horigin ↦ ?_, hs.transit⟩
    rcases List.mem_append.mp hposted with hold | hnew
    · exact hs.queue posted hold number horigin
    · obtain rfl := List.mem_singleton.mp hnew
      cases horigin
  | select =>
    obtain ⟨event, rest, hphase, hqueue, hselect⟩ := select_spec hlocated hnext
    have hrest : ∀ posted ∈ rest, ∀ number, posted.origin = .command number →
        number < s.commands := fun posted hposted ↦
      hs.queue posted (hqueue ▸ List.mem_cons_of_mem _ hposted)
    rcases hselect with ⟨-, rfl⟩ | ⟨source, transition, -, rfl⟩
    · exact ⟨hrest, hs.transit⟩
    · refine ⟨hrest, fun number htransit ↦ ?_⟩
      exact hs.queue event (hqueue ▸ List.mem_cons_self) number (of_decide_eq_true htransit)
  | leave =>
    obtain ⟨event, source, transition, target, hphase, -, -, rfl⟩ := leave_spec hlocated hnext
    refine ⟨hs.queue, fun number htransit ↦ hs.transit number ?_⟩
    rw [hphase]
    exact htransit
  | enter =>
    obtain ⟨event, source, transition, target, -, -, rfl⟩ := enter_spec hlocated hnext
    exact ⟨hs.queue, fun number htransit ↦ by cases htransit⟩
  | notified =>
    obtain ⟨-, ⟨-, rfl⟩ | ⟨-, rfl⟩⟩ := notified_spec hlocated hnext
    · exact ⟨hs.queue, fun number htransit ↦ by cases htransit⟩
    · exact ⟨hs.queue, fun number htransit ↦ by cases htransit⟩
  | changeMode mode =>
    obtain ⟨-, ⟨-, rfl⟩ | ⟨-, rfl⟩⟩ := changeMode_spec hnext
    · exact ⟨hs.queue, hs.transit⟩
    · exact hs
  | modeSwitched =>
    obtain ⟨mode, -, rfl⟩ := modeSwitched_spec hnext
    exact ⟨hs.queue, hs.transit⟩

theorem originsNumbered_of_reachable {s : Execution} (hrun : (execution cycle).Reachable s) :
    OriginsNumbered s := by
  refine TransitionSystem.ReachableBy.invariant_of_reachable
    (fun s hs ↦ located_stateValue hs) ?_ ?_ hrun
  · rintro s rfl
    constructor
    · intro posted hposted
      cases hposted
    · intro number htransit
      cases htransit
  · intro s action t hlocated hs _ hnext
    exact originsNumbered_step hlocated hs hnext

/-! ### All runs of the service -/

/-- What holds in every run: the calls are those of a single caller, `changed_prom_` is worked on
only while a state is being announced, a command that selected a transition is in transit until its
target is entered, and the handler is past the call only of an accepted command. -/
structure ServiceBase (cycle : Cycle) (s : StateService) : Prop where
  calls : (commandCalls cycle Unit).Reachable s.calls
  stage : s.stage ≠ .announced → ∃ state, s.machine.phase = .notifying state
  numbered : ∀ number, .command number ∈ s.entered → number < s.machine.commands
  carriedOut : ∀ number record, s.calls.processed (.command number) = some record →
    record.selection ≠ [] →
      s.machine.phase.inTransit (.command number) = true ∨ .command number ∈ s.entered
  taking : ∀ cmd number, s.handler = .taking cmd number →
    ∃ called, s.calls.threads () = .returned called number true

variable {s t : StateService}

/-- A step that is not one of the calls or of the machine keeps what holds in every run, when it
does not begin to announce a state. -/
theorem ServiceBase.frame (hs : ServiceBase cycle s) (hcalls : t.calls = s.calls)
    (hentered : t.entered = s.entered)
    (hstage : t.stage ≠ .announced → s.stage ≠ .announced)
    (htaking : ∀ cmd number, t.handler = .taking cmd number →
      ∃ called, s.calls.threads () = .returned called number true) : ServiceBase cycle t := by
  obtain ⟨hrun, hold, hnumbered, hcarried, -⟩ := hs
  refine ⟨hcalls ▸ hrun, fun hwork ↦ ?_, ?_, ?_, hcalls ▸ htaking⟩
  · rw [StateService.machine, hcalls]
    exact hold (hstage hwork)
  · rw [StateService.machine, hcalls, hentered]
    exact hnumbered
  · rw [StateService.machine, hcalls, hentered]
    exact hcarried

/-- The number of commands posted does not decrease. -/
theorem commands_le_step {s t : Execution} {action : Action}
    (hnext : (execution cycle).next s action = some t) : s.commands ≤ t.commands := by
  by_cases hselect : action = .select
  · subst hselect
    obtain ⟨event, rest, -, -, -, hcommands⟩ := select_queue hnext
    exact Nat.le_of_eq hcommands.symm
  · by_cases hpost : ∃ cmd, action = .post cmd
    · obtain ⟨cmd, rfl⟩ := hpost
      obtain rfl := Option.some.inj hnext
      exact Nat.le_succ _
    · have hsame := queuedCommands_step (fun cmd h ↦ hpost ⟨cmd, h⟩) hselect hnext
      exact Nat.le_of_eq hsame.2.symm

/-- A handler that is past its call stays there while the call or the machine moves. -/
theorem taking_call (hs : ServiceBase cycle s) {action : CallAction Unit}
    {calls : CommandCalls Unit} (hpermits : s.permits action = true)
    (hnext : (commandCalls cycle Unit).next s.calls action = some calls) :
    ∀ cmd number, s.handlerAfter action = .taking cmd number →
      ∃ called, calls.threads () = .returned called number true := by
  intro cmd number hhandler
  have hold : s.handler = .taking cmd number := by
    cases action with
    | assign thread other => cases hhandler
    | _ => exact hhandler
  obtain ⟨called, hthread⟩ := hs.taking cmd number hold
  have hassign : ∀ other, action ≠ .assign () other := by
    rintro other rfl
    have hstarting := of_decide_eq_true hpermits
    rw [hold] at hstarting
    cases hstarting
  obtain ⟨step, rfl⟩ := machine_of_atRest (by rw [hthread]; rfl) hassign hnext
  obtain ⟨-, hmove⟩ := Option.ite_none_left_eq_some.mp hnext
  rw [machineStep_threads hmove]
  exact ⟨called, hthread⟩

/-- A step that keeps the phase of the machine and the records keeps what holds in every run. -/
theorem ServiceBase.call_frame (hs : ServiceBase cycle s) {action : CallAction Unit}
    {calls : CommandCalls Unit} (hpermits : s.permits action = true)
    (hnext : (commandCalls cycle Unit).next s.calls action = some calls)
    (hphase : calls.machine.phase = s.machine.phase)
    (hcommands : s.machine.commands ≤ calls.machine.commands)
    (hprocessed : calls.processed = s.calls.processed) (henter : action ≠ .machine .enter) :
    ServiceBase cycle { s with
      calls := calls
      stage := s.stageAfter action
      handler := s.handlerAfter action
      entered := s.enteredAfter action } := by
  obtain ⟨hstage, hentered⟩ := after_of_ne_enter (s := s) henter
  rw [hstage, hentered]
  refine ⟨hs.calls.step hnext, fun hwork ↦ ?_, fun number hmem ↦ ?_, fun number record hrecord ↦ ?_,
    taking_call hs hpermits hnext⟩
  · obtain ⟨state, hnotifying⟩ := hs.stage hwork
    exact ⟨state, hphase.trans hnotifying⟩
  · exact Nat.lt_of_lt_of_le (hs.numbered number hmem) hcommands
  · rw [hprocessed] at hrecord
    rw [StateService.machine, hphase]
    exact hs.carriedOut number record hrecord

/-- A command for which the selection step selects a transition is in transit afterwards. -/
theorem serviceBase_select (hs : ServiceBase cycle s) {machine : Execution}
    (hpermits : s.permits (.machine .select) = true)
    (hcalls : (commandCalls cycle Unit).next s.calls (.machine .select) =
      some { s.calls.endSelectTransitions cycle with machine := machine })
    (hnext : s.machine.select cycle = some machine) :
    ServiceBase cycle
      { s with calls := { s.calls.endSelectTransitions cycle with machine := machine } } := by
  have hlocated := located_stateValue (machine_reachable hs.calls)
  obtain ⟨event, rest, hphase, hqueue, hselect⟩ := select_spec hlocated hnext
  refine ⟨hs.calls.step hcalls, fun hwork ↦ ?_, fun number hmem ↦ ?_,
    fun number record hrecord hselection ↦ ?_, taking_call hs hpermits hcalls⟩
  · obtain ⟨state, hnotifying⟩ := hs.stage hwork
    rw [hphase] at hnotifying
    cases hnotifying
  · have hselected : (execution cycle).next s.calls.machine .select = some machine := hnext
    exact Nat.lt_of_lt_of_le (hs.numbered number hmem) (commands_le_step hselected)
  · rcases endSelectTransitions_processed hrecord with hold | ⟨cmd, tail, hfirst, rfl⟩
    · have hbefore := hs.carriedOut number record hold hselection
      rw [hphase] at hbefore
      exact Or.inr (hbefore.resolve_left (by simp [Phase.inTransit]))
    · obtain ⟨rfl, -⟩ := List.cons.inj (hqueue.symm.trans hfirst)
      rcases hselect with ⟨hnone, -⟩ | ⟨source, transition, -, rfl⟩
      · refine absurd ?_ hselection
        have hconfiguration := hlocated.configuration_eq (by simp [hphase])
        simp only [Execution.processCommand, hconfiguration, selectTransitions_path]
        rw [hnone]
        rfl
      · exact Or.inl (decide_eq_true rfl)

/-- The steps of the Qt thread that carry out a transition keep the command in transit until its
target is entered. -/
theorem serviceBase_move (hs : ServiceBase cycle s) {step : Action} {machine : Execution}
    (hpermits : s.permits (.machine step) = true)
    (hcalls : (commandCalls cycle Unit).next s.calls (.machine step) =
      some { s.calls with machine := machine })
    (hnext : (execution cycle).next s.machine step = some machine)
    (hmoves : step = .leave ∨ step = .enter ∨ step = .notified) :
    ServiceBase cycle { s with
      calls := { s.calls with machine := machine }
      stage := s.stageAfter (.machine step)
      entered := s.enteredAfter (.machine step) } := by
  have hmachine := machine_reachable hs.calls
  have hlocated := located_stateValue hmachine
  have hcommands := commands_le_step hnext
  have htaking : ∀ cmd number, s.handler = .taking cmd number →
      ∃ called, s.calls.threads () = .returned called number true := hs.taking
  rcases hmoves with rfl | rfl | rfl
  · obtain ⟨event, source, transition, target, hphase, -, -, rfl⟩ := leave_spec hlocated hnext
    refine ⟨hs.calls.step hcalls, fun hwork ↦ ?_, hs.numbered,
      fun number record hrecord hselection ↦ ?_, htaking⟩
    · obtain ⟨state, hnotifying⟩ := hs.stage hwork
      rw [hphase] at hnotifying
      cases hnotifying
    · have hbefore := hs.carriedOut number record hrecord hselection
      rw [hphase] at hbefore
      exact hbefore
  · obtain ⟨event, source, transition, target, hphase, -, rfl⟩ := enter_spec hlocated hnext
    have hentered : s.enteredAfter (.machine .enter) = s.entered ++ [event.origin] := by
      simp only [StateService.enteredAfter, hphase]
    rw [hentered]
    refine ⟨hs.calls.step hcalls, fun _ ↦ ⟨target, rfl⟩, fun number hmem ↦ ?_,
      fun number record hrecord hselection ↦ ?_, htaking⟩
    · rcases List.mem_append.mp hmem with hold | hnew
      · exact hs.numbered number hold
      · refine (originsNumbered_of_reachable hmachine).transit number ?_
        rw [hphase]
        exact decide_eq_true (List.mem_singleton.mp hnew).symm
    · refine Or.inr (List.mem_append.mpr ?_)
      have hbefore := hs.carriedOut number record hrecord hselection
      rw [hphase] at hbefore
      refine hbefore.symm.imp_right fun htransit ↦ ?_
      exact List.mem_singleton.mpr (of_decide_eq_true htransit).symm
  · obtain ⟨hphase, hnext⟩ := notified_spec hlocated hnext
    have hannounced : s.stage = .announced := of_decide_eq_true hpermits
    refine ⟨hs.calls.step hcalls, fun hwork ↦ absurd hannounced hwork,
      fun number hmem ↦ Nat.lt_of_lt_of_le (hs.numbered number hmem) hcommands,
      fun number record hrecord hselection ↦ ?_, htaking⟩
    have hbefore := hs.carriedOut number record hrecord hselection
    rw [hphase] at hbefore
    exact Or.inr (hbefore.resolve_left (by simp [Phase.inTransit]))

/-- A statement of the call or a step of the machine keeps what holds in every run. -/
theorem serviceBase_call (hs : ServiceBase cycle s) {action : CallAction Unit}
    (hnext : s.call cycle action = some t) : ServiceBase cycle t := by
  obtain ⟨hpermits, calls, hcalls, rfl⟩ := call_spec hnext
  cases action with
  | machine step =>
    obtain ⟨-, hmove⟩ := Option.ite_none_left_eq_some.mp hcalls
    obtain ⟨machine, hstep, ⟨rfl, rfl⟩ | ⟨hselect, hpost, rfl⟩⟩ := machineStep_spec hmove
    · exact serviceBase_select hs hpermits hcalls hstep
    · by_cases hkeeps : step ≠ .select ∧ step ≠ .leave ∧ step ≠ .enter ∧ step ≠ .notified
      · exact hs.call_frame hpermits hcalls (phase_step hstep hkeeps).1 (commands_le_step hstep) rfl
          (by simpa using hkeeps.2.2.1)
      · exact serviceBase_move hs hpermits hcalls hstep (by tauto)
  | _ =>
    rcases call_step_spec hcalls with ⟨hprocessed, hmachine⟩ | ⟨step, hstep, -⟩
    · refine hs.call_frame hpermits hcalls ?_ ?_ hprocessed (by simp)
      · rcases hmachine with hsame | ⟨cmd, hpost⟩
        · rw [hsame]
        · rw [hpost]
          rfl
      · rcases hmachine with hsame | ⟨cmd, hpost⟩
        · exact Nat.le_of_eq (by rw [hsame])
        · rw [hpost]
          exact Nat.le_succ _
    · cases hstep

theorem serviceBase_step (hs : ServiceBase cycle s) {action : ServiceAction}
    (hnext : (stateService cycle).next s action = some t) : ServiceBase cycle t := by
  cases action with
  | call action => exact serviceBase_call hs hnext
  | request command =>
    obtain ⟨-, rfl | rfl⟩ := request_spec hnext
    · exact hs.frame rfl rfl id fun cmd number h ↦ (by cases h)
    · exact hs.frame rfl rfl id fun cmd number h ↦ (by cases h)
  | returned =>
    obtain ⟨cmd, called, number, verdict, -, hthread, ⟨rfl, rfl⟩ | ⟨response, -, rfl⟩⟩ :=
      returned_spec hnext
    · refine hs.frame rfl rfl id fun cmd' number' h ↦ ?_
      obtain ⟨rfl, rfl⟩ := HandlerPhase.taking.inj h
      exact ⟨called, hthread⟩
    · exact hs.frame rfl rfl id fun cmd number h ↦ (by cases h)
  | takeChanged =>
    obtain ⟨cmd, number, -, ⟨future, prom, -, rfl⟩ | ⟨error, -, rfl⟩⟩ := takeChanged_spec hnext
    · exact hs.frame rfl rfl id fun cmd number h ↦ (by cases h)
    · exact hs.frame rfl rfl id fun cmd number h ↦ (by cases h)
  | awaitChanged =>
    obtain ⟨cmd, number, future, -, ⟨value, response, -, rfl⟩ | ⟨error, -, rfl⟩⟩ :=
      awaitChanged_spec hnext
    · exact hs.frame rfl rfl id fun cmd number h ↦ (by cases h)
    · exact hs.frame rfl rfl id fun cmd number h ↦ (by cases h)
  | replaceChanged =>
    obtain ⟨hstage, rfl⟩ := replaceChanged_spec hnext
    exact hs.frame rfl rfl (fun _ ↦ by simp [hstage]) hs.taking
  | satisfyChanged =>
    obtain ⟨-, ⟨prom, -, rfl⟩ | ⟨error, -, rfl⟩⟩ := satisfyChanged_spec hnext
    · exact hs.frame rfl rfl (fun h ↦ absurd rfl h) hs.taking
    · exact hs.frame rfl rfl id fun cmd number h ↦ (by cases h)

theorem serviceBase_of_reachable (hrun : (stateService cycle).Reachable s) :
    ServiceBase cycle s := by
  refine hrun.invariant ?_ ?_
  · rintro s rfl
    refine ⟨.initial rfl, fun _ ↦ ⟨.aborted, rfl⟩, fun number hmem ↦ ?_,
      fun number record hrecord ↦ ?_, fun cmd number hhandler ↦ ?_⟩
    · cases hmem
    · cases hrecord
    · cases hhandler
  · intro s action t hs hnext
    exact serviceBase_step hs hnext

/-- A command that was accepted outside ABORTING is in transit or its target was entered. -/
theorem ServiceBase.carriedOut_of_taking (hs : ServiceBase cycle s) {cmd : TransitionCmd}
    {number : ℕ} (hhandler : s.handler = .taking cmd number)
    (haborting : ∀ record, s.calls.processed (.command number) = some record →
      State.aborting.generated ∉ chart.activeLeaves record.configuration) :
    s.machine.phase.inTransit (.command number) = true ∨ .command number ∈ s.entered := by
  obtain ⟨called, hthread⟩ := hs.taking cmd number hhandler
  have hguarded := hs.calls.mono fun s action _ ↦ settledBeforeAssign_of_subsingleton s action
  obtain ⟨active, hinv⟩ := callInvariant_of_reachableBy hguarded
  obtain ⟨record, hrecord, -, haccepted⟩ := hinv.verdict_of_returned hthread
  refine hs.carriedOut number record hrecord ?_
  obtain ⟨before, rest, hbefore, hphase, -, hprocessed⟩ := processed_sound hs.calls _ _ hrecord
  have hlocated := located_stateValue hbefore
  have hconfiguration := hlocated.configuration_eq (by simp [hphase])
  have hleaf := haborting record hrecord
  rw [hprocessed] at haccepted hleaf ⊢
  simp only [Execution.processCommand, hconfiguration] at haccepted hleaf ⊢
  rw [chart_activeLeaves_path, List.mem_singleton] at hleaf
  rw [accepted_eq_isSome cycle _ hlocated.defined fun heq ↦ hleaf (by rw [heq])] at haccepted
  rw [selectTransitions_path]
  cases hselected : selected cycle before.gen.available before.stateValue
      (.cmdEvent record.cmd) with
  | none => simp [hselected] at haccepted
  | some entry => simp

/-! ### The promise that the handler finds -/

/-- The number of the command that the handler has posted and not answered yet, until it takes the
future of `changed_prom_`. -/
def StateService.handlerNumber (s : StateService) : Option ℕ :=
  match s.handler with
  | .calling _ =>
    match s.calls.threads () with
    | .posted _ number | .waiting _ number _ | .returned _ number _ => some number
    | _ => none
  | .taking _ number => some number
  | _ => none

/-- The promise is fresh once the target of the handler's command was announced, it is pending
exactly while it is being announced, and what the handler waits for is the promise of an announced
target. -/
structure PromiseInvariant (s : StateService) : Prop where
  fresh : ∀ number, s.handlerNumber = some number → .command number ∈ s.entered →
    s.isUnannounced (.command number) = false →
      (s.changedProm.shared s.changedProm.current).retrieved = false
  pending : s.stage = .satisfying →
    (s.changedProm.shared s.changedProm.current).outcome = .pending
  satisfied : s.stage ≠ .satisfying → s.changedProm.current ≠ 0 →
    (s.changedProm.shared s.changedProm.current).outcome = .value true
  started : s.changedProm.current = 0 → s.entered = [] ∧ s.stage = .replacing
  waiting : ∀ cmd number future, s.handler = .waiting cmd number future →
    .command number ∈ s.entered ∧ future ≤ s.changedProm.current ∧
      ((s.changedProm.shared future).outcome = .value true ∨
        future = s.changedProm.current ∧ s.stage = .satisfying)
  answers : AnswersAfterEntry s

/-- A step that leaves the promise, the entries and the progress of the announcement. -/
theorem PromiseInvariant.frame (hs : PromiseInvariant s) (hprom : t.changedProm = s.changedProm)
    (hstage : t.stage = s.stage) (hentered : t.entered = s.entered)
    (hnumber : ∀ number, t.handlerNumber = some number → .command number ∈ s.entered →
      s.handlerNumber = some number)
    (hwaiting : ∀ cmd number future, t.handler = .waiting cmd number future →
      s.handler = .waiting cmd number future)
    (hanswers : AnswersAfterEntry t) : PromiseInvariant t := by
  obtain ⟨hfresh, hpending, hsatisfied, hstarted, hwait, -⟩ := hs
  refine ⟨fun number h hmem hannounced ↦ ?_, ?_, ?_, ?_, fun cmd number future h ↦ ?_, hanswers⟩
  · rw [hprom]
    rw [hentered] at hmem
    refine hfresh number (hnumber number h hmem) hmem ?_
    simpa [StateService.isUnannounced, hstage, hentered] using hannounced
  · rwa [hprom, hstage]
  · rwa [hprom, hstage]
  · rwa [hprom, hstage, hentered]
  · rw [hprom, hstage, hentered]
    exact hwait cmd number future (hwaiting cmd number future h)

/-- The command of the handler is the same after a step of the call, unless it is posted just
now. -/
theorem handlerNumber_call {action : CallAction Unit} {calls : CommandCalls Unit}
    (hnext : (commandCalls cycle Unit).next s.calls action = some calls) {number : ℕ}
    (hnumber : StateService.handlerNumber { s with
      calls := calls, stage := s.stageAfter action, handler := s.handlerAfter action,
      entered := s.enteredAfter action } = some number) :
    s.handlerNumber = some number ∨ action = .post () ∧ number = s.machine.commands := by
  obtain ⟨-, hnext⟩ := Option.ite_none_left_eq_some.mp hnext
  cases action with
  | assign thread cmd =>
    obtain ⟨-, rfl⟩ := assign_spec hnext
    simp [StateService.handlerNumber, StateService.handlerAfter] at hnumber
  | machine step =>
    refine Or.inl ?_
    simpa [StateService.handlerNumber, StateService.handlerAfter, machineStep_threads hnext]
      using hnumber
  | post thread =>
    obtain ⟨cmd, hthread, rfl⟩ := post_spec hnext
    simp only [StateService.handlerNumber, StateService.handlerAfter] at hnumber ⊢
    cases hhandler : s.handler with
    | calling other =>
      simp only [hhandler, Function.update_self] at hnumber
      exact Or.inr ⟨trivial, (Option.some.inj hnumber).symm⟩
    | _ =>
      rw [hhandler] at hnumber
      exact Or.inl hnumber
  | takeFuture thread =>
    refine Or.inl ?_
    obtain ⟨cmd, posted, hthread, hnext⟩ := takeFuture_spec hnext
    simp only [StateService.handlerNumber, StateService.handlerAfter] at hnumber ⊢
    cases hhandler : s.handler with
    | calling other =>
      rcases hnext with ⟨future, prom, -, rfl⟩ | ⟨error, -, rfl⟩
      · simpa [hhandler, hthread] using hnumber
      · simp [hhandler] at hnumber
    | _ =>
      rw [hhandler] at hnumber
      exact hnumber
  | wait thread =>
    refine Or.inl ?_
    obtain ⟨cmd, posted, future, hthread, hnext⟩ := wait_spec hnext
    simp only [StateService.handlerNumber, StateService.handlerAfter] at hnumber ⊢
    cases hhandler : s.handler with
    | calling other =>
      rcases hnext with ⟨verdict, -, rfl⟩ | ⟨error, -, rfl⟩
      · simpa [hhandler, hthread] using hnumber
      · simp [hhandler] at hnumber
    | _ =>
      rw [hhandler] at hnumber
      exact hnumber

/-- A statement of the call or a step of the machine keeps the promise: a state is entered only
after the last one was announced. -/
theorem promiseInvariant_call (hbase : ServiceBase cycle s) (hs : PromiseInvariant s)
    {action : CallAction Unit} (hnext : s.call cycle action = some t) : PromiseInvariant t := by
  obtain ⟨hpermits, calls, hcalls, rfl⟩ := call_spec hnext
  have hwaiting : ∀ cmd number future, s.handlerAfter action = .waiting cmd number future →
      s.handler = .waiting cmd number future := by
    intro cmd number future hhandler
    cases action with
    | assign thread other => cases hhandler
    | _ => exact hhandler
  have hanswers : AnswersAfterEntry { s with
      calls := calls, stage := s.stageAfter action, handler := s.handlerAfter action,
      entered := s.enteredAfter action } := by
    refine ⟨hs.answers.entered, fun error hhandler ↦ ?_⟩
    cases action with
    | assign thread other => cases hhandler
    | _ => exact hs.answers.notThrown error hhandler
  by_cases henter : action = .machine .enter
  · subst henter
    obtain ⟨-, hmove⟩ := Option.ite_none_left_eq_some.mp hcalls
    obtain ⟨machine, hstep, ⟨hselect, -⟩ | ⟨-, -, rfl⟩⟩ := machineStep_spec hmove
    · cases hselect
    · have hlocated := located_stateValue (machine_reachable hbase.calls)
      obtain ⟨event, source, transition, target, hphase, -, rfl⟩ := enter_spec hlocated hstep
      have hannounced : s.stage = .announced := by
        by_contra hwork
        obtain ⟨state, hnotifying⟩ := hbase.stage hwork
        rw [hphase] at hnotifying
        cases hnotifying
      have hentered : s.enteredAfter (.machine .enter) = s.entered ++ [event.origin] := by
        simp only [StateService.enteredAfter, hphase]
      obtain ⟨hfresh, -, hsatisfied, hstarted, hwait, -⟩ := hs
      rw [hentered] at hanswers ⊢
      refine ⟨fun number hnumber hmem hlast ↦ ?_, fun h ↦ (by cases h), fun _ hcurrent ↦ ?_,
        fun hcurrent ↦ ?_, fun cmd number future h ↦ ?_, hanswers⟩
      · have hmine := (handlerNumber_call hcalls hnumber).resolve_right (by simp)
        have hne : event.origin ≠ .command number := by
          simpa [StateService.isUnannounced, StateService.stageAfter] using hlast
        have hmem : .command number ∈ s.entered := by
          simpa [hne.symm] using hmem
        exact hfresh number hmine hmem (by simp [StateService.isUnannounced, hannounced])
      · exact hsatisfied (by simp [hannounced]) hcurrent
      · have hreplacing := (hstarted hcurrent).2
        rw [hannounced] at hreplacing
        cases hreplacing
      · obtain ⟨hmem, hfuture, hvalue⟩ := hwait cmd number future (hwaiting cmd number future h)
        refine ⟨List.mem_append_left _ hmem, hfuture, Or.inl (hvalue.resolve_right ?_)⟩
        simp [hannounced]
  · obtain ⟨hstage, hentered⟩ := after_of_ne_enter (s := s) henter
    refine hs.frame rfl hstage hentered (fun number hnumber hmem ↦ ?_) hwaiting hanswers
    refine (handlerNumber_call hcalls hnumber).resolve_right ?_
    rintro ⟨-, rfl⟩
    exact Nat.lt_irrefl _ (hbase.numbered _ hmem)

/-- The future that the handler takes is that of a promise replaced for the target of its command
or later, and it is taken for the first time. -/
theorem promiseInvariant_take (hbase : ServiceBase cycle s) (hs : PromiseInvariant s)
    (hallowed : TakesAnnouncedPromise s .takeChanged)
    (hnext : s.takeChanged = some t) : PromiseInvariant t := by
  obtain ⟨cmd, number, hhandler, hnext⟩ := takeChanged_spec hnext
  simp only [TakesAnnouncedPromise, hhandler] at hallowed
  obtain ⟨haborting, htransit, hannounced⟩ := hallowed
  have hmem : .command number ∈ s.entered := by
    refine (hbase.carriedOut_of_taking hhandler haborting).resolve_left ?_
    simp [htransit]
  have hfresh := hs.fresh number (by simp [StateService.handlerNumber, hhandler]) hmem hannounced
  have htake := PromiseVariable.getFuture_of_not_retrieved hfresh
  rcases hnext with ⟨future, prom, hfuture, rfl⟩ | ⟨error, herror, -⟩
  · obtain ⟨rfl, hcurrent, houtcome⟩ := PromiseVariable.getFuture_outcome hfuture
    refine ⟨fun other h ↦ (by cases h), fun hstage ↦ ?_, fun hstage hpositive ↦ ?_,
      fun hzero ↦ hs.started (hcurrent ▸ hzero), fun cmd' number' future h ↦ ?_,
      hs.answers.entered, fun error h ↦ (by cases h)⟩
    · exact (houtcome _).trans (hcurrent ▸ hs.pending hstage)
    · exact (houtcome _).trans (hcurrent ▸ hs.satisfied hstage (hcurrent ▸ hpositive))
    · obtain ⟨rfl, rfl, rfl⟩ := HandlerPhase.waiting.inj h
      refine ⟨hmem, Nat.le_of_eq hcurrent.symm, ?_⟩
      by_cases hstage : s.stage = .satisfying
      · exact Or.inr ⟨hcurrent.symm, hstage⟩
      · refine Or.inl ((houtcome _).trans (hs.satisfied hstage fun hzero ↦ ?_))
        rw [(hs.started hzero).1] at hmem
        cases hmem
  · cases herror.symm.trans htake

/-- The handler answers success for a command whose target was entered. -/
theorem promiseInvariant_await (hs : PromiseInvariant s) (hnext : s.awaitChanged = some t) :
    PromiseInvariant t := by
  obtain ⟨cmd, number, future, hhandler, hnext⟩ := awaitChanged_spec hnext
  obtain ⟨hmem, -, hvalue⟩ := hs.waiting cmd number future hhandler
  have hready : s.changedProm.get future ≠ none := by
    rcases hnext with ⟨value, response, hget, -⟩ | ⟨error, hget, -⟩ <;> simp [hget]
  have houtcome : (s.changedProm.shared future).outcome = .value true := by
    refine hvalue.resolve_right ?_
    rintro ⟨rfl, hstage⟩
    exact hready (PromiseVariable.get_eq_none_iff.mpr (hs.pending hstage))
  rcases hnext with ⟨value, response, -, rfl⟩ | ⟨error, herror, -⟩
  · refine hs.frame rfl rfl rfl (fun other h ↦ (by cases h)) (fun _ _ _ h ↦ (by cases h))
      ⟨fun answer hanswer hsuccess ↦ ?_, fun error h ↦ (by cases h)⟩
    rcases List.mem_append.mp hanswer with hold | hnew
    · exact hs.answers.entered answer hold hsuccess
    · obtain rfl := List.mem_singleton.mp hnew
      simpa using hmem
  · cases herror.symm.trans (PromiseVariable.get_of_value houtcome)

/-- The promise is replaced when the last one has its value. -/
theorem promiseInvariant_replace (hs : PromiseInvariant s) (hnext : s.replaceChanged = some t) :
    PromiseInvariant t := by
  obtain ⟨hstage, rfl⟩ := replaceChanged_spec hnext
  refine ⟨fun number _ _ _ ↦ by simp, fun _ ↦ by simp, fun h ↦ absurd rfl h,
    fun h ↦ (by cases h), fun cmd number future h ↦ ?_,
    ⟨hs.answers.entered, hs.answers.notThrown⟩⟩
  obtain ⟨hmem, hfuture, hvalue⟩ := hs.waiting cmd number future h
  have houtcome := hvalue.resolve_right (by simp [hstage])
  refine ⟨hmem, Nat.le_succ_of_le hfuture, Or.inl ?_⟩
  rw [PromiseVariable.replace_outcome_of_ne_pending hfuture (by simp [houtcome]), houtcome]

/-- The promise that was replaced is satisfied for the first time. -/
theorem promiseInvariant_satisfy (hs : PromiseInvariant s) (hnext : s.satisfyChanged = some t) :
    PromiseInvariant t := by
  obtain ⟨hstage, hnext⟩ := satisfyChanged_spec hnext
  have hset := PromiseVariable.setValue_of_pending (hs.pending hstage) true
  rcases hnext with ⟨prom, hprom, rfl⟩ | ⟨error, herror, -⟩
  · obtain rfl := Except.ok.inj (hset.symm.trans hprom)
    refine ⟨fun number hnumber hmem _ ↦ ?_, fun h ↦ (by cases h), fun _ _ ↦ by simp,
      fun hzero ↦ ?_, fun cmd number future h ↦ ?_,
      ⟨hs.answers.entered, hs.answers.notThrown⟩⟩
    · have hfresh := hs.fresh number hnumber hmem (by simp [StateService.isUnannounced, hstage])
      simpa using hfresh
    · have hreplacing := (hs.started hzero).2
      rw [hstage] at hreplacing
      cases hreplacing
    · obtain ⟨hmem, hfuture, hvalue⟩ := hs.waiting cmd number future h
      refine ⟨hmem, hfuture, Or.inl ?_⟩
      rcases hvalue with houtcome | ⟨rfl, -⟩
      · rw [PromiseVariable.setValue_outcome_of_ne_pending hset (by simp [houtcome]), houtcome]
      · simp
  · cases hset.symm.trans herror

/-- An answer without success keeps the promise. -/
theorem PromiseInvariant.refused (hs : PromiseInvariant s) {response : StateChangeResponse}
    (hresponse : response.success = false) : PromiseInvariant (s.answer response false) := by
  refine hs.frame rfl rfl rfl (fun other h ↦ (by cases h)) (fun _ _ _ h ↦ (by cases h))
    ⟨fun answer hanswer hsuccess ↦ ?_, fun error h ↦ (by cases h)⟩
  rcases List.mem_append.mp hanswer with hold | hnew
  · exact hs.answers.entered answer hold hsuccess
  · obtain rfl := List.mem_singleton.mp hnew
    rw [hresponse] at hsuccess
    cases hsuccess

theorem promiseInvariant_step (hbase : ServiceBase cycle s) (hs : PromiseInvariant s)
    {action : ServiceAction} (hallowed : TakesAnnouncedPromise s action)
    (hnext : (stateService cycle).next s action = some t) : PromiseInvariant t := by
  cases action with
  | call action => exact promiseInvariant_call hbase hs hnext
  | takeChanged => exact promiseInvariant_take hbase hs hallowed hnext
  | awaitChanged => exact promiseInvariant_await hs hnext
  | replaceChanged => exact promiseInvariant_replace hs hnext
  | satisfyChanged => exact promiseInvariant_satisfy hs hnext
  | request command =>
    obtain ⟨-, rfl | rfl⟩ := request_spec hnext
    · exact hs.refused rfl
    · exact hs.frame rfl rfl rfl (fun other h ↦ (by cases h)) (fun _ _ _ h ↦ (by cases h))
        ⟨hs.answers.entered, fun error h ↦ (by cases h)⟩
  | returned =>
    obtain ⟨cmd, called, number, verdict, hhandler, hthread,
      ⟨-, rfl⟩ | ⟨response, hrefused, rfl⟩⟩ := returned_spec hnext
    · refine hs.frame rfl rfl rfl (fun other h _ ↦ ?_) (fun _ _ _ h ↦ (by cases h))
        ⟨hs.answers.entered, fun error h ↦ (by cases h)⟩
      obtain rfl : number = other := by simpa [StateService.handlerNumber] using h
      simp [StateService.handlerNumber, hhandler, hthread]
    · exact hs.refused hrefused

/-- The service answers success only after the target was entered, and does not throw, along the
runs in which its handler takes the promise of the target of its command. -/
theorem answers_after_entry
    (hrun : (stateService cycle).ReachableBy TakesAnnouncedPromise s) : AnswersAfterEntry s := by
  have hinv : PromiseInvariant s := by
    refine TransitionSystem.ReachableBy.invariant_of_reachable
      (fun s hs ↦ serviceBase_of_reachable hs) ?_ ?_ hrun
    · rintro s rfl
      refine ⟨fun number h ↦ (by cases h), fun h ↦ (by cases h), fun _ h ↦ absurd rfl h,
        fun _ ↦ ⟨rfl, rfl⟩, fun _ _ _ h ↦ (by cases h), fun answer h ↦ ?_,
        fun error h ↦ (by cases h)⟩
      cases h
    · intro s action t hbase hs hallowed hnext
      exact promiseInvariant_step hbase hs hallowed hnext
  exact hinv.answers

end

/-- The Qt thread announces the state it has entered. -/
def announce : List ServiceAction :=
  [.replaceChanged, .satisfyChanged, .call (.machine .notified)]

/-- A mode is set and the entry of ABORTED announced. -/
def startService : List ServiceAction :=
  [.call (.machine (.changeMode .manual)), .call (.machine .modeSwitched)] ++ announce

/-- A request whose command is accepted, up to the point where the handler has the verdict. -/
def acceptedRequest (command : Int) : List ServiceAction :=
  [.request command, .call (.assign () (toTransitionCmd command)), .call (.post ()),
    .call (.takeFuture ()), .call (.machine .select), .call (.wait ()), .returned]

/-- The target of a transition is entered and announced. -/
def enterTarget : List ServiceAction :=
  [.call (.machine .leave), .call (.machine .enter)] ++ announce

/-- The handler takes the promise of CLEARING after it was announced. -/
def lateRun : List ServiceAction :=
  startService ++ acceptedRequest 9 ++ enterTarget ++ [.takeChanged, .awaitChanged]

theorem answers_after_entry_lateRun :
    ∃ s, (stateService .singleCycle).runFrom .activated lateRun = some s ∧
      (∃ answer ∈ s.answers, answer.response.success = true) ∧ AnswersAfterEntry s := by
  have hend : ((stateService .singleCycle).runFrom .activated lateRun).map StateService.answers =
      some [⟨⟨true, 1, ""⟩, true⟩] := rfl
  obtain ⟨s, hrun, hanswers⟩ := Option.map_eq_some_iff.mp hend
  have hallowed : (stateService .singleCycle).AllowedAlong TakesAnnouncedPromise lateRun
      .activated := by
    decide +kernel
  exact ⟨s, hrun, by simp [hanswers], answers_after_entry
    (TransitionSystem.reachableBy_of_runFrom (.initial rfl) _ hallowed hrun)⟩

/-- The handler takes the promise of ABORTED before CLEARING is entered. -/
def earlyRun : List ServiceAction :=
  startService ++ acceptedRequest 9 ++ [.takeChanged, .awaitChanged]

/-- Success is answered to CLEAR while the machine is still in ABORTED. -/
theorem early_answer :
    ∃ s, (stateService .singleCycle).runFrom .activated earlyRun = some s ∧
      s.machine.stateValue = .aborted ∧ s.answers = [⟨⟨true, 1, ""⟩, false⟩] ∧
      ¬ AnswersAfterEntry s := by
  have hend : ((stateService .singleCycle).runFrom .activated earlyRun).map
      (fun s ↦ (s.machine.stateValue, s.answers)) =
        some (.aborted, [⟨⟨true, 1, ""⟩, false⟩]) := rfl
  obtain ⟨s, hrun, hs⟩ := Option.map_eq_some_iff.mp hend
  obtain ⟨hvalue, hanswers⟩ := Prod.mk.injEq .. ▸ hs
  refine ⟨s, hrun, hvalue, hanswers, fun hafter ↦ ?_⟩
  have hentered := hafter.entered ⟨⟨true, 1, ""⟩, false⟩ (by simp [hanswers]) rfl
  cases hentered

/-- CLEAR is answered late, and then ABORT early. -/
def lateThenEarlyRun : List ServiceAction :=
  lateRun ++ acceptedRequest 8 ++ [.takeChanged]

/-- Both requests take the future of the promise of CLEARING, and the second one throws. -/
theorem future_taken_twice :
    ∃ s, (stateService .singleCycle).runFrom .activated lateThenEarlyRun = some s ∧
      s.handler = .threw .futureAlreadyRetrieved ∧ ¬ AnswersAfterEntry s := by
  have hend : ((stateService .singleCycle).runFrom .activated lateThenEarlyRun).map
      StateService.handler = some (.threw .futureAlreadyRetrieved) := rfl
  obtain ⟨s, hrun, hhandler⟩ := Option.map_eq_some_iff.mp hend
  exact ⟨s, hrun, hhandler, fun hafter ↦ hafter.notThrown _ hhandler⟩

end PackML
