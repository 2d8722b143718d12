import PackML.Manager.CommandServices

/-!
# Requests sent through ~/transition instead

`ServerBase` holds in every run of the node: the calls are those of a single caller, and
`changed_prom_` stays pending. By `refused_iff` the verdict of a call says whether its command was
refused.

`Follows` relates the node to one that gets the same requests through `~/transition`: the machines
and the calls are the same, and the second node has given the answers of the first one and those it
owes (`owed`), which are the answers to the commands that `on_change_state` has had accepted. Every
step of the first node is one of the second (`follows_step`), the wait for `changed_prom_` changes
nothing for it (`follows_hidden`), and as long as nothing is owed every step of the second node is
one of the first (`followed_step`).
-/

set_option autoImplicit false
set_option relaxedAutoImplicit false

namespace PackML

/-! ### All runs of the node -/

namespace ServerPhase

/-- The command that the handler has decoded, up to the return of its method. -/
def cmd : ServerPhase → Option TransitionCmd
  | .starting _ _ cmd | .calling _ _ cmd => some cmd
  | _ => none

/-- Whether the handler is in a call of a command method. -/
def isCalling : ServerPhase → Bool
  | .calling _ _ _ => true
  | _ => false

/-- What the handler owes: the answer to a command that was accepted through `~/changeState`. -/
def owed : ServerPhase → List (Int8 × Bool × Int)
  | .taking command | .waiting command _ | .threw command _ =>
    [(command, true, StateChangeResponse.successCode)]
  | _ => []

/-- The handler of the same request sent through `~/transition`. -/
def viaTransition : ServerPhase → ServerPhase
  | .starting _ command cmd => .starting .transition command cmd
  | .calling _ command cmd => .calling .transition command cmd
  | _ => .idle

@[simp] theorem cmd_after (phase : ServerPhase) (action : CallAction Unit) :
    (phase.after action).cmd = phase.cmd := by
  cases action with
  | assign thread cmd => cases phase <;> rfl
  | _ => rfl

@[simp] theorem owed_after (phase : ServerPhase) (action : CallAction Unit) :
    (phase.after action).owed = phase.owed := by
  cases action with
  | assign thread cmd => cases phase <;> rfl
  | _ => rfl

theorem viaTransition_after (phase : ServerPhase) (action : CallAction Unit) :
    (phase.after action).viaTransition = phase.viaTransition.after action := by
  cases action with
  | assign thread cmd => cases phase <;> rfl
  | _ => rfl

theorem eq_idle_of_viaTransition {phase : ServerPhase} (howed : phase.owed = [])
    (hidle : phase.viaTransition = .idle) : phase = .idle := by
  cases phase with
  | idle => rfl
  | starting service command cmd => cases hidle
  | calling service command cmd => cases hidle
  | taking command => cases howed
  | waiting command future => cases howed
  | threw command error => cases howed

theorem eq_calling_of_viaTransition {phase : ServerPhase} {service : CommandService}
    {command : Int8} {cmd : TransitionCmd}
    (hcalling : phase.viaTransition = .calling service command cmd) :
    ∃ service', phase = .calling service' command cmd := by
  cases phase with
  | calling service' command' cmd' =>
    obtain ⟨-, rfl, rfl⟩ := ServerPhase.calling.inj hcalling
    exact ⟨service', rfl⟩
  | _ => cases hcalling

/-- `~/transition` does not wait for `changed_prom_`. -/
theorem viaTransition_ne_wait (phase : ServerPhase) (command : Int8) :
    phase.viaTransition ≠ .taking command ∧
      ∀ future, phase.viaTransition ≠ .waiting command future := by
  cases phase <;> exact ⟨nofun, nofun⟩

/-- The same request sent through `~/transition` is permitted what this one is. -/
theorem permits_viaTransition {phase : ServerPhase} {action : CallAction Unit}
    (hpermits : phase.permits action = true) : phase.viaTransition.permits action = true := by
  cases action with
  | assign thread cmd =>
    cases phase with
    | starting service command called => exact hpermits
    | _ => cases hpermits
  | machine step =>
    cases step with
    | changeMode mode =>
      obtain rfl := of_decide_eq_true hpermits
      rfl
    | modeSwitched =>
      obtain rfl := of_decide_eq_true hpermits
      rfl
    | _ => rfl
  | _ => rfl

/-- A handler that owes nothing is permitted what the same request sent through `~/transition`
is. -/
theorem permits_of_viaTransition {phase : ServerPhase} (howed : phase.owed = [])
    {action : CallAction Unit} (hpermits : phase.viaTransition.permits action = true) :
    phase.permits action = true := by
  cases phase with
  | idle => exact hpermits
  | starting service command cmd => cases action <;> exact hpermits
  | calling service command cmd => cases action <;> exact hpermits
  | taking command => cases howed
  | waiting command future => cases howed
  | threw command error => cases howed

end ServerPhase

/-- What holds in every run: the calls are those of a single caller, which is in a call exactly when
the handler is, and nobody has satisfied or broken `changed_prom_`. -/
structure ServerBase (cycle : Cycle) (s : CommandServer) : Prop where
  calls : (commandCalls cycle Unit).Reachable s.calls
  pending : ∀ id, (s.changedProm.shared id).outcome = .pending
  command : s.handler.cmd ≠ some .noCommand
  resting : s.handler.isCalling = false → (s.calls.threads ()).atRest = true
  called : s.handler.isCalling = true → s.calls.threads () ≠ .idle

section Base

variable {cycle : Cycle} {s t : CommandServer}

/-- The handler calls the method of a command. -/
theorem ServerBase.cmd_ne (hs : ServerBase cycle s) {cmd : TransitionCmd}
    (hcmd : s.handler.cmd = some cmd) : cmd ≠ .noCommand := by
  rintro rfl
  exact hs.command hcmd

/-- What the return of the command method does. -/
theorem server_returned_spec (hs : ServerBase cycle s) (hnext : s.returned = some t) :
    ∃ service command cmd called number verdict, s.handler = .calling service command cmd ∧
      s.calls.threads () = .returned called number verdict ∧
        ((service = .changeState ∧ verdict = true ∧ t = { s with handler := .taking command }) ∨
          ((service = .changeState → verdict = false) ∧
            ∃ response, t = s.answer service command response)) := by
  obtain ⟨service, command, cmd, called, number, verdict, hhandler, hthread⟩ :=
    returned_enabled hnext
  have hcmd := hs.cmd_ne (show s.handler.cmd = some cmd by rw [hhandler]; rfl)
  refine ⟨service, command, cmd, called, number, verdict, hhandler, hthread, ?_⟩
  rcases returned_eq hhandler hcmd hthread with
    ⟨hservice, hverdict, hreturned⟩ | ⟨hrefused, response, -, hreturned⟩
  · exact Or.inl ⟨hservice, hverdict, Option.some.inj (hnext.symm.trans hreturned)⟩
  · exact Or.inr ⟨hrefused, response, Option.some.inj (hnext.symm.trans hreturned)⟩

/-- Outside the calls only the promise variable and the handler change. -/
theorem ServerBase.frame (hs : ServerBase cycle s) (hcalls : t.calls = s.calls)
    (hprom : ∀ id, (t.changedProm.shared id).outcome = (s.changedProm.shared id).outcome)
    (hcommand : t.handler.cmd ≠ some .noCommand) (hcalling : t.handler.isCalling = false)
    (hresting : (s.calls.threads ()).atRest = true) : ServerBase cycle t := by
  refine ⟨hcalls ▸ hs.calls, fun id ↦ (hprom id).trans (hs.pending id), hcommand,
    fun _ ↦ hcalls ▸ hresting, fun h ↦ ?_⟩
  rw [hcalling] at h
  cases h

/-- A caller that has called once is never idle again. -/
theorem threads_ne_idle_step {calls next : CommandCalls Unit} {action : CallAction Unit}
    (hcalled : calls.threads () ≠ .idle)
    (hnext : (commandCalls cycle Unit).next calls action = some next) :
    next.threads () ≠ .idle := by
  obtain ⟨-, hnext⟩ := Option.ite_none_left_eq_some.mp hnext
  cases action with
  | assign thread cmd =>
    obtain ⟨-, rfl⟩ := assign_spec hnext
    simp
  | post thread =>
    obtain ⟨cmd, -, rfl⟩ := post_spec hnext
    simp
  | takeFuture thread =>
    obtain ⟨cmd, number, -, ⟨future, prom, -, rfl⟩ | ⟨error, -, rfl⟩⟩ := takeFuture_spec hnext
    · simp
    · simp
  | wait thread =>
    obtain ⟨cmd, number, future, -, ⟨verdict, -, rfl⟩ | ⟨error, -, rfl⟩⟩ := wait_spec hnext
    · simp
    · simp
  | machine step =>
    rw [machineStep_threads hnext]
    exact hcalled

/-- A call begins only in a handler that is about to make it. -/
theorem serverBase_assign (hs : ServerBase cycle s) {cmd : TransitionCmd}
    {calls : CommandCalls Unit} (hpermits : s.handler.permits (.assign () cmd) = true)
    (hcalls : (commandCalls cycle Unit).next s.calls (.assign () cmd) = some calls) :
    ServerBase cycle
      { s with calls := calls, handler := s.handler.after (.assign () cmd) } := by
  have hcalling : (s.handler.after (.assign () cmd)).isCalling = true := by
    cases hhandler : s.handler <;> simp [hhandler, ServerPhase.permits] at hpermits ⊢
    rfl
  refine ⟨hs.calls.step hcalls, hs.pending, by simpa using hs.command, fun hidle ↦ ?_, fun _ ↦ ?_⟩
  · rw [hcalling] at hidle
    cases hidle
  · obtain ⟨-, hnext⟩ := Option.ite_none_left_eq_some.mp hcalls
    obtain ⟨-, rfl⟩ := assign_spec hnext
    simp

/-- A statement of the call or a step of the machine keeps what holds in every run. -/
theorem serverBase_call (hs : ServerBase cycle s) {action : CallAction Unit}
    (hnext : s.call cycle action = some t) : ServerBase cycle t := by
  obtain ⟨hpermits, calls, hcalls, rfl⟩ := server_call_spec hnext
  by_cases hassign : ∃ cmd, action = .assign () cmd
  · obtain ⟨cmd, rfl⟩ := hassign
    exact serverBase_assign hs hpermits hcalls
  have hassign : ∀ cmd, action ≠ .assign () cmd := fun cmd heq ↦ hassign ⟨cmd, heq⟩
  have hhandler : s.handler.after action = s.handler := by
    cases action with
    | assign thread cmd => exact absurd rfl (hassign cmd)
    | _ => rfl
  rw [hhandler]
  refine ⟨hs.calls.step hcalls, hs.pending, hs.command, fun hidle ↦ ?_, fun hcalling ↦ ?_⟩
  · obtain ⟨step, rfl⟩ := machine_of_atRest (hs.resting hidle) hassign hcalls
    obtain ⟨-, hmove⟩ := Option.ite_none_left_eq_some.mp hcalls
    rw [machineStep_threads hmove]
    exact hs.resting hidle
  · exact threads_ne_idle_step (hs.called hcalling) hcalls

theorem serverBase_step (hs : ServerBase cycle s) {action : CommandAction}
    (hnext : (commandServices cycle).next s action = some t) : ServerBase cycle t := by
  cases action with
  | request service command =>
    obtain ⟨hhandler, -, ⟨response, rfl⟩ | ⟨hcommand, rfl⟩⟩ := server_request_spec hnext
    · exact hs.frame rfl (fun _ ↦ rfl) nofun rfl (hs.resting (by rw [hhandler]; rfl))
    · exact hs.frame rfl (fun _ ↦ rfl) (fun h ↦ hcommand (Option.some.inj h)) rfl
        (hs.resting (by rw [hhandler]; rfl))
  | call action => exact serverBase_call hs hnext
  | returned =>
    obtain ⟨service, command, cmd, called, number, verdict, -, hthread, ⟨-, -, rfl⟩ |
      ⟨-, response, rfl⟩⟩ := server_returned_spec hs hnext
    · exact hs.frame rfl (fun _ ↦ rfl) nofun rfl (by rw [hthread]; rfl)
    · exact hs.frame rfl (fun _ ↦ rfl) nofun rfl (by rw [hthread]; rfl)
  | takeChanged =>
    obtain ⟨command, hhandler, ⟨future, prom, htake, rfl⟩ | ⟨error, rfl⟩⟩ :=
      server_takeChanged_spec hnext
    · obtain ⟨-, -, houtcome⟩ := PromiseVariable.getFuture_outcome htake
      exact hs.frame rfl houtcome nofun rfl (hs.resting (by rw [hhandler]; rfl))
    · exact hs.frame rfl (fun _ ↦ rfl) nofun rfl (hs.resting (by rw [hhandler]; rfl))
  | awaitChanged =>
    have hnext : s.awaitChanged = some t := hnext
    rw [awaitChanged_eq_none hs.pending] at hnext
    cases hnext

theorem serverBase_of_reachable (hrun : (commandServices cycle).Reachable s) :
    ServerBase cycle s := by
  refine hrun.invariant ?_ ?_
  · rintro s rfl
    exact ⟨.initial rfl, fun _ ↦ rfl, nofun, fun _ ↦ rfl, nofun⟩
  · intro s action t hs hnext
    exact serverBase_step hs hnext

end Base

/-! ### The verdict of a call -/

/-- A call returns false exactly when its command was refused. -/
theorem refused_iff {cycle : Cycle} {calls : CommandCalls Unit}
    (hrun : (commandCalls cycle Unit).Reachable calls) {cmd : TransitionCmd} {number : ℕ}
    {verdict : Bool} (hreturned : calls.threads () = .returned cmd number verdict) :
    (∀ record ∈ calls.processed (.command number), record.Refused cycle) ↔ verdict = false := by
  obtain ⟨active, hinv⟩ := callInvariant_of_single hrun
  obtain ⟨record, hrecord, rfl, rfl⟩ := hinv.verdict_of_returned hreturned
  obtain ⟨before, rest, hbefore, hphase, -, hprocessed⟩ := processed_sound hrun _ _ hrecord
  have hs := located_stateValue hbefore
  have hconfiguration := hs.configuration_eq (by simp [hphase])
  rw [hrecord]
  simp only [Option.mem_some_iff, forall_eq']
  rw [hprocessed]
  simp only [ProcessedCommand.Refused, Execution.processCommand, hconfiguration,
    chart_activeLeaves_path, selectTransitions_path]
  rw [accepted_eq_false_iff cycle _ hs.defined, Option.toList_eq_nil_iff, List.mem_singleton]
  refine and_congr_left fun _ ↦ not_congr ⟨fun hleaf ↦ ?_, fun hvalue ↦ ?_⟩
  · exact (PackmlState.simpleState.inj hleaf).2.symm
  · rw [hvalue]

/-! ### The same requests through ~/transition -/

/-- The second node has the machine and the calls of the first one, handles the same request through
`~/transition`, and has given the answers of the first one and those it owes. -/
structure Follows (s r : CommandServer) : Prop where
  calls : r.calls = s.calls
  handler : r.handler = s.handler.viaTransition
  answers : r.answers.map CommandAnswer.outcome =
    s.answers.map CommandAnswer.outcome ++ s.handler.owed

section Following

variable {cycle : Cycle} {s t r v : CommandServer} {service : CommandService} {command : Int8}

/-- A node that owes nothing has given the same answers. -/
theorem Follows.answers_eq (hs : Follows s r) (howed : s.handler.owed = []) :
    r.answers.map CommandAnswer.outcome = s.answers.map CommandAnswer.outcome := by
  rw [hs.answers, howed, List.append_nil]

/-- Both nodes answer, with the same flag and error code. -/
theorem Follows.answer (hs : Follows s r) (howed : s.handler.owed = [])
    {response response' : StateChangeResponse}
    (hsame : (response'.success, response'.errorCode) = (response.success, response.errorCode)) :
    Follows (s.answer service command response) (r.answer .transition command response') := by
  refine ⟨hs.calls, rfl, ?_⟩
  have hold := hs.answers_eq howed
  simp [CommandServer.answer, CommandAnswer.outcome, ServerPhase.owed, hold, hsame]

/-- A request is taken through either service. -/
theorem Follows.request (hs : Follows s r) (hhandler : s.handler = .idle)
    (hswitching : s.machine.switching = none) (service : CommandService) (command : Int8) :
    ∃ t v, s.request service command = some t ∧ r.request .transition command = some v ∧
      Follows t v := by
  have hidle : r.handler = .idle := by rw [hs.handler, hhandler]; rfl
  have hmachine : r.machine.switching = none := by
    rw [CommandServer.machine, hs.calls]
    exact hswitching
  rcases request_eq hhandler hswitching service command with
    ⟨hcommand, response, hresponse, hrequest⟩ | ⟨hcommand, hrequest⟩
  · obtain ⟨-, response', hresponse', hrequest'⟩ :=
      (request_eq hidle hmachine .transition command).resolve_right fun h ↦ h.1 hcommand
    exact ⟨_, _, hrequest, hrequest', hs.answer (by rw [hhandler]; rfl)
      (hresponse'.trans hresponse.symm)⟩
  · obtain ⟨-, hrequest'⟩ :=
      (request_eq hidle hmachine .transition command).resolve_left fun h ↦ hcommand h.1
    refine ⟨_, _, hrequest, hrequest', hs.calls, rfl, ?_⟩
    simpa [hhandler, ServerPhase.owed] using hs.answers

/-- A statement of the call or a step of the machine. -/
theorem Follows.call (hs : Follows s r) {action : CallAction Unit} {calls : CommandCalls Unit}
    (hpermits : r.handler.permits action = true)
    (hcalls : (commandCalls cycle Unit).next s.calls action = some calls) :
    ∃ v, r.call cycle action = some v ∧
      Follows { s with calls := calls, handler := s.handler.after action } v := by
  refine ⟨{ r with calls := calls, handler := r.handler.after action }, ?_, rfl, ?_, ?_⟩
  · rw [CommandServer.call, if_pos hpermits, hs.calls, hcalls]
    rfl
  · rw [ServerPhase.viaTransition_after, ← hs.handler]
  · rw [ServerPhase.owed_after]
    exact hs.answers

/-- The command method returns, and `~/transition` answers. -/
theorem Follows.returned (hbase : ServerBase cycle s) (hs : Follows s r)
    {cmd called : TransitionCmd} {number : ℕ} {verdict : Bool}
    (hhandler : s.handler = .calling service command cmd)
    (hthread : s.calls.threads () = .returned called number verdict) :
    ∃ t v, s.returned = some t ∧ r.returned = some v ∧ Follows t v := by
  have hcmd := hbase.cmd_ne (show s.handler.cmd = some cmd by rw [hhandler]; rfl)
  have howed : s.handler.owed = [] := by rw [hhandler]; rfl
  have hcalling : r.handler = .calling .transition command cmd := by rw [hs.handler, hhandler]; rfl
  obtain ⟨-, response', hresponse', hreturned'⟩ :=
    (returned_eq hcalling hcmd (hs.calls ▸ hthread)).resolve_left fun h ↦ nomatch h.1
  rcases returned_eq hhandler hcmd hthread with
    ⟨-, rfl, hreturned⟩ | ⟨-, response, hresponse, hreturned⟩
  · refine ⟨_, _, hreturned, hreturned', hs.calls, rfl, ?_⟩
    obtain ⟨hsuccess, hcode⟩ := Prod.mk.injEq .. ▸ hresponse'
    have hold := hs.answers_eq howed
    simp [CommandServer.answer, CommandAnswer.outcome, ServerPhase.owed, hold, hsuccess, hcode]
  · exact ⟨_, _, hreturned, hreturned', hs.answer howed (hresponse'.trans hresponse.symm)⟩

/-- Every common step of the node is one of the node whose requests go through `~/transition`. -/
theorem follows_step (hbase : ServerBase cycle s) (hs : Follows s r) {action : CommandAction}
    (hcommon : action.isCommon = true) (hnext : (commandServices cycle).next s action = some t) :
    ∃ v, (commandServices cycle).next r action.viaTransition = some v ∧ Follows t v := by
  cases action with
  | request service command =>
    have hnext : s.request service command = some t := hnext
    obtain ⟨hhandler, hswitching, -⟩ := server_request_spec hnext
    obtain ⟨t', v, hrequest, hrequest', hfollows⟩ := hs.request hhandler hswitching service command
    obtain rfl := Option.some.inj (hrequest.symm.trans hnext)
    exact ⟨v, hrequest', hfollows⟩
  | call action =>
    obtain ⟨hpermits, calls, hcalls, rfl⟩ := server_call_spec hnext
    exact hs.call (hs.handler ▸ ServerPhase.permits_viaTransition hpermits) hcalls
  | returned =>
    have hnext : s.returned = some t := hnext
    obtain ⟨service, command, cmd, called, number, verdict, hhandler, hthread⟩ :=
      returned_enabled hnext
    obtain ⟨t', v, hreturned, hreturned', hfollows⟩ := hs.returned hbase hhandler hthread
    obtain rfl := Option.some.inj (hreturned.symm.trans hnext)
    exact ⟨v, hreturned', hfollows⟩
  | takeChanged => cases hcommon
  | awaitChanged => cases hcommon

/-- The wait for `changed_prom_` changes nothing for the other node. -/
theorem follows_hidden (hbase : ServerBase cycle s) (hs : Follows s r) {action : CommandAction}
    (hhidden : action.isCommon = false) (hnext : (commandServices cycle).next s action = some t) :
    Follows t r := by
  cases action with
  | takeChanged =>
    obtain ⟨hcalls, hhandler, hanswers⟩ := hs
    obtain ⟨command, htaking, ⟨future, prom, -, rfl⟩ | ⟨error, rfl⟩⟩ :=
      server_takeChanged_spec hnext
    · rw [htaking] at hhandler hanswers
      exact ⟨hcalls, hhandler, hanswers⟩
    · rw [htaking] at hhandler hanswers
      exact ⟨hcalls, hhandler, hanswers⟩
  | awaitChanged =>
    have hnext : s.awaitChanged = some t := hnext
    rw [awaitChanged_eq_none hbase.pending] at hnext
    cases hnext
  | request service command => cases hhidden
  | call action => cases hhidden
  | returned => cases hhidden

/-- As long as nothing is owed, the node can take every step of the other one. -/
theorem followed_step (hbase : ServerBase cycle s) (hs : Follows s r) (howed : s.handler.owed = [])
    {action : CommandAction}
    (hnext : (commandServices cycle).next r action.viaTransition = some v) :
    ∃ t, (commandServices cycle).next s action = some t ∧ Follows t v := by
  cases action with
  | request service command =>
    have hnext : r.request .transition command = some v := hnext
    obtain ⟨hidle, hswitching, -⟩ := server_request_spec hnext
    have hhandler : s.handler = .idle :=
      ServerPhase.eq_idle_of_viaTransition howed (hs.handler ▸ hidle)
    rw [CommandServer.machine, hs.calls] at hswitching
    obtain ⟨t, v', hrequest, hrequest', hfollows⟩ := hs.request hhandler hswitching service command
    obtain rfl := Option.some.inj (hrequest'.symm.trans hnext)
    exact ⟨t, hrequest, hfollows⟩
  | call action =>
    have hnext : r.call cycle action = some v := hnext
    obtain ⟨hpermits, calls, hcalls, -⟩ := server_call_spec hnext
    rw [hs.calls] at hcalls
    obtain ⟨v', hcall, hfollows⟩ := hs.call hpermits hcalls
    obtain rfl := Option.some.inj (hcall.symm.trans hnext)
    refine ⟨_, ?_, hfollows⟩
    show s.call cycle action = _
    rw [CommandServer.call, hcalls]
    exact if_pos (ServerPhase.permits_of_viaTransition howed (hs.handler ▸ hpermits))
  | returned =>
    have hnext : r.returned = some v := hnext
    obtain ⟨_, command, cmd, called, number, verdict, hcalling, hthread⟩ := returned_enabled hnext
    rw [hs.calls] at hthread
    obtain ⟨service, hhandler⟩ :=
      ServerPhase.eq_calling_of_viaTransition (hs.handler ▸ hcalling)
    obtain ⟨t, v', hreturned, hreturned', hfollows⟩ := hs.returned hbase hhandler hthread
    obtain rfl := Option.some.inj (hreturned'.symm.trans hnext)
    exact ⟨t, hreturned, hfollows⟩
  | takeChanged =>
    obtain ⟨command, htaking, -⟩ := server_takeChanged_spec hnext
    exact absurd (hs.handler ▸ htaking) (s.handler.viaTransition_ne_wait command).1
  | awaitChanged =>
    obtain ⟨command, future, hwaiting⟩ := awaitChanged_enabled hnext
    exact absurd (hs.handler ▸ hwaiting) ((s.handler.viaTransition_ne_wait command).2 future)

end Following

end PackML
