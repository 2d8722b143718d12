import PackML.Execution.CallsReturn
import PackML.Manager.ChangeState

/-!
# The command services of SMNode

`SMNode` takes commands through two services. `transRequest` decodes the number, calls the command
method and answers with its verdict. `on_change_state`, which `init` of the manager interface
creates for every node, decodes the number with `to_transition_cmd`, calls `changeState`, and after
an acceptance takes the future of `changed_prom_` and waits for it. Both run on the ROS thread,
which handles one request at a time. `SMNode` keeps the default callback `on_state_changed`, which
prints, so that no step here replaces or satisfies `changed_prom_`.

`viaTransition` sends a request through `~/transition` instead. `AgreesWith` says that the node is
where a second one is, and can still give every answer that the second one has given, with the same
flag and error code. `ChangeStateRefused` is the condition under which it does: no command sent
through `~/changeState` is accepted.
-/

set_option autoImplicit false
set_option relaxedAutoImplicit false

namespace PackML

/-! ### Requests and responses -/

/-- The services `~/transition` and `~/changeState`. -/
inductive CommandService
  | transition | changeState
  deriving DecidableEq, Repr

/-- The switch of `transRequest`; without a case `command_valid` is false. -/
def transRequestCmd (commandInt : Int) : Option TransitionCmd :=
  if commandInt = 8 then some .abort
  else if commandInt = 3 then some .stop
  else if commandInt = 9 then some .clear
  else if commandInt = 4 then some .hold
  else if commandInt = 1 then some .reset
  else if commandInt = 2 then some .start
  else if commandInt = 6 then some .suspend
  else if commandInt = 5 then some .unhold
  else if commandInt = 7 then some .unsuspend
  else none

/-- The response of `transRequest` to a command, with the value that its method has returned. -/
def transRequestResponse (commandInt : Int) (commandRtn : Bool) : StateChangeResponse :=
  if commandRtn then
    ⟨true, StateChangeResponse.successCode,
      "Successful transition request command: " ++ toString commandInt⟩
  else
    ⟨false, StateChangeResponse.invalidTransitionRequest,
      "Invalid transition request command: " ++ toString commandInt⟩

/-- The response of `transRequest` to a number that is no command. -/
def unrecognizedTransition (commandInt : Int) : StateChangeResponse :=
  ⟨false, StateChangeResponse.unrecgonizedRequest,
    "Unrecognized transition request command: " ++ toString commandInt⟩

/-- An answer, with the service and the number that were requested. -/
structure CommandAnswer where
  service : CommandService
  command : Int8
  response : StateChangeResponse
  deriving DecidableEq, Repr

/-- What a client can tell of an answer, apart from its message. -/
def CommandAnswer.outcome (answer : CommandAnswer) : Int8 × Bool × Int :=
  (answer.command, answer.response.success, answer.response.errorCode)

/-! ### The node -/

/-- How far the ROS thread is with a request: it is about to call the command method or in its
call, is about to take the future of `changed_prom_` or waits for it, or has thrown. -/
inductive ServerPhase
  | idle
  | starting (service : CommandService) (command : Int8) (cmd : TransitionCmd)
  | calling (service : CommandService) (command : Int8) (cmd : TransitionCmd)
  | taking (command : Int8)
  | waiting (command : Int8) (future : ℕ)
  | threw (command : Int8) (error : FutureError)
  deriving DecidableEq, Repr

namespace ServerPhase

/-- The handler calls the method of its command, and mode requests are handled on the same
thread. -/
def permits (phase : ServerPhase) : CallAction Unit → Bool
  | .assign _ cmd =>
    match phase with
    | .starting _ _ called => decide (called = cmd)
    | _ => false
  | .machine (.changeMode _) | .machine .modeSwitched => decide (phase = .idle)
  | _ => true

/-- The handler after a statement of the call or a step of the machine. -/
def after (phase : ServerPhase) : CallAction Unit → ServerPhase
  | .assign _ _ =>
    match phase with
    | .starting service command cmd => .calling service command cmd
    | _ => phase
  | _ => phase

end ServerPhase

/-- `SMNode`, as far as its command services are concerned. -/
structure CommandServer where
  calls : CommandCalls Unit
  changedProm : PromiseVariable Bool
  handler : ServerPhase
  answers : List CommandAnswer

/-- A request arrives; a statement of the call in the handler or a step of the machine; the handler
goes on after the call; it takes the future of `changed_prom_`; it waits for it. -/
inductive CommandAction
  | request (service : CommandService) (command : Int8)
  | call (action : CallAction Unit)
  | returned
  | takeChanged
  | awaitChanged
  deriving DecidableEq

namespace CommandServer

variable (s : CommandServer)

/-- The machine of the node. -/
abbrev machine : Execution := s.calls.machine

/-- The handler answers and is ready for the next request. -/
def answer (service : CommandService) (command : Int8) (response : StateChangeResponse) :
    CommandServer :=
  { s with handler := .idle, answers := s.answers ++ [⟨service, command, response⟩] }

/-- The beginning of `transRequest`. -/
def transRequest (command : Int8) : CommandServer :=
  match transRequestCmd command.toInt with
  | some cmd => { s with handler := .starting .transition command cmd }
  | none => s.answer .transition command (unrecognizedTransition command.toInt)

/-- The beginning of `on_change_state`. -/
def onChangeState (command : Int8) : CommandServer :=
  if toTransitionCmd command.toInt = .noCommand then
    s.answer .changeState command unrecognizedResponse
  else { s with handler := .starting .changeState command (toTransitionCmd command.toInt) }

/-- The ROS thread takes a request when it handles no other and no mode request. -/
def request (service : CommandService) (command : Int8) : Option CommandServer :=
  if s.handler = .idle ∧ s.machine.switching = none then
    match service with
    | .transition => some (s.transRequest command)
    | .changeState => some (s.onChangeState command)
  else none

/-- A statement of the call in the handler, or a step of the machine. -/
def call (cycle : Cycle) (action : CallAction Unit) : Option CommandServer :=
  if s.handler.permits action then
    ((commandCalls cycle Unit).next s.calls action).map fun calls ↦
      { s with calls := calls, handler := s.handler.after action }
  else none

/-- The command method has returned: `transRequest` answers, and `on_change_state` goes on with the
result of `changeState`. -/
def returned : Option CommandServer :=
  match s.handler, s.calls.threads () with
  | .calling .transition command _, .returned _ _ verdict =>
    some (s.answer .transition command (transRequestResponse command.toInt verdict))
  | .calling .changeState command cmd, .returned _ _ verdict =>
    match PackML.changeState cmd verdict with
    | .ok _ => some { s with handler := .taking command }
    | .error message =>
      some (s.answer .changeState command
        ⟨false, StateChangeResponse.invalidTransitionRequest, message⟩)
  | _, _ => none

/-- `changed_prom_.get_future()`. -/
def takeChanged : Option CommandServer :=
  match s.handler with
  | .taking command =>
    match s.changedProm.getFuture with
    | .ok (future, prom) =>
      some { s with changedProm := prom, handler := .waiting command future }
    | .error error => some { s with handler := .threw command error }
  | _ => none

/-- `future.get()` on the future of `changed_prom_`, and the answer. -/
def awaitChanged : Option CommandServer :=
  match s.handler with
  | .waiting command future =>
    match s.changedProm.get future with
    | none => none
    | some (.ok _) =>
      some (s.answer .changeState command
        { success := true, errorCode := StateChangeResponse.successCode })
    | some (.error error) => some { s with handler := .threw command error }
  | _ => none

/-- The node after its constructor. -/
def activated : CommandServer :=
  ⟨.activated, .new, .idle, []⟩

end CommandServer

/-- The runs of the node. -/
def commandServices (cycle : Cycle) : TransitionSystem CommandServer CommandAction where
  initial s := s = .activated
  next s
    | .request service command => s.request service command
    | .call action => s.call cycle action
    | .returned => s.returned
    | .takeChanged => s.takeChanged
    | .awaitChanged => s.awaitChanged

/-! ### Statements -/

namespace CommandAction

/-- The same step when requests are sent through `~/transition`. -/
def viaTransition : CommandAction → CommandAction
  | .request _ command => .request .transition command
  | action => action

/-- Whether the handlers of both services can take the step: all but the wait for
`changed_prom_`. -/
def isCommon : CommandAction → Bool
  | .takeChanged | .awaitChanged => false
  | _ => true

/-- The steps that handle a request: neither requests nor mode changes. -/
def Handles : CommandAction → Prop
  | .request _ _ | .call (.machine (.changeMode _)) | .call (.machine .modeSwitched) => False
  | _ => True

end CommandAction

/-- The node has its machine where the reference has it, and can still give every answer that the
reference has given, with the same flags and error codes, by handling its requests. -/
structure AgreesWith (cycle : Cycle) (s reference : CommandServer) : Prop where
  machine : s.machine = reference.machine
  answers : (commandServices cycle).CanReach CommandAction.Handles
    (fun t ↦ t.answers.map CommandAnswer.outcome = reference.answers.map CommandAnswer.outcome) s

/-- A command was offered to a machine that was not in ABORTING and selected no transition for
it. -/
def ProcessedCommand.Refused (cycle : Cycle) (record : ProcessedCommand) : Prop :=
  State.aborting.generated ∉ chart.activeLeaves record.configuration ∧
    (selectTransitions cycle record.available record.configuration (.cmdEvent record.cmd)).1 = []

instance (cycle : Cycle) (record : ProcessedCommand) : Decidable (record.Refused cycle) :=
  inferInstanceAs (Decidable (_ ∧ _))

/-- The number of the command whose method has returned in `on_change_state`. -/
def CommandServer.changeStateReturned (s : CommandServer) : Option ℕ :=
  match s.handler, s.calls.threads () with
  | .calling .changeState _ _, .returned _ number _ => some number
  | _, _ => none

/-- No command that was sent through `~/changeState` is accepted. -/
def ChangeStateRefused (cycle : Cycle) (s : CommandServer) : CommandAction → Prop
  | .returned => ∀ number ∈ s.changeStateReturned,
      ∀ record ∈ s.calls.processed (.command number), record.Refused cycle
  | _ => True

instance (cycle : Cycle) (s : CommandServer) : DecidablePred (ChangeStateRefused cycle s)
  | .returned => inferInstanceAs (Decidable (∀ number ∈ s.changeStateReturned,
      ∀ record ∈ s.calls.processed (.command number), record.Refused cycle))
  | .request _ _ | .call _ | .takeChanged | .awaitChanged => inferInstanceAs (Decidable True)

/-! ### What each step does -/

/-- One case of the two switches, which both name `cmd`. -/
theorem switchCase_eq {matched : Prop} [Decidable matched] {cmd remaining : TransitionCmd}
    {other : Option TransitionCmd} (hcmd : cmd ≠ .noCommand)
    (hother : other = if remaining = .noCommand then none else some remaining) :
    (if matched then some cmd else other) =
      if (if matched then cmd else remaining) = .noCommand then none
      else some (if matched then cmd else remaining) := by
  by_cases hmatched : matched
  · simp only [if_pos hmatched, if_neg hcmd]
  · simp only [if_neg hmatched, hother]

/-- The two switches name the same commands. -/
theorem transRequestCmd_eq (commandInt : Int) :
    transRequestCmd commandInt =
      if toTransitionCmd commandInt = .noCommand then none
      else some (toTransitionCmd commandInt) := by
  unfold transRequestCmd toTransitionCmd
  iterate 9 refine switchCase_eq nofun ?_
  rfl

section Steps

variable {cycle : Cycle} {s t : CommandServer} {service : CommandService} {command : Int8}

/-- Both services answer a number that is no command at once, and go on to the same command method
for the others. -/
theorem request_eq (hhandler : s.handler = .idle) (hswitching : s.machine.switching = none)
    (service : CommandService) (command : Int8) :
    (toTransitionCmd command.toInt = .noCommand ∧ ∃ response,
        (response.success, response.errorCode) =
          (false, StateChangeResponse.unrecgonizedRequest) ∧
        s.request service command = some (s.answer service command response)) ∨
      (toTransitionCmd command.toInt ≠ .noCommand ∧ s.request service command =
        some { s with handler := .starting service command (toTransitionCmd command.toInt) }) := by
  have hrequest : s.request service command =
      match service with
      | .transition => some (s.transRequest command)
      | .changeState => some (s.onChangeState command) := if_pos ⟨hhandler, hswitching⟩
  by_cases hcommand : toTransitionCmd command.toInt = .noCommand
  · refine Or.inl ⟨hcommand, ?_⟩
    cases service with
    | transition =>
      refine ⟨unrecognizedTransition command.toInt, rfl, ?_⟩
      simp only [hrequest, CommandServer.transRequest, transRequestCmd_eq, if_pos hcommand]
    | changeState =>
      refine ⟨unrecognizedResponse, rfl, ?_⟩
      simp only [hrequest, CommandServer.onChangeState, if_pos hcommand]
  · refine Or.inr ⟨hcommand, ?_⟩
    cases service with
    | transition =>
      simp only [hrequest, CommandServer.transRequest, transRequestCmd_eq, if_neg hcommand]
    | changeState => simp only [hrequest, CommandServer.onChangeState, if_neg hcommand]

/-- What the beginning of a request does. -/
theorem server_request_spec (hnext : s.request service command = some t) :
    s.handler = .idle ∧ s.machine.switching = none ∧
      ((∃ response, t = s.answer service command response) ∨
        (toTransitionCmd command.toInt ≠ .noCommand ∧
          t = { s with
            handler := .starting service command (toTransitionCmd command.toInt) })) := by
  obtain ⟨hhandler, hswitching⟩ := (Option.ite_none_right_eq_some.mp hnext).1
  refine ⟨hhandler, hswitching, ?_⟩
  rcases request_eq hhandler hswitching service command with
    ⟨-, response, -, hrequest⟩ | ⟨hcommand, hrequest⟩
  · exact Or.inl ⟨response, Option.some.inj (hnext.symm.trans hrequest)⟩
  · exact Or.inr ⟨hcommand, Option.some.inj (hnext.symm.trans hrequest)⟩

theorem server_call_spec {action : CallAction Unit} (hnext : s.call cycle action = some t) :
    s.handler.permits action = true ∧
      ∃ calls, (commandCalls cycle Unit).next s.calls action = some calls ∧
        t = { s with calls := calls, handler := s.handler.after action } := by
  obtain ⟨hpermits, hnext⟩ := Option.ite_none_right_eq_some.mp hnext
  obtain ⟨calls, hcalls, rfl⟩ := Option.map_eq_some_iff.mp hnext
  exact ⟨hpermits, calls, hcalls, rfl⟩

/-- Both services give the verdict of the command, except that `on_change_state` goes on to
`changed_prom_` after an acceptance. -/
theorem returned_eq {cmd called : TransitionCmd} {number : ℕ} {verdict : Bool}
    (hhandler : s.handler = .calling service command cmd) (hcmd : cmd ≠ .noCommand)
    (hthread : s.calls.threads () = .returned called number verdict) :
    (service = .changeState ∧ verdict = true ∧
        s.returned = some { s with handler := .taking command }) ∨
      ((service = .changeState → verdict = false) ∧ ∃ response,
        (response.success, response.errorCode) =
          (verdict, if verdict then StateChangeResponse.successCode
            else StateChangeResponse.invalidTransitionRequest) ∧
        s.returned = some (s.answer service command response)) := by
  cases service with
  | transition =>
    refine Or.inr ⟨nofun, transRequestResponse command.toInt verdict, ?_, ?_⟩
    · cases verdict <;> rfl
    · simp only [CommandServer.returned, hhandler, hthread]
  | changeState =>
    cases verdict with
    | true =>
      refine Or.inl ⟨rfl, rfl, ?_⟩
      simp only [CommandServer.returned, hhandler, hthread,
        (changeState_eq_ok_iff hcmd true).mpr rfl]
    | false =>
      refine Or.inr ⟨fun _ ↦ rfl, ⟨false, StateChangeResponse.invalidTransitionRequest,
        "Transition command failed: " ++ cmd.toString⟩, rfl, ?_⟩
      have hfailed : changeState cmd false =
          .error ("Transition command failed: " ++ cmd.toString) := by
        simp [changeState, hcmd]
      simp only [CommandServer.returned, hhandler, hthread, hfailed]

theorem returned_enabled (hnext : s.returned = some t) :
    ∃ service command cmd called number verdict, s.handler = .calling service command cmd ∧
      s.calls.threads () = .returned called number verdict := by
  unfold CommandServer.returned at hnext
  split at hnext
  · rename_i command cmd called number verdict hhandler hthread
    exact ⟨_, _, _, _, _, _, hhandler, hthread⟩
  · rename_i command cmd called number verdict hhandler hthread
    exact ⟨_, _, _, _, _, _, hhandler, hthread⟩
  · cases hnext

theorem server_takeChanged_spec (hnext : s.takeChanged = some t) :
    ∃ command, s.handler = .taking command ∧
      ((∃ future prom, s.changedProm.getFuture = .ok (future, prom) ∧
          t = { s with changedProm := prom, handler := .waiting command future }) ∨
        ∃ error, t = { s with handler := .threw command error }) := by
  unfold CommandServer.takeChanged at hnext
  split at hnext
  · rename_i command hhandler
    refine ⟨command, hhandler, ?_⟩
    split at hnext
    · rename_i future prom htake
      exact Or.inl ⟨future, prom, htake, (Option.some.inj hnext).symm⟩
    · rename_i error htake
      exact Or.inr ⟨error, (Option.some.inj hnext).symm⟩
  · cases hnext

theorem awaitChanged_enabled (hnext : s.awaitChanged = some t) :
    ∃ command future, s.handler = .waiting command future := by
  unfold CommandServer.awaitChanged at hnext
  split at hnext
  · rename_i command future hhandler
    exact ⟨command, future, hhandler⟩
  · cases hnext

/-- The handler waits as long as nobody satisfies or breaks the promise. -/
theorem awaitChanged_eq_none (hpending : ∀ id, (s.changedProm.shared id).outcome = .pending) :
    s.awaitChanged = none := by
  unfold CommandServer.awaitChanged
  split
  · rename_i command future hhandler
    rw [PromiseVariable.get_eq_none_iff.mpr (hpending future)]
  · rfl

end Steps

end PackML
