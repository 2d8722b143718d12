import PackML.Execution.TruthfulVerdicts

/-!
# The changeState service

The ROS thread handles one request at a time: it calls `changeState`, which returns once the
command has been accepted or refused, and after an acceptance takes the future of `changed_prom_`
and waits for it. The Qt thread replaces this promise and satisfies it at the beginning of
`on_state_changed`, that is, after the target of a transition has been entered. Which promise the
handler finds depends on how far the Qt thread is by then.

`entered` lists the events whose transitions have entered their targets, and every answer records
whether the target of its command was entered; the code has neither. `AnswersAfterEntry` says that
success is answered only after that and that the handler never throws. `early_answer` and
`future_taken_twice` are runs that violate it. `TakesAnnouncedPromise` excludes the responsible
steps: the future is taken after a command that was accepted outside ABORTING, and not before the
Qt thread has replaced the promise for the target of the command. Along the runs that meet it
`answers_after_entry` holds, by the invariants `ServiceBase` of all runs and `PromiseInvariant`.
-/

set_option autoImplicit false
set_option relaxedAutoImplicit false

namespace PackML

/-! ### Requests and responses -/

/-- `to_transition_cmd`, for the value of the field `command`. -/
def toTransitionCmd (command : Int) : TransitionCmd :=
  if command = 8 then .abort
  else if command = 3 then .stop
  else if command = 9 then .clear
  else if command = 4 then .hold
  else if command = 1 then .reset
  else if command = 2 then .start
  else if command = 6 then .suspend
  else if command = 5 then .unhold
  else if command = 7 then .unsuspend
  else .noCommand

/-- The response of the service; its fields are zero and empty unless they are set. -/
structure StateChangeResponse where
  success : Bool
  errorCode : Int
  message : String := ""
  deriving DecidableEq, Repr

namespace StateChangeResponse

/-- The constant `UNRECGONIZED_REQUEST`, as the message definition spells it. -/
def unrecgonizedRequest : Int := -2

def invalidTransitionRequest : Int := -1

def successCode : Int := 1

end StateChangeResponse

/-- The response to a request that names no command. -/
def unrecognizedResponse : StateChangeResponse where
  success := false
  errorCode := StateChangeResponse.unrecgonizedRequest
  message := "Unrecognized transition request command: " ++ TransitionCmd.noCommand.toString

/-! ### The service -/

/-- How far `on_change_state` is: it handles no request, is about to call the command method or in
its call, is about to take the future of `changed_prom_` or waits for it, or has thrown. -/
inductive HandlerPhase
  | idle
  | starting (cmd : TransitionCmd)
  | calling (cmd : TransitionCmd)
  | taking (cmd : TransitionCmd) (number : ℕ)
  | waiting (cmd : TransitionCmd) (number future : ℕ)
  | threw (error : FutureError)
  deriving DecidableEq, Repr

/-- How far `on_state_changed` is with `changed_prom_`. -/
inductive AnnounceStage
  | replacing | satisfying | announced
  deriving DecidableEq, Repr

/-- An answer of the service, and whether the target of its command had been entered. -/
structure Answer where
  response : StateChangeResponse
  targetEntered : Bool
  deriving DecidableEq, Repr

/-- The manager with its state machine, as far as the service is concerned. -/
structure StateService where
  calls : CommandCalls Unit
  changedProm : PromiseVariable Bool
  stage : AnnounceStage
  handler : HandlerPhase
  entered : List Origin
  answers : List Answer

/-- A request arrives; a statement of the call in the handler or a step of the machine; the handler
goes on after the call; it takes the future of `changed_prom_`; it waits for it; the Qt thread
replaces `changed_prom_` and satisfies it. -/
inductive ServiceAction
  | request (command : Int)
  | call (action : CallAction Unit)
  | returned
  | takeChanged
  | awaitChanged
  | replaceChanged
  | satisfyChanged
  deriving DecidableEq

namespace StateService

variable (s : StateService)

/-- The machine of the service. -/
abbrev machine : Execution := s.calls.machine

/-- The handler calls the method of its command, and `on_state_changed` returns after it has
satisfied the promise. -/
def permits : CallAction Unit → Bool
  | .assign _ cmd => decide (s.handler = .starting cmd)
  | .machine .notified => decide (s.stage = .announced)
  | _ => true

/-- The handler after a statement of the call. -/
def handlerAfter : CallAction Unit → HandlerPhase
  | .assign _ cmd => .calling cmd
  | _ => s.handler

/-- The progress of `on_state_changed` after a step: it begins when a state is entered. -/
def stageAfter : CallAction Unit → AnnounceStage
  | .machine .enter => .replacing
  | _ => s.stage

/-- The events whose transitions have entered their targets, after a step. -/
def enteredAfter : CallAction Unit → List Origin
  | .machine .enter =>
    match s.machine.phase with
    | .entering event _ => s.entered ++ [event.origin]
    | _ => s.entered
  | _ => s.entered

/-- The handler answers and is ready for the next request. -/
def answer (response : StateChangeResponse) (targetEntered : Bool) : StateService :=
  { s with handler := .idle, answers := s.answers ++ [⟨response, targetEntered⟩] }

/-- The beginning of `on_change_state`. -/
def request (command : Int) : Option StateService :=
  match s.handler with
  | .idle =>
    if toTransitionCmd command = .noCommand then some (s.answer unrecognizedResponse false)
    else some { s with handler := .starting (toTransitionCmd command) }
  | _ => none

/-- A statement of the call in the handler, or a step of the machine. -/
def call (cycle : Cycle) (action : CallAction Unit) : Option StateService :=
  if s.permits action then
    ((commandCalls cycle Unit).next s.calls action).map fun calls ↦
      { s with
        calls := calls
        stage := s.stageAfter action
        handler := s.handlerAfter action
        entered := s.enteredAfter action }
  else none

/-- The command method has returned, and `changeState` with it. -/
def returned : Option StateService :=
  match s.handler, s.calls.threads () with
  | .calling cmd, .returned _ number verdict =>
    match changeState cmd verdict with
    | .ok _ => some { s with handler := .taking cmd number }
    | .error message =>
      some (s.answer ⟨false, StateChangeResponse.invalidTransitionRequest, message⟩ false)
  | _, _ => none

/-- `changed_prom_.get_future()`. -/
def takeChanged : Option StateService :=
  match s.handler with
  | .taking cmd number =>
    match s.changedProm.getFuture with
    | .ok (future, prom) =>
      some { s with changedProm := prom, handler := .waiting cmd number future }
    | .error error => some { s with handler := .threw error }
  | _ => none

/-- `future.get()` on the future of `changed_prom_`, and the answer. -/
def awaitChanged : Option StateService :=
  match s.handler with
  | .waiting _ number future =>
    match s.changedProm.get future with
    | none => none
    | some (.ok _) =>
      some (s.answer { success := true, errorCode := StateChangeResponse.successCode }
        (s.entered.contains (.command number)))
    | some (.error error) => some { s with handler := .threw error }
  | _ => none

/-- `changed_prom_ = std::promise<bool>()` at the beginning of `on_state_changed`. -/
def replaceChanged : Option StateService :=
  match s.machine.phase, s.stage with
  | .notifying _, .replacing =>
    some { s with changedProm := s.changedProm.replace, stage := .satisfying }
  | _, _ => none

/-- `changed_prom_.set_value(true)`. -/
def satisfyChanged : Option StateService :=
  match s.machine.phase, s.stage with
  | .notifying _, .satisfying =>
    match s.changedProm.setValue true with
    | .ok prom => some { s with changedProm := prom, stage := .announced }
    -- an exception on the Qt thread ends the program
    | .error error => some { s with handler := .threw error }
  | _, _ => none

/-- An activated machine in a manager that has not been asked anything. -/
def activated : StateService :=
  ⟨.activated, .new, .replacing, .idle, [], []⟩

end StateService

/-- The runs of the service. -/
def stateService (cycle : Cycle) : TransitionSystem StateService ServiceAction where
  initial s := s = .activated
  next s
    | .request command => s.request command
    | .call action => s.call cycle action
    | .returned => s.returned
    | .takeChanged => s.takeChanged
    | .awaitChanged => s.awaitChanged
    | .replaceChanged => s.replaceChanged
    | .satisfyChanged => s.satisfyChanged

/-- Success is answered only after the target of the accepted command has been entered, and the
handler has not thrown. -/
structure AnswersAfterEntry (s : StateService) : Prop where
  entered : ∀ answer ∈ s.answers, answer.response.success = true → answer.targetEntered = true
  notThrown : ∀ error, s.handler ≠ .threw error

/-- Whether the transition of an event is being carried out. -/
def Phase.inTransit (origin : Origin) : Phase → Bool
  | .leaving event _ | .entering event _ => decide (event.origin = origin)
  | _ => false

/-- Whether the Qt thread has entered the target of an event and has not replaced `changed_prom_`
for it yet. -/
def StateService.isUnannounced (s : StateService) (origin : Origin) : Bool :=
  decide (s.stage = .replacing) && decide (s.entered.getLast? = some origin)

/-- A handler that is about to take the future of `changed_prom_` has had a command accepted
outside ABORTING, and the Qt thread is not between the selection for this command and the
replacement of the promise for its target. -/
def StateService.Announced (s : StateService) : HandlerPhase → Prop
  | .taking _ number =>
    (∀ record ∈ s.calls.processed (.command number),
      State.aborting.generated ∉ chart.activeLeaves record.configuration) ∧
    s.machine.phase.inTransit (.command number) = false ∧
    s.isUnannounced (.command number) = false
  | _ => True

instance (s : StateService) : (handler : HandlerPhase) → Decidable (s.Announced handler)
  | .taking _ _ => inferInstanceAs (Decidable (_ ∧ _ ∧ _))
  | .idle | .starting _ | .calling _ | .waiting _ _ _ | .threw _ =>
    inferInstanceAs (Decidable True)

/-- The handler takes the future of `changed_prom_` only when the target of its command has been
announced. -/
def TakesAnnouncedPromise (s : StateService) : ServiceAction → Prop
  | .takeChanged => s.Announced s.handler
  | _ => True

instance (s : StateService) : (action : ServiceAction) → Decidable (TakesAnnouncedPromise s action)
  | .takeChanged => inferInstanceAs (Decidable (s.Announced s.handler))
  | .request _ | .call _ | .returned | .awaitChanged | .replaceChanged | .satisfyChanged =>
    inferInstanceAs (Decidable True)

/-! ### What each step does -/

section Steps

variable {cycle : Cycle} {s t : StateService}

theorem request_spec {command : Int} (hnext : s.request command = some t) :
    s.handler = .idle ∧ (t = s.answer unrecognizedResponse false ∨
      t = { s with handler := .starting (toTransitionCmd command) }) := by
  unfold StateService.request at hnext
  split at hnext
  · rename_i hhandler
    refine ⟨hhandler, ?_⟩
    by_cases hcommand : toTransitionCmd command = .noCommand
    · rw [if_pos hcommand] at hnext
      exact Or.inl (Option.some.inj hnext).symm
    · rw [if_neg hcommand] at hnext
      exact Or.inr (Option.some.inj hnext).symm
  · cases hnext

/-- What a statement of the call or a step of the machine does in the service. -/
theorem call_spec {action : CallAction Unit} (hnext : s.call cycle action = some t) :
    s.permits action = true ∧ ∃ calls, (commandCalls cycle Unit).next s.calls action = some calls ∧
      t = { s with
        calls := calls
        stage := s.stageAfter action
        handler := s.handlerAfter action
        entered := s.enteredAfter action } := by
  obtain ⟨hpermits, hnext⟩ := Option.ite_none_right_eq_some.mp hnext
  obtain ⟨calls, hcalls, rfl⟩ := Option.map_eq_some_iff.mp hnext
  exact ⟨hpermits, calls, hcalls, rfl⟩

/-- The handler goes on when its command was accepted, and answers when it was refused. -/
theorem returned_spec (hnext : s.returned = some t) :
    ∃ cmd called number verdict, s.handler = .calling cmd ∧
      s.calls.threads () = .returned called number verdict ∧
        ((verdict = true ∧ t = { s with handler := .taking cmd number }) ∨
          ∃ response, response.success = false ∧ t = s.answer response false) := by
  unfold StateService.returned at hnext
  split at hnext
  · rename_i cmd called number verdict hhandler hthread
    refine ⟨cmd, called, number, verdict, hhandler, hthread, ?_⟩
    split at hnext
    · rename_i hok
      exact Or.inl ⟨changeState_ok hok, (Option.some.inj hnext).symm⟩
    · exact Or.inr ⟨_, rfl, (Option.some.inj hnext).symm⟩
  · cases hnext

theorem takeChanged_spec (hnext : s.takeChanged = some t) :
    ∃ cmd number, s.handler = .taking cmd number ∧
      ((∃ future prom, s.changedProm.getFuture = .ok (future, prom) ∧
          t = { s with changedProm := prom, handler := .waiting cmd number future }) ∨
        ∃ error, s.changedProm.getFuture = .error error ∧
          t = { s with handler := .threw error }) := by
  unfold StateService.takeChanged at hnext
  split at hnext
  · rename_i cmd number hhandler
    refine ⟨cmd, number, hhandler, ?_⟩
    split at hnext
    · rename_i future prom htake
      exact Or.inl ⟨future, prom, htake, (Option.some.inj hnext).symm⟩
    · rename_i error htake
      exact Or.inr ⟨error, htake, (Option.some.inj hnext).symm⟩
  · cases hnext

theorem awaitChanged_spec (hnext : s.awaitChanged = some t) :
    ∃ cmd number future, s.handler = .waiting cmd number future ∧
      ((∃ value response, s.changedProm.get future = some (.ok value) ∧
          t = s.answer response (s.entered.contains (.command number))) ∨
        ∃ error, s.changedProm.get future = some (.error error) ∧
          t = { s with handler := .threw error }) := by
  unfold StateService.awaitChanged at hnext
  split at hnext
  · rename_i cmd number future hhandler
    refine ⟨cmd, number, future, hhandler, ?_⟩
    split at hnext
    · cases hnext
    · rename_i value hvalue
      exact Or.inl ⟨value, _, hvalue, (Option.some.inj hnext).symm⟩
    · rename_i error herror
      exact Or.inr ⟨error, herror, (Option.some.inj hnext).symm⟩
  · cases hnext

theorem replaceChanged_spec (hnext : s.replaceChanged = some t) :
    s.stage = .replacing ∧
      t = { s with changedProm := s.changedProm.replace, stage := .satisfying } := by
  unfold StateService.replaceChanged at hnext
  split at hnext
  · rename_i state hphase hstage
    exact ⟨hstage, (Option.some.inj hnext).symm⟩
  · cases hnext

theorem satisfyChanged_spec (hnext : s.satisfyChanged = some t) :
    s.stage = .satisfying ∧
      ((∃ prom, s.changedProm.setValue true = .ok prom ∧
          t = { s with changedProm := prom, stage := .announced }) ∨
        ∃ error, s.changedProm.setValue true = .error error ∧
          t = { s with handler := .threw error }) := by
  unfold StateService.satisfyChanged at hnext
  split at hnext
  · rename_i state hphase hstage
    refine ⟨hstage, ?_⟩
    split at hnext
    · rename_i prom hset
      exact Or.inl ⟨prom, hset, (Option.some.inj hnext).symm⟩
    · rename_i error hset
      exact Or.inr ⟨error, hset, (Option.some.inj hnext).symm⟩
  · cases hnext

/-- `on_state_changed` goes on as it was unless a state is entered. -/
theorem after_of_ne_enter {action : CallAction Unit} (henter : action ≠ .machine .enter) :
    s.stageAfter action = s.stage ∧ s.enteredAfter action = s.entered := by
  constructor
  · unfold StateService.stageAfter
    split
    · exact absurd rfl henter
    · rfl
  · unfold StateService.enteredAfter
    split
    · exact absurd rfl henter
    · rfl

end Steps

end PackML
