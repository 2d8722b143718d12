import PackML.Machine.States

/-!
# Events and the tests of the three kinds of transition

A `QEvent` carries its content and the accept flag that the tests write to: a new event is
accepted, `ignore` clears the flag and `accept` sets it. Every transition first compares the type
of the event with its own and leaves an event of another type untouched. For an event of its type
it asks `PackmlTransition::eventTest` whether its target is available, and a `CmdTransition` then
compares the commands.

`fires` states which events pass the test of a transition, as a function of the content alone;
`eventTest_fst` and `eventTest_event` show that the tests compute it and never change the content.
A `CmdTransition` that is offered a command leaves the accept flag equal to its own outcome
(`eventTest_accepted_of_isCommand`), and every other transition leaves it as it was
(`eventTest_of_not_isCommand`).
-/

set_option autoImplicit false
set_option relaxedAutoImplicit false

namespace PackML

/-! ### Events -/

/-- The three event classes posted to the machine, with the data they carry. -/
inductive PackmlEvent
  | cmdEvent (cmd : TransitionCmd)
  | stateCompleteEvent
  | errorEvent (code : Int)
  deriving DecidableEq, Repr

/-- An event on its way through the tests: its content and `isAccepted()`, which is true for a new
event. -/
structure QEvent where
  event : PackmlEvent
  accepted : Bool := true
  deriving DecidableEq, Repr

namespace QEvent

def accept (e : QEvent) : QEvent := { e with accepted := true }

def ignore (e : QEvent) : QEvent := { e with accepted := false }

end QEvent

/-! ### Transitions -/

/-- The class of a transition, with the command of a `CmdTransition`. -/
inductive TransitionKind
  | cmdTransition (cmd : TransitionCmd)
  | stateCompleteTransition
  | errorTransition
  deriving DecidableEq, Repr

/-- A transition object with its `targetState()`. -/
structure PackmlTransition where
  kind : TransitionKind
  targetState : PackmlState
  deriving DecidableEq, Repr

/-- The dynamic property "Available" of every state object; a property that was never set is not
`true`. -/
abbrev AvailableProperty := PackmlState → Option Bool

/-- `property("Available").toBool()`. -/
def AvailableProperty.toBool (available : AvailableProperty) (target : PackmlState) : Bool :=
  (available target).getD false

section EventTest

variable (available : AvailableProperty)

/-- `PackmlTransition::eventTest`: the target must be available, otherwise the event is ignored. -/
def packmlEventTest (target : PackmlState) (e : QEvent) : Bool × QEvent :=
  if available.toBool target then (true, e) else (false, e.ignore)

/-- `CmdTransition::eventTest`. -/
def cmdEventTest (cmd : TransitionCmd) (target : PackmlState) (e : QEvent) : Bool × QEvent :=
  match e.event with
  | .cmdEvent eventCmd =>
    match packmlEventTest available target e with
    | (false, e') => (false, e')
    | (true, e') => if cmd = eventCmd then (true, e'.accept) else (false, e'.ignore)
  | _ => (false, e)

/-- The test shared by the transitions without a command: the type of the event, then the
availability of the target. -/
def typedEventTest (hasType : PackmlEvent → Bool) (target : PackmlState) (e : QEvent) :
    Bool × QEvent :=
  if hasType e.event then packmlEventTest available target e else (false, e)

/-- `StateCompleteTransition::eventTest`. -/
def stateCompleteEventTest : PackmlState → QEvent → Bool × QEvent :=
  typedEventTest available fun event ↦ event matches .stateCompleteEvent

/-- `ErrorTransition::eventTest`. -/
def errorEventTest : PackmlState → QEvent → Bool × QEvent :=
  typedEventTest available fun event ↦ event matches .errorEvent _

/-- The virtual `eventTest` of a transition object. -/
def eventTest (transition : PackmlTransition) (e : QEvent) : Bool × QEvent :=
  match transition.kind with
  | .cmdTransition cmd => cmdEventTest available cmd transition.targetState e
  | .stateCompleteTransition => stateCompleteEventTest available transition.targetState e
  | .errorTransition => errorEventTest available transition.targetState e

/-- Whether a transition of a kind is for an event, whatever the availability of its target. -/
def TransitionKind.isFor : TransitionKind → PackmlEvent → Bool
  | .cmdTransition cmd, .cmdEvent eventCmd => decide (cmd = eventCmd)
  | .stateCompleteTransition, .stateCompleteEvent => true
  | .errorTransition, .errorEvent _ => true
  | _, _ => false

/-- Whether a transition passes its test for an event. -/
def fires (transition : PackmlTransition) (event : PackmlEvent) : Bool :=
  transition.kind.isFor event && available.toBool transition.targetState

/-- Whether a transition carries a command, and so writes to the accept flag of commands. -/
def TransitionKind.isCommand : TransitionKind → Bool
  | .cmdTransition _ => true
  | _ => false

/-- The outcome of a test depends on the content of the event only. -/
theorem eventTest_fst (transition : PackmlTransition) (e : QEvent) :
    (eventTest available transition e).1 = fires available transition e.event := by
  obtain ⟨kind, target⟩ := transition
  obtain ⟨event, accepted⟩ := e
  cases havailable : available.toBool target <;> cases kind <;> cases event <;>
    simp [eventTest, cmdEventTest, stateCompleteEventTest, errorEventTest, typedEventTest,
      packmlEventTest, fires, TransitionKind.isFor, havailable]
  split_ifs <;> simp_all

/-- No test changes the content of the event. -/
theorem eventTest_event (transition : PackmlTransition) (e : QEvent) :
    (eventTest available transition e).2.event = e.event := by
  obtain ⟨kind, target⟩ := transition
  obtain ⟨event, accepted⟩ := e
  cases havailable : available.toBool target <;> cases kind <;> cases event <;>
    simp [eventTest, cmdEventTest, stateCompleteEventTest, errorEventTest, typedEventTest,
      packmlEventTest, QEvent.ignore, QEvent.accept, havailable]
  split_ifs <;> rfl

/-- A `CmdTransition` that is offered a command leaves the accept flag equal to the outcome of its
test. -/
theorem eventTest_accepted_of_isCommand {transition : PackmlTransition}
    (hcommand : transition.kind.isCommand = true) {e : QEvent} {cmd : TransitionCmd}
    (hevent : e.event = .cmdEvent cmd) :
    (eventTest available transition e).2.accepted = (eventTest available transition e).1 := by
  obtain ⟨kind, target⟩ := transition
  obtain ⟨event, accepted⟩ := e
  cases kind with
  | cmdTransition transitionCmd =>
    simp only at hevent
    simp only [eventTest, cmdEventTest, packmlEventTest, hevent]
    cases available.toBool target with
    | false => rfl
    | true =>
      by_cases hcmd : transitionCmd = cmd
      · simp [hcmd, QEvent.accept]
      · simp [hcmd, QEvent.ignore]
  | stateCompleteTransition => cases hcommand
  | errorTransition => cases hcommand

/-- A transition without a command fails on a command and leaves the event as it was. -/
theorem eventTest_of_not_isCommand {transition : PackmlTransition}
    (hcommand : transition.kind.isCommand = false) {e : QEvent} {cmd : TransitionCmd}
    (hevent : e.event = .cmdEvent cmd) :
    eventTest available transition e = (false, e) := by
  obtain ⟨kind, target⟩ := transition
  obtain ⟨event, accepted⟩ := e
  obtain rfl : event = .cmdEvent cmd := hevent
  cases kind with
  | cmdTransition transitionCmd => cases hcommand
  | stateCompleteTransition => rfl
  | errorTransition => rfl

end EventTest

end PackML
