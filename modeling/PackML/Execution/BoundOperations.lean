import PackML.Execution.Lifecycle

/-!
# The functions that the operations run

Every acting state object has a `function_` of its own. `setExecute` and `setResetting` store their
function in the objects that the constructor of the machine has made; the machine runs in the
objects of the generator, and the last statement of `init` gives the EXECUTE object among these a
function that sleeps and returns 0. So no bound function ever runs (`generated_unbound`).

`starts` records the operations that were started, with the function of the object entered and the
one that was asked for; `finishes` records the codes they have returned. `OperationsBound` says that
an operation runs the function asked for and returns one of its codes. By `operations_bound_iff` a
run has this property exactly when it starts no operation of EXECUTE or RESETTING after a function
was bound to that state.
-/

set_option autoImplicit false
set_option relaxedAutoImplicit false

namespace PackML

/-! ### Functions -/

/-- The `function_` of an acting state object: the one of `init`, or a function of a client. -/
inductive StateFunction (Method : Type)
  | sleep
  | method (function : Method)
  deriving DecidableEq, Repr

/-- One start of an operation: the function of the object entered, and the function that was bound
to its state last. -/
structure OperationStart (Method : Type) where
  activation : Activation
  function : Option (StateFunction Method)
  requested : Option Method
  deriving DecidableEq, Repr

/-- A machine with the functions of its state objects. `requested` is the function of the last call
of `setExecute` or `setResetting` for each state; the code has neither this nor the records. -/
structure BoundMachine (Method : Type) where
  lifecycle : Lifecycle
  functions : PackmlState → Option (StateFunction Method)
  requested : State → Option Method
  starts : List (OperationStart Method)
  finishes : List (OperationStart Method × Int)

/-- The calls of the setters, and the steps of the machine. -/
inductive BoundAction (Method : Type)
  | setExecute (function : Method)
  | setResetting (function : Method)
  | lifecycle (action : LifecycleAction)
  deriving DecidableEq

/-- The codes that an operation can end with: an object without a function delays and completes, the
function of `init` returns 0, and a function of a client any code that is its own. -/
def mayReturn {Method : Type} (returns : Method → Int → Bool) :
    Option (StateFunction Method) → Int → Bool
  | none, code => decide (code = 0)
  | some .sleep, code => decide (code = 0)
  | some (.method function), code => returns function code

/-- `ActingState::setOperationMethod`, and the value that it returns. -/
def setOperationMethod {Method : Type} (functions : PackmlState → Option (StateFunction Method))
    (object : PackmlState) (function : StateFunction Method) :
    (PackmlState → Option (StateFunction Method)) × Bool :=
  (Function.update functions object (some function), true)

namespace BoundMachine

variable {Method : Type} (cycle : Cycle) (returns : Method → Int → Bool) (s : BoundMachine Method)

/-- The functions after `init`: the object filed as EXECUTE gets one. -/
def initFunctions : PackmlState → Option (StateFunction Method) :=
  match states.lookup State.execute.toString with
  | some object => (setOperationMethod (fun _ ↦ none) object .sleep).1
  | none => fun _ ↦ none

/-- The machines of `singleCycleSM` and `continuousCycleSM`. -/
def built (stateValue : State) : BoundMachine Method :=
  ⟨⟨.constructed stateValue, .notRunning, false⟩, initFunctions, fun _ ↦ none, [], []⟩

/-- A setter: the function goes to the object that the constructor has made for the state. -/
def bindFunction (state : State) (function : Method) : BoundMachine Method × Bool :=
  let result := setOperationMethod s.functions (.simpleState .stateMachine state) (.method function)
  ({ s with
      functions := result.1
      requested := Function.update s.requested state (some function) }, result.2)

/-- `StateMachine::setExecute`. -/
def setExecute : Method → BoundMachine Method × Bool :=
  s.bindFunction .execute

/-- `StateMachine::setResetting`. -/
def setResetting : Method → BoundMachine Method × Bool :=
  s.bindFunction .resetting

/-- The operation that a step starts: that of the acting state object that was entered. -/
def startedBy : LifecycleAction → List (OperationStart Method)
  | .machine .notified =>
    ((chart.activeLeaves s.lifecycle.machine.configuration).filter fun object ↦
      object.state.acting).map fun object ↦
        ⟨⟨object.state, s.lifecycle.machine.activations⟩, s.functions object,
          s.requested object.state⟩
  | _ => []

/-- The end of an operation in a step, with its code. -/
def finishedBy : LifecycleAction → List (OperationStart Method × Int)
  | .machine (.finish activation code) =>
    ((s.starts.find? fun start ↦ decide (start.activation = activation)).map
      fun start ↦ (start, code)).toList
  | _ => []

/-- An operation ends with a code of its function. -/
def returnsOwnCode (action : LifecycleAction) : Bool :=
  (s.finishedBy action).all fun finish ↦ mayReturn returns finish.1.function finish.2

/-- A step of the machine. -/
def lifecycleStep (action : LifecycleAction) : Option (BoundMachine Method) :=
  if s.returnsOwnCode returns action then
    ((PackML.lifecycle cycle).next s.lifecycle action).map fun next ↦
      { s with
        lifecycle := next
        starts := s.starts ++ s.startedBy action
        finishes := s.finishes ++ s.finishedBy action }
  else none

end BoundMachine

section

variable {Method : Type}

/-- The runs of a machine and of the clients that bind functions. -/
def boundMachine (cycle : Cycle) (returns : Method → Int → Bool) :
    TransitionSystem (BoundMachine Method) (BoundAction Method) where
  initial s := ∃ stateValue, s = .built stateValue
  next s
    | .setExecute function => some (s.setExecute function).1
    | .setResetting function => some (s.setResetting function).1
    | .lifecycle action => s.lifecycleStep cycle returns action

/-! ### Statements -/

/-- Every operation started after a function was bound to its state runs this function and returns
a code of it, for which it posts a completion or an error. -/
structure OperationsBound (returns : Method → Int → Bool) (s : BoundMachine Method) : Prop where
  runs : ∀ start ∈ s.starts, ∀ function, start.requested = some function →
    start.function = some (.method function)
  returned : ∀ finish ∈ s.finishes, ∀ function, finish.1.requested = some function →
    returns function finish.2 = true

/-- The step starts no operation of a state to which a function was bound. -/
def StartsUnbound (s : BoundMachine Method) : BoundAction Method → Prop
  | .lifecycle action => ∀ start ∈ s.startedBy action, start.requested = none
  | _ => True

instance [DecidableEq Method] (s : BoundMachine Method) : DecidablePred (StartsUnbound s)
  | .lifecycle action =>
    inferInstanceAs (Decidable (∀ start ∈ s.startedBy action, start.requested = none))
  | .setExecute _ | .setResetting _ => inferInstanceAs (Decidable True)

/-- What holds in every run: the objects of the generator have no function of a client, and an
operation that has ended was started and has returned a code of the function it ran. -/
structure BoundInvariant (cycle : Cycle) (returns : Method → Int → Bool)
    (s : BoundMachine Method) : Prop where
  located : LifecycleLocated cycle s.lifecycle
  generated : ∀ state function, s.functions (State.generated state) ≠ some (.method function)
  finished : ∀ finish ∈ s.finishes, finish.1 ∈ s.starts ∧
    mayReturn returns finish.1.function finish.2 = true

variable {cycle : Cycle} {returns : Method → Int → Bool} {s t : BoundMachine Method}

/-! ### The objects of the generator -/

/-- `init` gives a function to the EXECUTE object of the generator only. -/
theorem initFunctions_eq :
    (BoundMachine.initFunctions : PackmlState → Option (StateFunction Method)) =
      Function.update (fun _ ↦ none) State.execute.generated (some .sleep) := by
  rw [BoundMachine.initFunctions, states_lookup (by decide)]
  rfl

theorem boundInvariant_built (stateValue : State) :
    BoundInvariant cycle returns (.built stateValue) := by
  refine ⟨fun hrunning ↦ ?_, fun state function heq ↦ ?_, fun finish hfinish ↦ ?_⟩
  · cases hrunning
  · rw [BoundMachine.built, initFunctions_eq] at heq
    by_cases hexecute : state = .execute
    · simp [hexecute] at heq
    · simp [hexecute] at heq
  · cases hfinish

/-- A setter does not reach the objects of the generator. -/
theorem BoundInvariant.bindFunction (hs : BoundInvariant cycle returns s) (state : State)
    (function : Method) : BoundInvariant cycle returns (s.bindFunction state function).1 := by
  refine ⟨hs.located, fun other f heq ↦ hs.generated other f ?_, hs.finished⟩
  rw [← heq]
  simp [BoundMachine.bindFunction, setOperationMethod]

theorem lifecycleStep_cases {action : LifecycleAction}
    (hnext : s.lifecycleStep cycle returns action = some t) :
    s.returnsOwnCode returns action = true ∧
      ∃ next, (PackML.lifecycle cycle).next s.lifecycle action = some next ∧
        t = { s with
          lifecycle := next
          starts := s.starts ++ s.startedBy action
          finishes := s.finishes ++ s.finishedBy action } := by
  obtain ⟨hcode, hnext⟩ := Option.ite_none_right_eq_some.mp hnext
  obtain ⟨next, hstep, rfl⟩ := Option.map_eq_some_iff.mp hnext
  exact ⟨hcode, next, hstep, rfl⟩

/-- An operation that ends in a step was started before. -/
theorem start_mem_of_mem_finishedBy {action : LifecycleAction}
    {finish : OperationStart Method × Int} (hfinish : finish ∈ s.finishedBy action) :
    finish.1 ∈ s.starts := by
  unfold BoundMachine.finishedBy at hfinish
  split at hfinish
  · obtain ⟨start, hstart, rfl⟩ := Option.map_eq_some_iff.mp (Option.mem_toList.mp hfinish)
    exact List.mem_of_find?_eq_some hstart
  · cases hfinish

theorem boundInvariant_step (hs : BoundInvariant cycle returns s) {action : BoundAction Method}
    (hnext : (boundMachine cycle returns).next s action = some t) :
    BoundInvariant cycle returns t := by
  cases action with
  | setExecute function =>
    obtain rfl := Option.some.inj hnext
    exact hs.bindFunction .execute function
  | setResetting function =>
    obtain rfl := Option.some.inj hnext
    exact hs.bindFunction .resetting function
  | lifecycle action =>
    obtain ⟨hcode, next, hstep, rfl⟩ := lifecycleStep_cases hnext
    refine ⟨lifecycleLocated_step hs.located hstep, hs.generated, fun finish hfinish ↦ ?_⟩
    rcases List.mem_append.mp hfinish with hold | hnew
    · obtain ⟨hstart, hreturn⟩ := hs.finished finish hold
      exact ⟨List.mem_append_left _ hstart, hreturn⟩
    · exact ⟨List.mem_append_left _ (start_mem_of_mem_finishedBy hnew),
        List.all_eq_true.mp hcode finish hnew⟩

theorem boundInvariant_of_reachable (hrun : (boundMachine cycle returns).Reachable s) :
    BoundInvariant cycle returns s := by
  refine hrun.invariant ?_ ?_
  · rintro s ⟨stateValue, rfl⟩
    exact boundInvariant_built stateValue
  · intro s action t hs hnext
    exact boundInvariant_step hs hnext

/-- The operation that a step starts is that of an object of the generator. -/
theorem startedBy_generated (hs : BoundInvariant cycle returns s) {action : LifecycleAction}
    {next : Lifecycle} (hnext : (PackML.lifecycle cycle).next s.lifecycle action = some next) :
    ∀ start ∈ s.startedBy action, ∃ state : State,
      start.function = s.functions state.generated := by
  intro start hstart
  unfold BoundMachine.startedBy at hstart
  split at hstart
  · obtain ⟨machine, hmachine, -⟩ := Option.map_eq_some_iff.mp hnext
    obtain ⟨hactive, hnotified⟩ := Option.ite_none_right_eq_some.mp hmachine
    have hlocated := hs.located (of_decide_eq_true hactive)
    obtain ⟨hphase, -⟩ := notified_spec hlocated hnotified
    rw [hlocated.configuration_eq (by simp [hphase]), chart_activeLeaves_path] at hstart
    obtain ⟨object, hobject, rfl⟩ := List.mem_map.mp hstart
    obtain rfl := List.mem_singleton.mp (List.mem_filter.mp hobject).1
    exact ⟨_, rfl⟩
  · cases hstart

/-! ### The result -/

/-- An operation of a state to which a function was bound does not run it. -/
theorem requested_eq_none (hs : BoundInvariant cycle returns s) {action : LifecycleAction}
    {next : Lifecycle} (hnext : (PackML.lifecycle cycle).next s.lifecycle action = some next)
    {start : OperationStart Method} (hstart : start ∈ s.startedBy action)
    (hruns : ∀ function, start.requested = some function →
      start.function = some (.method function)) : start.requested = none := by
  obtain ⟨state, hfunction⟩ := startedBy_generated hs hnext start hstart
  cases hrequested : start.requested with
  | none => rfl
  | some function =>
    have hbound := hruns function hrequested
    rw [hfunction] at hbound
    exact absurd hbound (hs.generated state function)

theorem operationsBound_step (hs : BoundInvariant cycle returns s) {action : BoundAction Method}
    (hnext : (boundMachine cycle returns).next s action = some t) :
    OperationsBound returns t ↔ OperationsBound returns s ∧ StartsUnbound s action := by
  have ht := boundInvariant_step hs hnext
  cases action with
  | setExecute function =>
    obtain rfl := Option.some.inj hnext
    exact ⟨fun h ↦ ⟨⟨h.runs, h.returned⟩, trivial⟩, fun h ↦ ⟨h.1.runs, h.1.returned⟩⟩
  | setResetting function =>
    obtain rfl := Option.some.inj hnext
    exact ⟨fun h ↦ ⟨⟨h.runs, h.returned⟩, trivial⟩, fun h ↦ ⟨h.1.runs, h.1.returned⟩⟩
  | lifecycle action =>
    obtain ⟨-, next, hstep, rfl⟩ := lifecycleStep_cases hnext
    constructor
    · intro h
      refine ⟨⟨fun start hstart ↦ h.runs start (List.mem_append_left _ hstart),
        fun finish hfinish ↦ h.returned finish (List.mem_append_left _ hfinish)⟩, ?_⟩
      intro start hstart
      exact requested_eq_none hs hstep hstart (h.runs start (List.mem_append_right _ hstart))
    · rintro ⟨h, hunbound⟩
      have hruns : ∀ start ∈ s.starts ++ s.startedBy action, ∀ function,
          start.requested = some function → start.function = some (.method function) := by
        intro start hstart function hrequested
        rcases List.mem_append.mp hstart with hold | hnew
        · exact h.runs start hold function hrequested
        · cases (hunbound start hnew).symm.trans hrequested
      refine ⟨hruns, fun finish hfinish function hrequested ↦ ?_⟩
      obtain ⟨hstart, hreturn⟩ := ht.finished finish hfinish
      rwa [hruns finish.1 hstart function hrequested] at hreturn

/-- A run has the operations run the functions bound to their states exactly when it starts no
operation of a state after a function was bound to that state. -/
theorem operations_bound_iff {stateValue : State} {actions : List (BoundAction Method)}
    (hrun : (boundMachine cycle returns).runFrom (.built stateValue) actions = some s) :
    OperationsBound returns s ↔
      (boundMachine cycle returns).AllowedAlong StartsUnbound actions (.built stateValue) := by
  have hstep : ∀ s action t, (boundMachine cycle returns).Reachable s →
      (boundMachine cycle returns).next s action = some t →
        (OperationsBound returns t ↔ OperationsBound returns s ∧ StartsUnbound s action) :=
    fun s action t hreachable hnext ↦
      operationsBound_step (boundInvariant_of_reachable hreachable) hnext
  have hinitial : OperationsBound returns (.built stateValue : BoundMachine Method) := by
    constructor
    · intro start hstart
      cases hstart
    · intro finish hfinish
      cases hfinish
  rw [TransitionSystem.iff_allowedAlong_of_runFrom hstep (.initial ⟨stateValue, rfl⟩) actions hrun]
  exact and_iff_right hinitial

end

/-! ### Runs -/

/-- A function is bound to EXECUTE before the machine is activated. -/
def boundStart : List (BoundAction Unit) :=
  [.setExecute ()] ++ ([.activate true, .started, .machine (.changeMode .manual),
    .machine .modeSwitched, .machine .notified] : List LifecycleAction).map .lifecycle

/-- The machine is taken from ABORTED to EXECUTE, where the function of `init` returns 0. -/
def executeRun : List (BoundAction Unit) :=
  ([.post .clear, .select, .leave, .enter, .notified, .finish ⟨.clearing, 0⟩ 0, .select, .leave,
    .enter, .notified, .post .reset, .select, .leave, .enter, .notified, .finish ⟨.resetting, 1⟩ 0,
    .select, .leave, .enter, .notified, .post .start, .select, .leave, .enter, .notified,
    .finish ⟨.starting, 2⟩ 0, .select, .leave, .enter, .notified, .finish ⟨.execute, 3⟩ 0, .select,
    .leave, .enter, .notified] : List Action).map fun action ↦ .lifecycle (.machine action)

/-- A function that always fails. -/
def failing : Unit → Int → Bool :=
  fun _ code ↦ decide (code = -1)

/-- With a function bound to EXECUTE, the machine is taken to STARTING, whose operation returns. -/
def startingRun : List (BoundAction Unit) :=
  boundStart ++ executeRun.take 26

theorem operations_bound_iff_startingRun :
    ∃ s, (boundMachine .singleCycle failing).runFrom (.built .undefined) startingRun = some s ∧
      s.requested .execute = some () ∧
      s.starts.map (fun start ↦ start.activation.state) = [.clearing, .resetting, .starting] ∧
      OperationsBound failing s := by
  have hend : ((boundMachine .singleCycle failing).runFrom (.built .undefined) startingRun).map
      (fun s ↦ (s.requested .execute, s.starts.map fun start ↦ start.activation.state)) =
      some (some (), [.clearing, .resetting, .starting]) := rfl
  obtain ⟨s, hrun, hs⟩ := Option.map_eq_some_iff.mp hend
  obtain ⟨hrequested, hstarts⟩ := Prod.mk.injEq .. ▸ hs
  have hallowed : (boundMachine .singleCycle failing).AllowedAlong StartsUnbound startingRun
      (.built .undefined) := by
    decide +kernel
  exact ⟨s, hrun, hrequested, hstarts, (operations_bound_iff hrun).mpr hallowed⟩

/-- EXECUTE runs the function of `init` instead of the one that was bound, and completes instead of
being aborted. -/
theorem bound_function_not_run :
    ∃ s, (boundMachine .singleCycle failing).runFrom (.built .undefined)
        (boundStart ++ executeRun) = some s ∧
      (⟨⟨.execute, 3⟩, some .sleep, some ()⟩ : OperationStart Unit) ∈ s.starts ∧
      chart.activeLeaves s.lifecycle.machine.configuration = [State.completing.generated] ∧
      ¬ OperationsBound failing s := by
  have hend : ((boundMachine .singleCycle failing).runFrom (.built .undefined)
      (boundStart ++ executeRun)).map (fun s ↦
        (s.starts.find? fun start ↦ decide (start.activation.state = .execute),
          chart.activeLeaves s.lifecycle.machine.configuration)) =
      some (some ⟨⟨.execute, 3⟩, some .sleep, some ()⟩, [State.completing.generated]) := rfl
  obtain ⟨s, hrun, hs⟩ := Option.map_eq_some_iff.mp hend
  obtain ⟨hfind, hactive⟩ := Prod.mk.injEq .. ▸ hs
  have hstart := List.mem_of_find?_eq_some hfind
  refine ⟨s, hrun, hstart, hactive, fun hbound ↦ ?_⟩
  cases hbound.runs _ hstart () rfl

end PackML
