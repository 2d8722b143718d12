import PackML.Library.SharedPromise
import PackML.Execution.Execution

/-!
# Command calls and their verdicts

The command methods share one promise. A call assigns a new promise to it, posts its event, takes
the future of whatever promise is there, and waits; `endSelectTransitions` satisfies whatever
promise is there when a command has been offered to the transitions. Each of these statements is
a step, so that the calls of several threads and the Qt thread interleave in any order.

`processed` records what happened to each command event; the code has no such record.
`VerdictsMatched` says that every call returns the verdict of its own event and that no promise is
misused. `shared_promise_mixes_verdicts` is a run of two threads that violates it.
`SettledBeforeAssign` excludes the steps responsible: a call assigns its promise only when every
other call in progress has taken its future and has its verdict. Along the runs that meet it,
`CallInvariant` says whose turn it is, and `verdicts_matched` follows.
-/

set_option autoImplicit false
set_option relaxedAutoImplicit false

namespace PackML

/-! ### Calls -/

/-- What the machine did with a command event, and the flag that its verdict was read from. -/
structure ProcessedCommand where
  cmd : TransitionCmd
  available : AvailableProperty
  configuration : List PackmlState
  selection : Selection
  accepted : Bool

/-- How far a thread is in the call of a command method. -/
inductive CallPhase
  | idle
  | assigned (cmd : TransitionCmd)
  | posted (cmd : TransitionCmd) (number : ℕ)
  | waiting (cmd : TransitionCmd) (number future : ℕ)
  | returned (cmd : TransitionCmd) (number : ℕ) (verdict : Bool)
  | failed (cmd : TransitionCmd) (error : FutureError)
  deriving DecidableEq, Repr

/-- Whether a thread is in no call. -/
def CallPhase.atRest : CallPhase → Bool
  | .idle | .returned _ _ _ | .failed _ _ => true
  | .assigned _ | .posted _ _ | .waiting _ _ _ => false

/-- A machine with the threads that call its command methods. `prom` is the promise they share, and
`terminated` the error that has escaped from the Qt thread. -/
structure CommandCalls (Thread : Type) where
  machine : Execution
  prom : PromiseVariable Bool
  threads : Thread → CallPhase
  processed : Origin → Option ProcessedCommand
  terminated : Option FutureError

/-- An activated machine that was not called yet. -/
def CommandCalls.activated {Thread : Type} : CommandCalls Thread :=
  ⟨.activated, .new, fun _ ↦ .idle, fun _ ↦ none, none⟩

/-- The event of a call was processed with a verdict. -/
def CommandCalls.Verdict {Thread : Type} (s : CommandCalls Thread) (cmd : TransitionCmd)
    (number : ℕ) (verdict : Bool) : Prop :=
  ∃ record, s.processed (.command number) = some record ∧ record.cmd = cmd ∧
    record.accepted = verdict

/-- The statements of the calls, and the steps of the machine. -/
inductive CallAction (Thread : Type)
  | assign (thread : Thread) (cmd : TransitionCmd)
  | post (thread : Thread)
  | takeFuture (thread : Thread)
  | wait (thread : Thread)
  | machine (action : Action)
  deriving DecidableEq

/-- The record of a command that is offered to the active states. -/
def Execution.processCommand (cycle : Cycle) (s : Execution) (cmd : TransitionCmd) :
    ProcessedCommand :=
  let tested := selectTransitions cycle s.gen.available s.configuration (.cmdEvent cmd)
  ⟨cmd, s.gen.available, s.configuration, tested.1, tested.2.accepted⟩

/-- `PackmlStateMachine::endSelectTransitions` for the first event of the queue. -/
def CommandCalls.endSelectTransitions {Thread : Type} (cycle : Cycle) (s : CommandCalls Thread) :
    CommandCalls Thread :=
  match s.machine.queue with
  | ⟨.cmdEvent cmd, origin⟩ :: _ =>
    let record := s.machine.processCommand cycle cmd
    match s.prom.setValue record.accepted with
    | .ok prom =>
      { s with prom := prom, processed := Function.update s.processed origin (some record) }
    | .error error => { s with terminated := some error }
  | _ => s

section Steps

variable {Thread : Type} [DecidableEq Thread]

namespace CommandCalls

variable (s : CommandCalls Thread) (thread : Thread)

/-- `sm_internal_.prom = std::promise<bool>()`. -/
def assign (cmd : TransitionCmd) : Option (CommandCalls Thread) :=
  if (s.threads thread).atRest ∧ cmd ≠ .noCommand then
    some { s with
      prom := s.prom.replace
      threads := Function.update s.threads thread (.assigned cmd) }
  else none

/-- `sm_internal_.postEvent(...)`. -/
def post : Option (CommandCalls Thread) :=
  match s.threads thread with
  | .assigned cmd =>
    some { s with
      machine := s.machine.post cmd
      threads := Function.update s.threads thread (.posted cmd s.machine.commands) }
  | _ => none

/-- `sm_internal_.prom.get_future()`. -/
def takeFuture : Option (CommandCalls Thread) :=
  match s.threads thread with
  | .posted cmd number =>
    match s.prom.getFuture with
    | .ok (future, prom) =>
      some { s with
        prom := prom
        threads := Function.update s.threads thread (.waiting cmd number future) }
    | .error error =>
      some { s with threads := Function.update s.threads thread (.failed cmd error) }
  | _ => none

/-- `future.get()`. -/
def wait : Option (CommandCalls Thread) :=
  match s.threads thread with
  | .waiting cmd number future =>
    match s.prom.get future with
    | none => none
    | some (.ok verdict) =>
      some { s with threads := Function.update s.threads thread (.returned cmd number verdict) }
    | some (.error error) =>
      some { s with threads := Function.update s.threads thread (.failed cmd error) }
  | _ => none

/-- A step of the machine; commands are posted by the calls. -/
def machineStep (cycle : Cycle) : Action → Option (CommandCalls Thread)
  | .post _ => none
  | .select =>
    (s.machine.select cycle).map fun machine ↦
      { s.endSelectTransitions cycle with machine := machine }
  | action => ((execution cycle).next s.machine action).map fun machine ↦
      { s with machine := machine }

end CommandCalls

/-- The runs of an activated machine and the threads that call it. -/
def commandCalls (cycle : Cycle) (Thread : Type) [DecidableEq Thread] :
    TransitionSystem (CommandCalls Thread) (CallAction Thread) where
  initial s := s = .activated
  next s action :=
    if s.terminated.isSome then none
    else match action with
      | .assign thread cmd => s.assign thread cmd
      | .post thread => s.post thread
      | .takeFuture thread => s.takeFuture thread
      | .wait thread => s.wait thread
      | .machine action => s.machineStep cycle action

/-! ### Verdicts -/

/-- Every call that has returned gave the verdict of the event it posted, no promise was satisfied
twice, no future was taken twice or broken, and a call that waits for an undecided promise has its
event in the queue and its promise in the machine. -/
structure VerdictsMatched (s : CommandCalls Thread) : Prop where
  returned : ∀ thread cmd number verdict, s.threads thread = .returned cmd number verdict →
    s.Verdict cmd number verdict
  notFailed : ∀ thread cmd error, s.threads thread ≠ .failed cmd error
  notTerminated : s.terminated = none
  answerable : ∀ thread cmd number future, s.threads thread = .waiting cmd number future →
    s.prom.get future = none →
      ⟨.cmdEvent cmd, .command number⟩ ∈ s.machine.queue ∧ s.prom.current = future

/-- Whether another call may assign the promise without harm to this thread: it is in no call, or
it has taken its future and has its verdict. -/
def CommandCalls.isSettled (s : CommandCalls Thread) (thread : Thread) : Bool :=
  match s.threads thread with
  | .waiting _ _ future => (s.prom.get future).isSome
  | phase => phase.atRest

/-- A call assigns its promise only when all other threads are settled. -/
def SettledBeforeAssign (s : CommandCalls Thread) : CallAction Thread → Prop
  | .assign thread _ => ∀ other, other ≠ thread → s.isSettled other = true
  | _ => True

/-! ### The commands in the queue -/

/-- The commands in the queue with their origins. -/
def Execution.queuedCommands (s : Execution) : List (TransitionCmd × Origin) :=
  s.queue.filterMap fun posted ↦
    match posted.event with
    | .cmdEvent cmd => some (cmd, posted.origin)
    | _ => none

theorem mem_queue_of_mem_queuedCommands {s : Execution} {cmd : TransitionCmd} {origin : Origin}
    (hmem : (cmd, origin) ∈ s.queuedCommands) : ⟨.cmdEvent cmd, origin⟩ ∈ s.queue := by
  obtain ⟨⟨event, _⟩, hposted, hpair⟩ := List.mem_filterMap.mp hmem
  cases event with
  | cmdEvent _ =>
    obtain ⟨rfl, rfl⟩ := Prod.mk.injEq .. ▸ Option.some.inj hpair
    exact hposted
  | stateCompleteEvent => cases hpair
  | errorEvent code => cases hpair

theorem queuedCommands_post (s : Execution) (cmd : TransitionCmd) :
    (s.post cmd).queuedCommands = s.queuedCommands ++ [(cmd, .command s.commands)] := by
  simp [Execution.queuedCommands, Execution.post]

/-- The end of an operation posts no command. -/
theorem queuedCommands_finish {s t : Execution} {activation : Activation} {code : Int}
    (hnext : s.finish activation code = some t) : t.queuedCommands = s.queuedCommands := by
  obtain ⟨-, rfl⟩ := finish_spec hnext
  by_cases hcode : code = 0
  · simp [Execution.queuedCommands, operationEvent, hcode]
  · simp [Execution.queuedCommands, operationEvent, hcode]

/-- The selection step takes the first event from the queue. -/
theorem select_queue {cycle : Cycle} {s t : Execution} (hnext : s.select cycle = some t) :
    ∃ event rest, s.phase = .idle ∧ s.queue = event :: rest ∧ t.queue = rest ∧
      t.commands = s.commands := by
  unfold Execution.select at hnext
  split at hnext
  · rename_i event rest hphase hqueue
    refine ⟨event, rest, hphase, hqueue, ?_⟩
    split at hnext
    · obtain rfl := Option.some.inj hnext
      exact ⟨rfl, rfl⟩
    · obtain rfl := Option.some.inj hnext
      exact ⟨rfl, rfl⟩
  · cases hnext

/-- The other steps of the machine leave the commands in the queue. -/
theorem queuedCommands_step {cycle : Cycle} {s t : Execution} {action : Action}
    (hpost : ∀ cmd, action ≠ .post cmd) (hselect : action ≠ .select)
    (hnext : (execution cycle).next s action = some t) :
    t.queuedCommands = s.queuedCommands ∧ t.commands = s.commands := by
  cases action with
  | post cmd => exact absurd rfl (hpost cmd)
  | select => exact absurd rfl hselect
  | finish activation code =>
    refine ⟨queuedCommands_finish hnext, ?_⟩
    obtain ⟨-, rfl⟩ := finish_spec hnext
    rfl
  | leave =>
    simp only [execution, Execution.leave] at hnext
    split at hnext
    · obtain ⟨-, hnext⟩ := Option.ite_none_left_eq_some.mp hnext
      obtain rfl := Option.some.inj hnext
      exact ⟨rfl, rfl⟩
    · cases hnext
  | enter =>
    simp only [execution, Execution.enter] at hnext
    split at hnext
    · obtain rfl := Option.some.inj hnext
      exact ⟨rfl, rfl⟩
    · cases hnext
  | notified =>
    simp only [execution, Execution.notified] at hnext
    split at hnext
    · split_ifs at hnext
      · obtain rfl := Option.some.inj hnext
        exact ⟨rfl, rfl⟩
      · obtain rfl := Option.some.inj hnext
        exact ⟨rfl, rfl⟩
    · cases hnext
  | changeMode mode =>
    obtain ⟨-, ⟨-, rfl⟩ | ⟨-, rfl⟩⟩ := changeMode_spec hnext
    · exact ⟨rfl, rfl⟩
    · exact ⟨rfl, rfl⟩
  | modeSwitched =>
    obtain ⟨mode, -, rfl⟩ := modeSwitched_spec hnext
    exact ⟨rfl, rfl⟩

/-! ### What each step does -/

section Statements

variable {s t : CommandCalls Thread} {thread : Thread}

theorem assign_spec {cmd : TransitionCmd} (hnext : s.assign thread cmd = some t) :
    (s.threads thread).atRest = true ∧
      t = { s with
        prom := s.prom.replace
        threads := Function.update s.threads thread (.assigned cmd) } := by
  obtain ⟨⟨hrest, -⟩, hnext⟩ := Option.ite_none_right_eq_some.mp hnext
  exact ⟨hrest, (Option.some.inj hnext).symm⟩

theorem post_spec (hnext : s.post thread = some t) :
    ∃ cmd, s.threads thread = .assigned cmd ∧
      t = { s with
        machine := s.machine.post cmd
        threads := Function.update s.threads thread (.posted cmd s.machine.commands) } := by
  unfold CommandCalls.post at hnext
  split at hnext
  · rename_i cmd hphase
    exact ⟨cmd, hphase, (Option.some.inj hnext).symm⟩
  · cases hnext

theorem takeFuture_spec (hnext : s.takeFuture thread = some t) :
    ∃ cmd number, s.threads thread = .posted cmd number ∧
      ((∃ future prom, s.prom.getFuture = .ok (future, prom) ∧
          t = { s with
            prom := prom
            threads := Function.update s.threads thread (.waiting cmd number future) }) ∨
        ∃ error, s.prom.getFuture = .error error ∧
          t = { s with threads := Function.update s.threads thread (.failed cmd error) }) := by
  unfold CommandCalls.takeFuture at hnext
  split at hnext
  · rename_i cmd number hphase
    refine ⟨cmd, number, hphase, ?_⟩
    split at hnext
    · rename_i future prom htake
      exact Or.inl ⟨future, prom, htake, (Option.some.inj hnext).symm⟩
    · rename_i error htake
      exact Or.inr ⟨error, htake, (Option.some.inj hnext).symm⟩
  · cases hnext

theorem wait_spec (hnext : s.wait thread = some t) :
    ∃ cmd number future, s.threads thread = .waiting cmd number future ∧
      ((∃ verdict, s.prom.get future = some (.ok verdict) ∧
          t = { s with
            threads := Function.update s.threads thread (.returned cmd number verdict) }) ∨
        ∃ error, s.prom.get future = some (.error error) ∧
          t = { s with threads := Function.update s.threads thread (.failed cmd error) }) := by
  unfold CommandCalls.wait at hnext
  split at hnext
  · rename_i cmd number future hphase
    refine ⟨cmd, number, future, hphase, ?_⟩
    split at hnext
    · cases hnext
    · rename_i verdict hget
      exact Or.inl ⟨verdict, hget, (Option.some.inj hnext).symm⟩
    · rename_i error hget
      exact Or.inr ⟨error, hget, (Option.some.inj hnext).symm⟩
  · cases hnext

end Statements

/-- A statement of a call leaves the records, and the machine unless it posts; the other steps are
those of the machine. -/
theorem call_step_spec {cycle : Cycle} {s t : CommandCalls Thread} {action : CallAction Thread}
    (hnext : (commandCalls cycle Thread).next s action = some t) :
    (t.processed = s.processed ∧ (t.machine = s.machine ∨ ∃ cmd, t.machine = s.machine.post cmd)) ∨
      ∃ step, action = .machine step ∧ s.machineStep cycle step = some t := by
  obtain ⟨-, hnext⟩ := Option.ite_none_left_eq_some.mp hnext
  cases action with
  | assign thread cmd =>
    obtain ⟨-, rfl⟩ := assign_spec hnext
    exact Or.inl ⟨rfl, Or.inl rfl⟩
  | post thread =>
    obtain ⟨cmd, -, rfl⟩ := post_spec hnext
    exact Or.inl ⟨rfl, Or.inr ⟨cmd, rfl⟩⟩
  | takeFuture thread =>
    obtain ⟨cmd, number, -, ⟨future, prom, -, rfl⟩ | ⟨error, -, rfl⟩⟩ := takeFuture_spec hnext
    · exact Or.inl ⟨rfl, Or.inl rfl⟩
    · exact Or.inl ⟨rfl, Or.inl rfl⟩
  | wait thread =>
    obtain ⟨cmd, number, future, -, ⟨verdict, -, rfl⟩ | ⟨error, -, rfl⟩⟩ := wait_spec hnext
    · exact Or.inl ⟨rfl, Or.inl rfl⟩
    · exact Or.inl ⟨rfl, Or.inl rfl⟩
  | machine step => exact Or.inr ⟨step, rfl, hnext⟩

end Steps

/-- The verdict moves no thread. -/
theorem endSelectTransitions_threads {Thread : Type} (cycle : Cycle) (s : CommandCalls Thread) :
    (s.endSelectTransitions cycle).threads = s.threads := by
  unfold CommandCalls.endSelectTransitions
  split
  · dsimp only
    split <;> rfl
  · rfl

/-- A record that stands after the selection step stood before it, or is that of the command that
the step has taken from the queue. -/
theorem endSelectTransitions_processed {Thread : Type} {cycle : Cycle} {s : CommandCalls Thread}
    {origin : Origin} {record : ProcessedCommand}
    (hrecord : (s.endSelectTransitions cycle).processed origin = some record) :
    s.processed origin = some record ∨ ∃ cmd rest,
      s.machine.queue = ⟨.cmdEvent cmd, origin⟩ :: rest ∧
        record = s.machine.processCommand cycle cmd := by
  unfold CommandCalls.endSelectTransitions at hrecord
  split at hrecord
  · rename_i cmd posted rest hqueue
    dsimp only at hrecord
    split at hrecord
    · by_cases horigin : origin = posted
      · subst horigin
        obtain rfl : s.machine.processCommand cycle cmd = record := by simpa using hrecord
        exact Or.inr ⟨cmd, rest, hqueue, rfl⟩
      · exact Or.inl (by simpa [horigin] using hrecord)
    · exact Or.inl hrecord
  · exact Or.inl hrecord

/-- A step of the machine under calls is a selection with its verdict, or another step that leaves
the calls as they are. -/
theorem machineStep_spec {Thread : Type} {cycle : Cycle} {s t : CommandCalls Thread}
    {action : Action} (hnext : s.machineStep cycle action = some t) :
    ∃ machine, (execution cycle).next s.machine action = some machine ∧
      ((action = .select ∧ t = { s.endSelectTransitions cycle with machine := machine }) ∨
        (action ≠ .select ∧ (∀ cmd, action ≠ .post cmd) ∧ t = { s with machine := machine })) := by
  cases action with
  | post cmd => cases hnext
  | select =>
    obtain ⟨machine, hmachine, rfl⟩ := Option.map_eq_some_iff.mp hnext
    exact ⟨machine, hmachine, Or.inl ⟨rfl, rfl⟩⟩
  | _ =>
    obtain ⟨machine, hmachine, rfl⟩ := Option.map_eq_some_iff.mp hnext
    exact ⟨machine, hmachine, Or.inr ⟨by simp, by simp, rfl⟩⟩

/-- The steps of the machine move no thread. -/
theorem machineStep_threads {Thread : Type} {cycle : Cycle} {s t : CommandCalls Thread}
    {action : Action} (hnext : s.machineStep cycle action = some t) : t.threads = s.threads := by
  obtain ⟨machine, -, ⟨-, rfl⟩ | ⟨-, -, rfl⟩⟩ := machineStep_spec hnext
  · exact endSelectTransitions_threads cycle s
  · rfl

/-- While a single caller is in no call and begins none, only the machine moves. -/
theorem machine_of_atRest {cycle : Cycle} {s t : CommandCalls Unit} {action : CallAction Unit}
    (hrest : (s.threads ()).atRest = true) (hassign : ∀ cmd, action ≠ .assign () cmd)
    (hnext : (commandCalls cycle Unit).next s action = some t) :
    ∃ step, action = .machine step := by
  obtain ⟨-, hnext⟩ := Option.ite_none_left_eq_some.mp hnext
  cases action with
  | assign thread cmd => exact absurd rfl (hassign cmd)
  | post thread =>
    obtain ⟨cmd, hphase, -⟩ := post_spec hnext
    simp [hphase, CallPhase.atRest] at hrest
  | takeFuture thread =>
    obtain ⟨cmd, number, hphase, -⟩ := takeFuture_spec hnext
    simp [hphase, CallPhase.atRest] at hrest
  | wait thread =>
    obtain ⟨cmd, number, future, hphase, -⟩ := wait_spec hnext
    simp [hphase, CallPhase.atRest] at hrest
  | machine step => exact ⟨step, rfl⟩

end PackML
