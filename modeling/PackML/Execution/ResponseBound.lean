import PackML.Execution.Quiescence
import PackML.Execution.TruthfulVerdicts

/-!
# A call is answered within a bounded number of steps

The event of a call waits in the queue behind the events that were posted before it. Each of these
can cause five steps at most: its selection, the three steps of a transition, and the end of the
operation that the transition starts. What is posted later goes behind the event. Hence
`Execution.stepsBefore`, which counts these steps, falls with every step of the Qt thread and of the
operations until the event is processed (`stepsBefore_step`), and no other step raises it. As long
as the event is in the queue one of these steps can be taken (`atRest_of_stuck`).

`answered_within` is the result for the callers of `SettledBeforeAssign`: after as many steps of the
machine as `stepsBefore` says, whatever else happens in between, the promise that the call waits for
holds its verdict.
-/

set_option autoImplicit false
set_option relaxedAutoImplicit false

namespace PackML

/-! ### Statements -/

/-- The steps that are left of a transition, with the end of the operation that it starts. -/
def Phase.stepsLeft : Phase → ℕ
  | .idle => 0
  | .notifying _ => 2
  | .entering _ _ => 3
  | .leaving _ _ => 4

/-- A bound on the steps of the Qt thread and of the operations until an event in the queue has been
processed. -/
def Execution.stepsBefore (s : Execution) (posted : PostedEvent) : ℕ :=
  5 * s.queue.idxOf posted + s.phase.stepsLeft + s.running.length + 1

/-- The steps of the Qt thread and of the operations. -/
def CallAction.progresses {Thread : Type} : CallAction Thread → Bool
  | .machine action => action.progresses
  | _ => false

/-- The event of the call has been posted, and the call has not returned. -/
def CallPhase.Awaits (phase : CallPhase) (cmd : TransitionCmd) (number : ℕ) : Prop :=
  phase = .posted cmd number ∨ ∃ future, phase = .waiting cmd number future

/-- No step of the Qt thread and of the operations can be taken. -/
def CommandCalls.MachineStuck {Thread : Type} [DecidableEq Thread] (cycle : Cycle)
    (s : CommandCalls Thread) : Prop :=
  ∀ action : Action, action.progresses = true →
    (commandCalls cycle Thread).next s (.machine action) = none

/-! ### The machine -/

section Machine

variable {cycle : Cycle} {s t : Execution} {posted : PostedEvent}

/-- Every step of the Qt thread and of the operations lowers the bound for an event in the queue, or
takes the event from there; no other step raises it. -/
theorem stepsBefore_step (hlocated : Located cycle s s.stateValue) (hmem : posted ∈ s.queue)
    {action : Action} (hnext : (execution cycle).next s action = some t) :
    (action = .select ∧ ∃ rest, s.queue = posted :: rest) ∨
      posted ∈ t.queue ∧
        t.stepsBefore posted + (if action.progresses then 1 else 0) ≤ s.stepsBefore posted := by
  cases action with
  | post cmd =>
    obtain rfl := Option.some.inj hnext
    refine Or.inr ⟨List.mem_append_left _ hmem, Nat.le_of_eq ?_⟩
    simp only [Execution.stepsBefore, Execution.post, List.idxOf_append_of_mem hmem,
      Action.progresses, Bool.false_eq_true, if_false, Nat.add_zero]
  | finish activation code =>
    obtain ⟨hrunning, rfl⟩ := finish_spec hnext
    have hlength := List.length_erase_of_mem hrunning
    have hpositive := List.length_pos_of_mem hrunning
    refine Or.inr ⟨List.mem_append_left _ hmem, ?_⟩
    simp only [Execution.stepsBefore, List.idxOf_append_of_mem hmem, hlength, Action.progresses,
      if_true]
    omega
  | select =>
    obtain ⟨first, rest, hphase, hqueue, hcases⟩ := select_spec hlocated hnext
    by_cases hfirst : first = posted
    · exact Or.inl ⟨rfl, rest, hfirst ▸ hqueue⟩
    · right
      have hrest : posted ∈ rest := by
        rw [hqueue] at hmem
        exact (List.mem_cons.mp hmem).resolve_left fun h ↦ hfirst h.symm
      have hindex : s.queue.idxOf posted = rest.idxOf posted + 1 := by
        rw [hqueue, List.idxOf_cons_ne _ hfirst]
      rcases hcases with ⟨-, rfl⟩ | ⟨source, transition, -, rfl⟩
      · refine ⟨hrest, ?_⟩
        simp only [Execution.stepsBefore, hindex, Action.progresses, if_true]
        omega
      · refine ⟨hrest, ?_⟩
        simp only [Execution.stepsBefore, hindex, hphase, Phase.stepsLeft, Action.progresses,
          if_true]
        omega
  | leave =>
    obtain ⟨event, source, transition, target, hphase, -, -, rfl⟩ := leave_spec hlocated hnext
    refine Or.inr ⟨hmem, ?_⟩
    simp only [Execution.stepsBefore, hphase, Phase.stepsLeft, Action.progresses, if_true]
    omega
  | enter =>
    obtain ⟨event, source, transition, target, hphase, -, rfl⟩ := enter_spec hlocated hnext
    refine Or.inr ⟨hmem, ?_⟩
    simp only [Execution.stepsBefore, hphase, Phase.stepsLeft, Action.progresses, if_true]
    omega
  | notified =>
    obtain ⟨hphase, ⟨-, rfl⟩ | ⟨-, rfl⟩⟩ := notified_spec hlocated hnext
    · refine Or.inr ⟨hmem, ?_⟩
      simp only [Execution.stepsBefore, hphase, Phase.stepsLeft, Action.progresses, if_true,
        List.length_append, List.length_singleton]
      omega
    · refine Or.inr ⟨hmem, ?_⟩
      simp only [Execution.stepsBefore, hphase, Phase.stepsLeft, Action.progresses, if_true]
      omega
  | changeMode mode =>
    obtain ⟨-, ⟨-, rfl⟩ | ⟨-, rfl⟩⟩ := changeMode_spec hnext
    · exact Or.inr ⟨hmem, Nat.le_refl _⟩
    · exact Or.inr ⟨hmem, Nat.le_refl _⟩
  | modeSwitched =>
    obtain ⟨mode, -, rfl⟩ := modeSwitched_spec hnext
    exact Or.inr ⟨hmem, Nat.le_refl _⟩

end Machine

/-! ### The calls -/

section Calls

variable {Thread : Type} {cycle : Cycle} {s t : CommandCalls Thread} {cmd : TransitionCmd}
  {number : ℕ}

/-- The event of a call in progress has been processed, or it is in the queue. -/
theorem CallInvariant.mem_queue_of_awaits {active : Option Thread} (hs : CallInvariant s active)
    {thread : Thread} (hcall : (s.threads thread).Awaits cmd number) :
    (s.processed (.command number)).isSome ∨
      ⟨.cmdEvent cmd, .command number⟩ ∈ s.machine.queue := by
  have hverdict : ∀ {verdict}, s.Verdict cmd number verdict →
      (s.processed (.command number)).isSome := by
    rintro verdict ⟨record, hrecord, -, -⟩
    exact Option.isSome_iff_exists.mpr ⟨record, hrecord⟩
  by_cases hactive : active = some thread
  · subst hactive
    have hturn := hs.turn
    rcases hcall with hphase | ⟨future, hphase⟩
    · simp only [CommandCalls.Turn, hphase] at hturn
      obtain ⟨-, hunprocessed | hdecided⟩ := hturn
      · exact Or.inr hunprocessed.mem_queue
      · obtain ⟨verdict, hv, -⟩ := hdecided.value
        exact Or.inl (hverdict hv)
    · simp only [CommandCalls.Turn, hphase] at hturn
      exact Or.inr hturn.2.mem_queue
  · have hsettled := hs.settled thread hactive
    rcases hcall with hphase | ⟨future, hphase⟩
    · simp [CommandCalls.Settled, hphase] at hsettled
    · simp only [CommandCalls.Settled, hphase] at hsettled
      obtain ⟨-, verdict, hv, -⟩ := hsettled
      exact Or.inl (hverdict hv)

/-- A command in the queue is that of the call whose turn it is. -/
theorem CallInvariant.unprocessed_of_mem {active : Option Thread} (hs : CallInvariant s active)
    (hmem : ⟨.cmdEvent cmd, .command number⟩ ∈ s.machine.queue) : s.Unprocessed cmd number := by
  have hqueued : (cmd, .command number) ∈ s.machine.queuedCommands :=
    List.mem_filterMap.mpr ⟨_, hmem, rfl⟩
  obtain ⟨⟨first, origin⟩, rest, hcommands⟩ := List.exists_cons_of_ne_nil
    (List.ne_nil_of_mem hqueued)
  obtain ⟨-, number', -, rfl, rfl, hunprocessed⟩ := hs.unprocessed hcommands
  rw [hcommands, List.mem_singleton] at hqueued
  obtain ⟨rfl, rfl⟩ : cmd = first ∧ number = number' := by simpa using hqueued
  exact hunprocessed

/-- A call that waits for the verdict of an event that has been processed finds it. -/
theorem CallInvariant.answered {active : Option Thread} (hs : CallInvariant s active)
    (hprocessed : (s.processed (.command number)).isSome) {thread : Thread} {future : ℕ}
    (hphase : s.threads thread = .waiting cmd number future) :
    ∃ verdict, s.Verdict cmd number verdict ∧ s.prom.get future = some (.ok verdict) := by
  have hactive : active ≠ some thread := by
    rintro rfl
    have hturn := hs.turn
    simp only [CommandCalls.Turn, hphase] at hturn
    simp [hturn.2.unrecorded] at hprocessed
  have hsettled := hs.settled thread hactive
  simp only [CommandCalls.Settled, hphase] at hsettled
  obtain ⟨-, verdict, hverdict, hvalue⟩ := hsettled
  exact ⟨verdict, hverdict, PromiseVariable.get_of_value hvalue⟩

/-- A record is not removed. -/
theorem endSelectTransitions_isSome {origin : Origin} (hs : (s.processed origin).isSome) :
    ((s.endSelectTransitions cycle).processed origin).isSome := by
  unfold CommandCalls.endSelectTransitions
  split
  · dsimp only
    split
    · by_cases horigin : origin = ‹Origin›
      · subst horigin
        simp
      · simpa [horigin] using hs
    · exact hs
  · exact hs

variable [DecidableEq Thread]

theorem processed_isSome_step {origin : Origin} (hs : (s.processed origin).isSome)
    {action : CallAction Thread} (hnext : (commandCalls cycle Thread).next s action = some t) :
    (t.processed origin).isSome := by
  rcases call_step_spec hnext with ⟨hsame, -⟩ | ⟨step, -, hmove⟩
  · exact hsame ▸ hs
  · obtain ⟨machine, -, ⟨-, rfl⟩ | ⟨-, -, rfl⟩⟩ := machineStep_spec hmove
    · exact endSelectTransitions_isSome hs
    · exact hs

/-- An event of the queue is pending in a guarded run. -/
structure Pending (cycle : Cycle) (posted : PostedEvent) (s : CommandCalls Thread) : Prop where
  run : (commandCalls cycle Thread).ReachableBy SettledBeforeAssign s
  mem : posted ∈ s.machine.queue

/-- A step of the machine processes the event of a call, or the event stays in the queue and the
bound falls as it should. -/
theorem pending_machineStep (hs : Pending cycle ⟨.cmdEvent cmd, .command number⟩ s)
    {action : Action} (hnext : s.machineStep cycle action = some t) :
    (t.processed (.command number)).isSome ∨
      ⟨.cmdEvent cmd, .command number⟩ ∈ t.machine.queue ∧
        t.machine.stepsBefore ⟨.cmdEvent cmd, .command number⟩ +
            (if action.progresses then 1 else 0) ≤
          s.machine.stepsBefore ⟨.cmdEvent cmd, .command number⟩ := by
  have hlocated := located_stateValue (machine_reachable hs.run.reachable)
  obtain ⟨machine, hmachine, hcases⟩ := machineStep_spec hnext
  rcases stepsBefore_step hlocated hs.mem hmachine with ⟨rfl, rest, hqueue⟩ | hbound
  · obtain ⟨active, hcalls⟩ := callInvariant_of_reachableBy hs.run
    have hunprocessed := hcalls.unprocessed_of_mem hs.mem
    obtain ⟨-, rfl⟩ | ⟨hselect, -⟩ := hcases
    · left
      rw [endSelectTransitions_of_unprocessed hunprocessed hqueue]
      simp
    · exact absurd rfl hselect
  · rcases hcases with ⟨-, rfl⟩ | ⟨-, -, rfl⟩
    · exact Or.inr hbound
    · exact Or.inr hbound

/-- A statement of a call leaves the event of another call where it is. -/
theorem pending_statement {posted : PostedEvent} (hs : Pending cycle posted s)
    (hmachine : t.machine = s.machine ∨ ∃ cmd, t.machine = s.machine.post cmd) :
    posted ∈ t.machine.queue ∧ t.machine.stepsBefore posted ≤ s.machine.stepsBefore posted := by
  rcases hmachine with hsame | ⟨cmd, hpost⟩
  · exact ⟨hsame ▸ hs.mem, Nat.le_of_eq (by rw [hsame])⟩
  · have hlocated := located_stateValue (machine_reachable hs.run.reachable)
    have hstep : (execution cycle).next s.machine (.post cmd) = some t.machine :=
      congrArg some hpost.symm
    exact (stepsBefore_step hlocated hs.mem hstep).resolve_left (by simp)

theorem pending_step (hs : Pending cycle ⟨.cmdEvent cmd, .command number⟩ s)
    {action : CallAction Thread} (hallowed : SettledBeforeAssign s action)
    (hnext : (commandCalls cycle Thread).next s action = some t) :
    (t.processed (.command number)).isSome ∨
      Pending cycle ⟨.cmdEvent cmd, .command number⟩ t ∧
        t.machine.stepsBefore ⟨.cmdEvent cmd, .command number⟩ +
            (if action.progresses then 1 else 0) ≤
          s.machine.stepsBefore ⟨.cmdEvent cmd, .command number⟩ := by
  have ht := hs.run.step hallowed hnext
  cases action with
  | machine action =>
    obtain ⟨-, hmove⟩ := Option.ite_none_left_eq_some.mp hnext
    exact (pending_machineStep hs hmove).imp_right fun ⟨hmem, hbound⟩ ↦ ⟨⟨ht, hmem⟩, hbound⟩
  | _ =>
    obtain ⟨-, hmachine⟩ | ⟨step, haction, -⟩ := call_step_spec hnext
    · obtain ⟨hmem, hbound⟩ := pending_statement hs hmachine
      exact Or.inr ⟨⟨ht, hmem⟩, hbound⟩
    · cases haction

/-- When the machine cannot go on, no event is left in the queue. -/
theorem CommandCalls.MachineStuck.queue_eq_nil (hstuck : s.MachineStuck cycle)
    (hterminated : s.terminated = none) : s.machine.queue = [] := by
  suffices hmachine : Stuck cycle s.machine from (atRest_of_stuck hmachine).queue
  intro action hprogresses
  have hnone : s.machineStep cycle action = none :=
    (if_neg (by simp [hterminated])).symm.trans (hstuck action hprogresses)
  cases action with
  | post cmd => cases hprogresses
  | _ => exact Option.map_eq_none_iff.mp hnone

/-- After as many steps of the Qt thread and of the operations as `stepsBefore` says, or when no
such step can be taken any more, the event of a call in progress has been processed, and the call
finds the verdict of its event if it still waits. This holds for every order of steps in which a
call assigns the promise only when all other threads are settled, with any codes and mode
changes. -/
theorem answered_within (hrun : (commandCalls cycle Thread).ReachableBy SettledBeforeAssign s)
    {thread : Thread} (hcall : (s.threads thread).Awaits cmd number)
    {actions : List (CallAction Thread)}
    (hallowed : (commandCalls cycle Thread).AllowedAlong SettledBeforeAssign actions s)
    (hactions : (commandCalls cycle Thread).runFrom s actions = some t)
    (henough : s.machine.stepsBefore ⟨.cmdEvent cmd, .command number⟩ ≤
      actions.countP CallAction.progresses ∨ t.MachineStuck cycle) :
    (t.processed (.command number)).isSome ∧
      ∀ future, t.threads thread = .waiting cmd number future →
        ∃ verdict, t.Verdict cmd number verdict ∧ t.prom.get future = some (.ok verdict) := by
  have hend := TransitionSystem.reachableBy_of_runFrom hrun actions hallowed hactions
  obtain ⟨active, hcalls⟩ := callInvariant_of_reachableBy hrun
  obtain ⟨active', hcalls'⟩ := callInvariant_of_reachableBy hend
  have hprocessed : (t.processed (.command number)).isSome := by
    rcases hcalls.mem_queue_of_awaits hcall with hdone | hmem
    · exact TransitionSystem.kept_of_runFrom
        (fun _ _ _ hs hnext ↦ processed_isSome_step hs hnext) hdone actions hactions
    · have hbound := TransitionSystem.finished_or_countP_add_rank_le CallAction.progresses
        (fun s ↦ (s.processed (.command number)).isSome)
        (fun s action t hs (hnow : SettledBeforeAssign s action) hnext ↦ pending_step hs hnow hnext)
        (fun s action t hs hnext ↦ processed_isSome_step hs hnext) ⟨hrun, hmem⟩ actions hallowed
        hactions
      rcases hbound with hdone | ⟨hpending, hsteps⟩
      · exact hdone
      · rcases henough with henough | hstuck
        · simp only [Execution.stepsBefore] at hsteps henough
          omega
        · have hleft := hpending.mem
          simp [hstuck.queue_eq_nil hcalls'.notTerminated] at hleft
  exact ⟨hprocessed, fun future hphase ↦ hcalls'.answered hprocessed hphase⟩

end Calls

/-! ### A run -/

/-- CLEAR is called while `on_state_changed` runs for ABORTED. -/
def clearWhileNotifying : List (CallAction Bool) :=
  [.machine (.changeMode .manual), .machine .modeSwitched, .assign true .clear, .post true]

/-- Three steps of the Qt thread, a change of the mode between them, a future taken late. -/
def threeSteps : List (CallAction Bool) :=
  [.machine .notified, .machine (.changeMode .production), .machine .select, .machine .leave,
    .takeFuture true]

theorem answered_within_threeSteps :
    ∃ s t, (commandCalls .singleCycle Bool).runFrom .activated clearWhileNotifying = some s ∧
      (commandCalls .singleCycle Bool).runFrom s threeSteps = some t ∧
      t.threads true = .waiting .clear 0 1 ∧
      ∃ verdict, t.Verdict .clear 0 verdict ∧ t.prom.get 1 = some (.ok verdict) := by
  have hend : ((commandCalls .singleCycle Bool).runFrom .activated clearWhileNotifying).map
      (fun s ↦ (s.threads true, s.machine.stepsBefore ⟨.cmdEvent .clear, .command 0⟩,
        ((commandCalls .singleCycle Bool).runFrom s threeSteps).map fun t ↦ t.threads true)) =
      some (.posted .clear 0, 3, some (.waiting .clear 0 1)) := rfl
  obtain ⟨s, hrun, hs⟩ := Option.map_eq_some_iff.mp hend
  simp only [Prod.mk.injEq] at hs
  obtain ⟨hposted, hbound, hs⟩ := hs
  obtain ⟨t, hactions, hwaiting⟩ := Option.map_eq_some_iff.mp hs
  have hallowed : (commandCalls .singleCycle Bool).AllowedAlong SettledBeforeAssign
      clearWhileNotifying .activated := by
    refine ⟨trivial, trivial, ?_, trivial, trivial⟩
    rintro (_ | _) hother <;> rfl
  have hallowed' : (commandCalls .singleCycle Bool).AllowedAlong SettledBeforeAssign threeSteps s :=
    TransitionSystem.allowedAlong_of_forall_mem (by simp [threeSteps, SettledBeforeAssign]) s
  have henough : s.machine.stepsBefore ⟨.cmdEvent .clear, .command 0⟩ ≤
      threeSteps.countP CallAction.progresses := Nat.le_of_eq hbound
  exact ⟨s, t, hrun, hactions, hwaiting, (answered_within
    (TransitionSystem.reachableBy_of_runFrom (.initial rfl) _ hallowed hrun)
    (Or.inl hposted) hallowed' hactions (Or.inl henough)).2 1 hwaiting⟩

end PackML
