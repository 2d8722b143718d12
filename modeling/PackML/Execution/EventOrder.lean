import PackML.Execution.Accounting

/-!
# The running machine follows the flat table, event by event

The Qt thread, the clients and the operations run side by side, and a transition takes three steps
of the Qt thread, during which events are posted, operations end and modes are changed.
`FollowsTable` says that none of this can be seen from the events: they are taken from the queue in
the order in which they were posted, each once; the state that the machine is in or on its way to
is the one that the flat table computes from the events taken, each with the states available when
it was taken; and `setState` is called for the states that the table visits, in this order.

`flatMove` is one event in the flat table, `flatRun` and `flatVisited` are the end and the states of
a sequence of events. `movesOnce_select` connects the selection step to `flatMove`, and
`followsTable_of_reachable` is the result for every run.
-/

set_option autoImplicit false
set_option relaxedAutoImplicit false

namespace PackML

/-! ### Sequences of events in the flat table -/

/-- An event with the states that are available when it is taken from the queue. -/
structure TakenEvent where
  posted : PostedEvent
  available : State → Bool

/-- The state that an event leads to: its target in the table, when that is available. -/
def flatMove (cycle : Cycle) (state : State) (taken : TakenEvent) : Option State :=
  (flatTarget cycle state taken.posted.event).filter taken.available

/-- The state after a sequence of events. -/
def flatRun (cycle : Cycle) (state : State) (events : List TakenEvent) : State :=
  events.foldl (fun current taken ↦ (flatMove cycle current taken).getD current) state

/-- The states that a sequence of events leads to, in order. -/
def flatVisited (cycle : Cycle) (state : State) : List TakenEvent → List State
  | [] => []
  | taken :: rest =>
    match flatMove cycle state taken with
    | none => flatVisited cycle state rest
    | some target => target :: flatVisited cycle target rest

section Flat

variable {cycle : Cycle} {state : State}

theorem flatRun_concat (events : List TakenEvent) (taken : TakenEvent) :
    flatRun cycle state (events ++ [taken]) =
      (flatMove cycle (flatRun cycle state events) taken).getD (flatRun cycle state events) := by
  simp [flatRun]

theorem flatVisited_append (events later : List TakenEvent) :
    flatVisited cycle state (events ++ later) =
      flatVisited cycle state events ++ flatVisited cycle (flatRun cycle state events) later := by
  induction events generalizing state with
  | nil => rfl
  | cons taken rest ih =>
    rw [List.cons_append, flatVisited, flatVisited, flatRun, List.foldl_cons]
    cases flatMove cycle state taken with
    | none => exact ih
    | some target => exact congrArg (target :: ·) ih

theorem flatVisited_concat (events : List TakenEvent) (taken : TakenEvent) :
    flatVisited cycle state (events ++ [taken]) =
      flatVisited cycle state events ++
        (flatMove cycle (flatRun cycle state events) taken).toList := by
  rw [flatVisited_append, flatVisited]
  cases flatMove cycle (flatRun cycle state events) taken <;> rfl

end Flat

/-! ### What a run shows -/

/-- The state that the Qt thread has left its state for, and has not entered. -/
def Phase.pendingTarget : Phase → Option State
  | .leaving _ selection | .entering _ selection => enteredState selection
  | .idle | .notifying _ => none

/-- The state that the machine is in or on its way to. -/
def Execution.destination (s : Execution) : State :=
  s.phase.pendingTarget.getD s.stateValue

namespace ExecutionStep

variable (step : ExecutionStep)

/-- The event taken from the queue, with the states available then. -/
def taken : List TakenEvent :=
  match step.action with
  | .select => (step.before.queue.head?.map (⟨·, step.before.gen.isAvailable⟩)).toList
  | _ => []

/-- The state for which `setState` calls `on_state_changed`. -/
def reported : List State :=
  match step.action with
  | .enter => [step.after.stateValue]
  | _ => []

end ExecutionStep

/-- The run follows the flat table: events are taken in the order in which they were posted, those
taken lead to where the machine is or goes, and the states reported are those that they lead to. -/
structure FollowsTable (cycle : Cycle) (r : TransitionSystem.Recorded Execution Action) : Prop where
  order : r.produced ExecutionStep.posted =
    (r.produced ExecutionStep.taken).map TakenEvent.posted ++ r.current.queue
  destination : r.current.destination = flatRun cycle .aborted (r.produced ExecutionStep.taken)
  reported : r.produced ExecutionStep.reported ++ r.current.phase.pendingTarget.toList =
    flatVisited cycle .aborted (r.produced ExecutionStep.taken)

/-- No origin has posted two events, and the ones that have posted are numbered and have ended. -/
structure PostedOnceEach (r : TransitionSystem.Recorded Execution Action) : Prop where
  distinct : ((r.produced ExecutionStep.posted).map PostedEvent.origin).Nodup
  commands : ∀ number,
    .command number ∈ (r.produced ExecutionStep.posted).map PostedEvent.origin →
      number < r.current.commands
  operations : ∀ activation,
    .operation activation ∈ (r.produced ExecutionStep.posted).map PostedEvent.origin →
      activation.number < r.current.activations ∧ activation ∉ r.current.running

section Steps

variable {cycle : Cycle} {s t : Execution} {r : TransitionSystem.Recorded Execution Action}

/-! ### One step -/

/-- An event for which nothing is selected leads nowhere in the table. -/
theorem flatMove_of_selected_none {posted : PostedEvent}
    (hselected : selected cycle s.gen.available s.stateValue posted.event = none) :
    flatMove cycle s.stateValue ⟨posted, s.gen.isAvailable⟩ = none := by
  refine Option.filter_eq_none_iff.mpr fun target hflat ↦ ?_
  have hunavailable := (selected_none_iff _ _ _ _).mp hselected target hflat
  simp [StatesGenerator.isAvailable, hunavailable]

/-- The transition that is selected for an event leads to its state in the table. -/
theorem flatMove_of_selected {posted : PostedEvent} {source : PackmlState}
    {transition : PackmlTransition}
    (hselected : selected cycle s.gen.available s.stateValue posted.event =
      some (source, transition)) :
    ∃ target, flatMove cycle s.stateValue ⟨posted, s.gen.isAvailable⟩ = some target ∧
      enteredState [(source, transition)] = some target := by
  obtain ⟨-, -, target, hflat, htarget, havailable⟩ := selected_some hselected
  refine ⟨target, Option.filter_eq_some_iff.mpr ⟨hflat, havailable⟩, ?_⟩
  simp [enteredState, htarget, PackmlState.state, flatTarget_ne_undefined hflat]

/-- The transition on which the Qt thread is leads to its target. -/
theorem Transfer.enteredState_eq {state target : State} {event : PostedEvent}
    {source : PackmlState} {transition : PackmlTransition}
    (htransfer : Transfer cycle state event source transition target) :
    enteredState [(source, transition)] = some target := by
  simp [enteredState, htransfer.targetState, PackmlState.state,
    flatTarget_ne_undefined htransfer.flat]

/-- Only a selection changes where the machine goes: the first event leads there. -/
theorem destination_step (hs : Located cycle s s.stateValue) {action : Action}
    (hnext : (execution cycle).next s action = some t) :
    t.destination = s.destination ∨
      ∃ posted rest target, action = .select ∧ s.phase = .idle ∧ s.queue = posted :: rest ∧
        flatMove cycle s.stateValue ⟨posted, s.gen.isAvailable⟩ = some target ∧
          t.phase.pendingTarget = some target := by
  cases action with
  | select =>
    obtain ⟨posted, rest, hphase, hqueue, ⟨-, rfl⟩ | ⟨source, transition, hselected, rfl⟩⟩ :=
      select_spec hs hnext
    · exact Or.inl rfl
    · obtain ⟨target, hmove, hentered⟩ := flatMove_of_selected hselected
      exact Or.inr ⟨posted, rest, target, rfl, hphase, hqueue, hmove, hentered⟩
  | leave =>
    obtain ⟨event, source, transition, target, hphase, -, -, rfl⟩ := leave_spec hs hnext
    simp [Execution.destination, hphase, Phase.pendingTarget]
  | enter =>
    obtain ⟨event, source, transition, target, hphase, htransfer, rfl⟩ := enter_spec hs hnext
    have hentered := htransfer.enteredState_eq
    simp [Execution.destination, hphase, Phase.pendingTarget, hentered]
  | notified =>
    obtain ⟨hphase, ⟨-, rfl⟩ | ⟨-, rfl⟩⟩ := notified_spec hs hnext
    · simp [Execution.destination, hphase, Phase.pendingTarget]
    · simp [Execution.destination, hphase, Phase.pendingTarget]
  | post | finish | changeMode | modeSwitched =>
    obtain ⟨hphase, hvalue⟩ := phase_step hnext (by simp)
    exact Or.inl (by rw [Execution.destination, hphase, hvalue, Execution.destination])

/-- A step that takes no event and reports no state keeps the run on the table, when it leaves the
place of the machine and adds to the queue what it posts. -/
theorem FollowsTable.frame (hs : FollowsTable cycle r) {action : Action}
    (haction : action ≠ .select ∧ action ≠ .enter)
    (hqueue : t.queue = r.current.queue ++ ExecutionStep.posted ⟨r.current, action, t⟩)
    (hpending : t.phase.pendingTarget = r.current.phase.pendingTarget)
    (hvalue : t.stateValue = r.current.stateValue) : FollowsTable cycle (r.push action t) := by
  have htaken : ExecutionStep.taken ⟨r.current, action, t⟩ = [] := by
    cases action <;> first | rfl | exact absurd rfl haction.1
  have hreported : ExecutionStep.reported ⟨r.current, action, t⟩ = [] := by
    cases action <;> first | rfl | exact absurd rfl haction.2
  constructor
  case order =>
    simp only [TransitionSystem.Recorded.produced_push, htaken, List.append_nil, hs.order,
      TransitionSystem.Recorded.push_current, hqueue, List.append_assoc]
  case destination =>
    simp only [TransitionSystem.Recorded.produced_push, htaken, List.append_nil,
      TransitionSystem.Recorded.push_current, ← hs.destination, Execution.destination, hpending,
      hvalue]
  case reported =>
    simp only [TransitionSystem.Recorded.produced_push, htaken, hreported, List.append_nil,
      TransitionSystem.Recorded.push_current, ← hs.reported, hpending]

/-- The selection step takes the first event of the queue. -/
theorem FollowsTable.select (hlocated : Located cycle r.current r.current.stateValue)
    (hs : FollowsTable cycle r) (hnext : r.current.select cycle = some t) :
    FollowsTable cycle (r.push .select t) := by
  obtain ⟨event, rest, hphase, hqueue, hnext⟩ := select_spec hlocated hnext
  have htaken : ExecutionStep.taken ⟨r.current, .select, t⟩ =
      [⟨event, r.current.gen.isAvailable⟩] := by
    simp [ExecutionStep.taken, hqueue]
  have hvalue : flatRun cycle .aborted (r.produced ExecutionStep.taken) =
      r.current.stateValue := by
    rw [← hs.destination, Execution.destination, hphase]
    rfl
  have hrest : t.queue = rest := by
    rcases hnext with ⟨-, rfl⟩ | ⟨_, _, -, rfl⟩ <;> rfl
  have hposted : ExecutionStep.posted ⟨r.current, .select, t⟩ = [] :=
    List.drop_eq_nil_of_le (by simp [hrest, hqueue])
  have hsame := hs.reported
  rw [hphase, Phase.pendingTarget, Option.toList_none, List.append_nil] at hsame
  have horder : (r.push .select t).produced ExecutionStep.posted =
      ((r.push .select t).produced ExecutionStep.taken).map TakenEvent.posted ++ t.queue := by
    simp [hposted, htaken, hs.order, hqueue, hrest]
  rcases hnext with ⟨hselected, rfl⟩ | ⟨source, transition, hselected, rfl⟩
  · have hmove := flatMove_of_selected_none hselected
    refine ⟨horder, ?_, ?_⟩
    · simp only [TransitionSystem.Recorded.produced_push, htaken, flatRun_concat, hvalue, hmove]
      simp [Execution.destination, hphase, Phase.pendingTarget]
    · simp only [TransitionSystem.Recorded.produced_push, htaken, flatVisited_concat, hvalue, hmove,
        ← hsame]
      simp [ExecutionStep.reported, hphase, Phase.pendingTarget]
  · obtain ⟨target, hmove, hentered⟩ := flatMove_of_selected hselected
    refine ⟨horder, ?_, ?_⟩
    · simp only [TransitionSystem.Recorded.produced_push, htaken, flatRun_concat, hvalue, hmove]
      simp [Execution.destination, Phase.pendingTarget, hentered]
    · simp only [TransitionSystem.Recorded.produced_push, htaken, flatVisited_concat, hvalue, hmove,
        ← hsame]
      simp [ExecutionStep.reported, Phase.pendingTarget, hentered]

/-- The entering step reports the state that was pending. -/
theorem FollowsTable.enter (hlocated : Located cycle r.current r.current.stateValue)
    (hs : FollowsTable cycle r) (hnext : r.current.enter = some t) :
    FollowsTable cycle (r.push .enter t) := by
  obtain ⟨event, source, transition, target, hphase, htransfer, rfl⟩ := enter_spec hlocated hnext
  have hpending : r.current.phase.pendingTarget = some target := by
    rw [hphase]
    exact htransfer.enteredState_eq
  constructor
  case order =>
    simp [ExecutionStep.taken, ExecutionStep.posted, hs.order]
  case destination =>
    simp only [TransitionSystem.Recorded.produced_push, ExecutionStep.taken, List.append_nil,
      ← hs.destination, Execution.destination, hpending]
    rfl
  case reported =>
    simp only [TransitionSystem.Recorded.produced_push, ExecutionStep.taken, List.append_nil,
      ← hs.reported, hpending]
    simp [ExecutionStep.reported, Phase.pendingTarget]

theorem followsTable_step (hlocated : Located cycle r.current r.current.stateValue)
    (hs : FollowsTable cycle r) {action : Action}
    (hnext : (execution cycle).next r.current action = some t) :
    FollowsTable cycle (r.push action t) := by
  cases action with
  | select => exact hs.select hlocated hnext
  | enter => exact hs.enter hlocated hnext
  | post cmd =>
    obtain rfl := Option.some.inj hnext
    exact hs.frame (by simp) (by simp [ExecutionStep.posted, Execution.post]) rfl rfl
  | finish activation code =>
    obtain ⟨-, rfl⟩ := finish_spec hnext
    exact hs.frame (by simp) (by simp [ExecutionStep.posted]) rfl rfl
  | leave =>
    obtain ⟨event, source, transition, target, hphase, -, -, rfl⟩ := leave_spec hlocated hnext
    exact hs.frame (by simp) (by simp [ExecutionStep.posted]) (by rw [hphase]; rfl) rfl
  | notified =>
    obtain ⟨hphase, ⟨-, rfl⟩ | ⟨-, rfl⟩⟩ := notified_spec hlocated hnext
    · exact hs.frame (by simp) (by simp [ExecutionStep.posted]) (by rw [hphase]; rfl) rfl
    · exact hs.frame (by simp) (by simp [ExecutionStep.posted]) (by rw [hphase]; rfl) rfl
  | changeMode mode =>
    obtain ⟨-, ⟨-, rfl⟩ | ⟨-, rfl⟩⟩ := changeMode_spec hnext
    · exact hs.frame (by simp) (by simp [ExecutionStep.posted]) rfl rfl
    · exact hs.frame (by simp) (by simp [ExecutionStep.posted]) rfl rfl
  | modeSwitched =>
    obtain ⟨mode, -, rfl⟩ := modeSwitched_spec hnext
    exact hs.frame (by simp) (by simp [ExecutionStep.posted]) rfl rfl

/-! ### The origins of the events posted -/

/-- A step that posts nothing keeps the origins, when it does not take back numbers and starts new
operations only. -/
theorem PostedOnceEach.frame (hs : PostedOnceEach r) {action : Action}
    (hposted : ExecutionStep.posted ⟨r.current, action, t⟩ = [])
    (hcommands : r.current.commands ≤ t.commands)
    (hactivations : r.current.activations ≤ t.activations)
    (hrunning : ∀ activation ∈ t.running,
      activation ∈ r.current.running ∨ r.current.activations ≤ activation.number) :
    PostedOnceEach (r.push action t) := by
  have hsame : (r.push action t).produced ExecutionStep.posted =
      r.produced ExecutionStep.posted := by simp [hposted]
  refine ⟨hsame ▸ hs.distinct, fun number hmem ↦ ?_, fun activation hmem ↦ ?_⟩
  · exact Nat.lt_of_lt_of_le (hs.commands number (hsame ▸ hmem)) hcommands
  · obtain ⟨hnumber, hended⟩ := hs.operations activation (hsame ▸ hmem)
    refine ⟨Nat.lt_of_lt_of_le hnumber hactivations, fun hstarted ↦ ?_⟩
    rcases hrunning activation hstarted with hold | hnew
    · exact hended hold
    · exact Nat.lt_irrefl _ (Nat.lt_of_lt_of_le hnumber hnew)

/-- A step posts the event of a new origin. -/
theorem PostedOnceEach.concat (hs : PostedOnceEach r) (action : Action) {event : PostedEvent}
    (hposted : ExecutionStep.posted ⟨r.current, action, t⟩ = [event])
    (hnew : event.origin ∉ (r.produced ExecutionStep.posted).map PostedEvent.origin) :
    ((r.push action t).produced ExecutionStep.posted).map PostedEvent.origin =
        (r.produced ExecutionStep.posted).map PostedEvent.origin ++ [event.origin] ∧
      (((r.push action t).produced ExecutionStep.posted).map PostedEvent.origin).Nodup := by
  have hsame : ((r.push action t).produced ExecutionStep.posted).map PostedEvent.origin =
      (r.produced ExecutionStep.posted).map PostedEvent.origin ++ [event.origin] := by
    simp [hposted]
  refine ⟨hsame, hsame ▸ List.nodup_append.mpr ⟨hs.distinct, by simp, ?_⟩⟩
  rintro old hold other hother rfl
  exact hnew (List.mem_singleton.mp hother ▸ hold)

theorem postedOnceEach_step (hlocated : Located cycle r.current r.current.stateValue)
    (hsingle : SingleOperation r.current) (hs : PostedOnceEach r) {action : Action}
    (hnext : (execution cycle).next r.current action = some t) :
    PostedOnceEach (r.push action t) := by
  cases action with
  | post cmd =>
    obtain rfl := Option.some.inj hnext
    have hposted : ExecutionStep.posted ⟨r.current, .post cmd, r.current.post cmd⟩ =
        [⟨.cmdEvent cmd, .command r.current.commands⟩] := by
      simp [ExecutionStep.posted, Execution.post]
    obtain ⟨hsame, hdistinct⟩ := hs.concat (.post cmd) hposted
      fun hmem ↦ Nat.lt_irrefl _ (hs.commands _ hmem)
    refine ⟨hdistinct, fun number hmem ↦ ?_, fun activation hmem ↦ ?_⟩
    · rcases List.mem_append.mp (hsame ▸ hmem) with hold | hnew
      · exact Nat.lt_succ_of_lt (hs.commands number hold)
      · obtain rfl := Origin.command.inj (List.mem_singleton.mp hnew)
        exact Nat.lt_succ_self _
    · rcases List.mem_append.mp (hsame ▸ hmem) with hold | hnew
      · exact hs.operations activation hold
      · cases List.mem_singleton.mp hnew
  | finish activation code =>
    obtain ⟨hmem, ht⟩ := finish_spec hnext
    obtain ⟨hrunning, hfuture, -⟩ := hsingle.of_mem hmem
    have hposted : ExecutionStep.posted ⟨r.current, .finish activation code, t⟩ =
        [⟨operationEvent code, .operation activation⟩] := by
      simp [ExecutionStep.posted, ht]
    obtain ⟨hsame, hdistinct⟩ := hs.concat (.finish activation code) hposted
      fun hbefore ↦ (hs.operations _ hbefore).2 hmem
    subst ht
    refine ⟨hdistinct, fun number hmem ↦ ?_, fun other hmem ↦ ?_⟩
    · rcases List.mem_append.mp (hsame ▸ hmem) with hold | hnew
      · exact hs.commands number hold
      · cases List.mem_singleton.mp hnew
    · rcases List.mem_append.mp (hsame ▸ hmem) with hold | hnew
      · obtain ⟨hnumber, hended⟩ := hs.operations other hold
        exact ⟨hnumber, fun h ↦ hended (List.mem_of_mem_erase h)⟩
      · obtain rfl := Origin.operation.inj (List.mem_singleton.mp hnew)
        exact ⟨(hsingle.future _ _ hfuture).2.2, by simp [hrunning]⟩
  | select =>
    obtain ⟨event, rest, -, hqueue, hselect⟩ := select_spec hlocated hnext
    have hposted : ExecutionStep.posted ⟨r.current, .select, t⟩ = [] := by
      refine List.drop_eq_nil_of_le ?_
      rcases hselect with ⟨-, rfl⟩ | ⟨source, transition, -, rfl⟩ <;> simp [hqueue]
    rcases hselect with ⟨-, rfl⟩ | ⟨source, transition, -, rfl⟩
    · exact hs.frame hposted (Nat.le_refl _) (Nat.le_refl _) fun _ h ↦ Or.inl h
    · exact hs.frame hposted (Nat.le_refl _) (Nat.le_refl _) fun _ h ↦ Or.inl h
  | leave =>
    obtain ⟨event, source, transition, target, -, -, -, rfl⟩ := leave_spec hlocated hnext
    exact hs.frame (by simp [ExecutionStep.posted]) (Nat.le_refl _) (Nat.le_refl _)
      fun _ h ↦ Or.inl h
  | enter =>
    obtain ⟨event, source, transition, target, -, -, rfl⟩ := enter_spec hlocated hnext
    exact hs.frame (by simp [ExecutionStep.posted]) (Nat.le_refl _) (Nat.le_refl _)
      fun _ h ↦ Or.inl h
  | notified =>
    obtain ⟨-, ⟨-, rfl⟩ | ⟨-, rfl⟩⟩ := notified_spec hlocated hnext
    · refine hs.frame (by simp [ExecutionStep.posted]) (Nat.le_refl _) (Nat.le_succ _)
        fun activation hmem ↦ ?_
      rcases List.mem_append.mp hmem with hold | hnew
      · exact Or.inl hold
      · exact Or.inr (by simp [List.mem_singleton.mp hnew])
    · exact hs.frame (by simp [ExecutionStep.posted]) (Nat.le_refl _) (Nat.le_refl _)
        fun _ h ↦ Or.inl h
  | changeMode mode =>
    obtain ⟨-, ⟨-, rfl⟩ | ⟨-, rfl⟩⟩ := changeMode_spec hnext
    · exact hs.frame (by simp [ExecutionStep.posted]) (Nat.le_refl _) (Nat.le_refl _)
        fun _ h ↦ Or.inl h
    · exact hs.frame (by simp [ExecutionStep.posted]) (Nat.le_refl _) (Nat.le_refl _)
        fun _ h ↦ Or.inl h
  | modeSwitched =>
    obtain ⟨mode, -, rfl⟩ := modeSwitched_spec hnext
    exact hs.frame (by simp [ExecutionStep.posted]) (Nat.le_refl _) (Nat.le_refl _)
      fun _ h ↦ Or.inl h

/-! ### Every run -/

theorem followsTable_of_reachable (hrun : (execution cycle).recorded.Reachable r) :
    FollowsTable cycle r := by
  refine hrun.recorded_invariant (fun s hs ↦ located_stateValue hs) ?_ ?_
  · rintro s rfl
    exact ⟨rfl, rfl, rfl⟩
  · intro r action t hlocated hs hnext
    exact followsTable_step hlocated hs hnext

theorem postedOnceEach_of_reachable (hrun : (execution cycle).recorded.Reachable r) :
    PostedOnceEach r := by
  refine hrun.recorded_invariant
    (fun s hs ↦ And.intro (located_stateValue hs) (singleOperation_of_reachable hs)) ?_ ?_
  · rintro s rfl
    exact ⟨List.nodup_nil, fun _ h ↦ by simp at h, fun _ h ↦ by simp at h⟩
  · intro r action t hbase hs hnext
    exact postedOnceEach_step hbase.1 hbase.2 hs hnext

/-- In every run the machine follows the flat table on the events in the order of their posting,
and no event is processed twice. -/
theorem execution_follows_table (hrun : (execution cycle).recorded.Reachable r) :
    FollowsTable cycle r ∧
      ((r.produced ExecutionStep.taken).map fun taken ↦ taken.posted.origin).Nodup := by
  have hs := followsTable_of_reachable hrun
  refine ⟨hs, ?_⟩
  have hdistinct := (postedOnceEach_of_reachable hrun).distinct
  rw [hs.order, List.map_append, List.map_map] at hdistinct
  exact (List.nodup_append.mp hdistinct).1

end Steps

/-! ### A run -/

/-- CLEARING is aborted while its operation runs, and the completion of CLEARING, which comes behind
the ABORT, leads from ABORTING to ABORTED. -/
def abortedWhileClearingRun : List Action :=
  [.changeMode .manual, .modeSwitched, .notified, .post .clear, .post .hold, .select, .leave,
    .enter, .notified, .post .abort, .select, .select, .finish ⟨.clearing, 0⟩ 0, .leave, .enter,
    .notified, .select]

theorem execution_follows_table_abortedWhileClearingRun :
    ∃ r, (execution .singleCycle).recorded.runFrom ⟨.activated, []⟩ abortedWhileClearingRun =
        some r ∧
      r.produced ExecutionStep.reported = [.clearing, .aborting] ∧
      r.current.destination = .aborted ∧ FollowsTable .singleCycle r := by
  have hend : ((execution .singleCycle).recorded.runFrom ⟨.activated, []⟩
      abortedWhileClearingRun).map
        (fun r ↦ (r.produced ExecutionStep.reported, r.current.destination)) =
      some ([.clearing, .aborting], .aborted) := rfl
  obtain ⟨r, hrun, hr⟩ := Option.map_eq_some_iff.mp hend
  obtain ⟨hreported, hdestination⟩ := Prod.mk.injEq .. ▸ hr
  have hinitial : (execution .singleCycle).recorded.initial ⟨.activated, []⟩ := ⟨rfl, rfl⟩
  exact ⟨r, hrun, hreported, hdestination, (execution_follows_table
    (TransitionSystem.reachable_of_runFrom (.initial hinitial) abortedWhileClearingRun hrun)).1⟩

end PackML
