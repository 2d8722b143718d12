import PackML.Execution.Quiescence

/-!
# The machine between two events

Between two events a machine is its state, the events in its queue and whether an operation runs
(`RestState`). `restMachine` is the machine of these: commands are posted, the operation succeeds,
and the first event is dropped or leads to its target at once.

The running machine takes four steps or more for a transition, but the state that it is on its way
to and the events that will be in its queue when it gets there are known as soon as the event is
taken. `Execution.restState` says what the machine will be then. Every step of the running machine
is a move of `restMachine` or leaves this as it is (`restState_post` to `restState_notified`), and
the running machine realises every move (`realises_move`).
-/

set_option autoImplicit false
set_option relaxedAutoImplicit false

namespace PackML

/-! ### A machine between two events -/

/-- The steps of a continuation in which operations return 0. -/
def Succeeds : Action → Prop
  | .finish _ code => code = 0
  | .changeMode _ | .modeSwitched => False
  | _ => True

/-- The event that an operation adds when it returns 0. -/
def completionOf (busy : Bool) : List PackmlEvent :=
  if busy then [.stateCompleteEvent] else []

/-- Completions behind completions. -/
theorem replicate_append_completionOf (count : ℕ) (busy : Bool) :
    List.replicate count .stateCompleteEvent ++ completionOf busy =
      List.replicate (count + (completionOf busy).length) .stateCompleteEvent := by
  cases busy with
  | true => exact List.replicate_succ'.symm
  | false => exact List.append_nil _

/-- The state of a machine between two events. -/
structure RestState where
  state : State
  events : List PackmlEvent
  busy : Bool
  deriving DecidableEq, Repr

/-- The moves between two events: a command is posted, the operation returns 0, and the first event
is taken. -/
inductive RestMove
  | post (cmd : TransitionCmd)
  | succeed
  | take
  deriving DecidableEq

/-- The states that a mode has; all modes have all of them but COMPLETING. -/
def hasState (completing : Bool) (state : State) : Bool :=
  completing || !decide (state = .completing)

namespace RestState

variable (cycle : Cycle) (completing : Bool) (m : RestState)

/-- The operation returns 0. -/
def succeed : Option RestState :=
  if m.busy then
    some { m with events := m.events ++ [.stateCompleteEvent], busy := false }
  else none

/-- The first event is dropped, or leads to its target once the operation has returned. -/
def take : Option RestState :=
  match m.events with
  | [] => none
  | event :: rest =>
    match (flatTarget cycle m.state event).filter (hasState completing) with
    | none => some { m with events := rest }
    | some target => some ⟨target, rest ++ completionOf m.busy, target.acting⟩

end RestState

/-- The machine between events, from ABORTED on. -/
def restMachine (cycle : Cycle) (completing : Bool) : TransitionSystem RestState RestMove where
  initial m := m = ⟨.aborted, [], false⟩
  next m
    | .post cmd => some { m with events := m.events ++ [.cmdEvent cmd] }
    | .succeed => m.succeed
    | .take => m.take cycle completing

/-- What a running machine is when the transition that it is carrying out is over: the state that it
is on its way to, the events in the queue with the completion that the exit waits for, and whether
an operation runs then. -/
def Execution.restState (s : Execution) : RestState :=
  let events := s.queue.map PostedEvent.event
  match s.phase with
  | .idle => ⟨s.stateValue, events, !s.running.isEmpty⟩
  | .leaving _ _ =>
    ⟨s.destination, events ++ completionOf (!s.running.isEmpty), s.destination.acting⟩
  | .entering _ _ | .notifying _ => ⟨s.destination, events, s.destination.acting⟩

/-! ### The steps of the running machine -/

section Steps

variable {cycle : Cycle} {gen : StatesGenerator} {s t : Execution}

/-- A reachable machine with this generator, in some mode. -/
structure Driven (cycle : Cycle) (gen : StatesGenerator) (s : Execution) : Prop where
  reachable : (execution cycle).Reachable s
  moded : Moded s
  gen : s.gen = gen

theorem Driven.step (hs : Driven cycle gen s) (action : Action)
    (hswitched : action ≠ .modeSwitched) (hnext : (execution cycle).next s action = some t) :
    Driven cycle gen t := by
  have hlocated := located_stateValue hs.reachable
  exact ⟨hs.reachable.step hnext, hs.moded.step hlocated hnext,
    ((stepFrame hlocated hnext).gen hswitched).trans hs.gen⟩

/-- The states available to a machine with a mode. -/
theorem Driven.filter_eq (hs : Driven cycle gen s) (state : State) (event : PackmlEvent) :
    (flatTarget cycle state event).filter gen.isAvailable =
      (flatTarget cycle state event).filter (hasState (gen.isAvailable .completing)) := by
  cases hflat : flatTarget cycle state event with
  | none => rfl
  | some target =>
    by_cases hcompleting : target = .completing
    · simp [hcompleting, hasState, Option.filter_some]
    · have havailable : gen.isAvailable target = true :=
        hs.gen ▸ hs.moded.toBool (flatTarget_ne_undefined hflat) hcompleting
      simp [havailable, hasState, hcompleting, Option.filter_some]

/-- An idle machine gets a command. -/
theorem restState_post (hphase : s.phase = .idle) (cmd : TransitionCmd) :
    (s.post cmd).restState =
      { s.restState with events := s.restState.events ++ [.cmdEvent cmd] } := by
  simp [Execution.restState, Execution.post, hphase]

/-- The operation of an idle machine succeeds; the completion of a state that is being left is
already counted. -/
theorem restState_finish (hrun : (execution cycle).Reachable s) {activation : Activation}
    (hnext : s.finish activation 0 = some t) :
    (s.phase = .idle ∧ s.restState.succeed = some t.restState) ∨
      (s.phase ≠ .idle ∧ t.restState = s.restState) := by
  obtain ⟨hmem, rfl⟩ := finish_spec hnext
  obtain ⟨hrunning, -, hphase⟩ := (singleOperation_of_reachable hrun).of_mem hmem
  cases hcase : s.phase with
  | idle =>
    refine Or.inl ⟨rfl, ?_⟩
    simp [Execution.restState, RestState.succeed, hcase, hrunning, operationEvent]
  | leaving event selection =>
    refine Or.inr ⟨by simp, ?_⟩
    simp [Execution.restState, Execution.destination, hcase, hrunning, operationEvent,
      completionOf]
  | entering event selection => simp [hcase, Phase.inState] at hphase
  | notifying state => simp [hcase, Phase.inState] at hphase

/-- The first event is taken. -/
theorem restState_select (hs : Driven cycle gen s) (hnext : s.select cycle = some t) :
    s.phase = .idle ∧
      s.restState.take cycle (gen.isAvailable .completing) = some t.restState := by
  obtain ⟨posted, rest, hphase, hqueue, hnext⟩ :=
    select_spec (located_stateValue hs.reachable) hnext
  refine ⟨hphase, ?_⟩
  simp only [Execution.restState, hphase, RestState.take, hqueue, List.map_cons, ← hs.filter_eq]
  rcases hnext with ⟨hnone, rfl⟩ | ⟨source, transition, hselected, rfl⟩
  · have hmove := flatMove_of_selected_none hnone
    simp only [flatMove, hs.gen] at hmove
    rw [hmove, hphase]
  · obtain ⟨target, hmove, hentered⟩ := flatMove_of_selected hselected
    simp only [flatMove, hs.gen] at hmove
    rw [hmove]
    simp [Execution.destination, Phase.pendingTarget, hentered]

theorem restState_leave (hrun : (execution cycle).Reachable s) (hnext : s.leave = some t) :
    t.restState = s.restState := by
  obtain ⟨event, source, transition, target, hphase, -, hwait, rfl⟩ :=
    leave_spec (located_stateValue hrun) hnext
  have hnone := (singleOperation_of_reachable hrun).running_eq_nil hwait
  simp [Execution.restState, Execution.destination, Phase.pendingTarget, hphase, hnone,
    completionOf]

theorem restState_enter (hrun : (execution cycle).Reachable s) (hnext : s.enter = some t) :
    t.restState = s.restState := by
  obtain ⟨event, source, transition, target, hphase, htransfer, rfl⟩ :=
    enter_spec (located_stateValue hrun) hnext
  simp [Execution.restState, Execution.destination, Phase.pendingTarget, hphase,
    htransfer.enteredState_eq]

theorem restState_notified (hrun : (execution cycle).Reachable s) (hnext : s.notified = some t) :
    t.restState = s.restState := by
  obtain ⟨hphase, hnext⟩ := notified_spec (located_stateValue hrun) hnext
  have hnone := (singleOperation_of_reachable hrun).running_eq_nil_of_phase
    (by simp [hphase, Phase.inState])
  rcases hnext with ⟨hacting, rfl⟩ | ⟨hacting, rfl⟩
  · simp [Execution.restState, Execution.destination, Phase.pendingTarget, hphase, hacting]
  · simp [Execution.restState, Execution.destination, Phase.pendingTarget, hphase, hacting, hnone]

end Steps

/-! ### The running machine realises the moves -/

section Moves

variable {cycle : Cycle} {gen : StatesGenerator} {s t : Execution}

/-- While a transition is carried out, some step goes on with it. -/
theorem exists_settles (hs : Driven cycle gen s) (hphase : s.phase ≠ .idle) :
    ∃ action t, Succeeds action ∧ (execution cycle).next s action = some t ∧
      Driven cycle gen t ∧ t.restState = s.restState ∧
        t.phase.weight + t.running.length < s.phase.weight + s.running.length := by
  have hlocated := located_stateValue hs.reachable
  cases hcase : s.phase with
  | idle => exact absurd hcase hphase
  | leaving event selection =>
    by_cases hnone : s.running = []
    · obtain ⟨t, hnext⟩ := exists_leave hcase hnone
      refine ⟨.leave, t, trivial, hnext, hs.step .leave (by simp) hnext,
        restState_leave hs.reachable hnext, ?_⟩
      obtain ⟨_, _, _, _, _, -, -, rfl⟩ := leave_spec hlocated hnext
      simp [Phase.weight]
    · obtain ⟨activation, hmem⟩ := List.exists_mem_of_ne_nil _ hnone
      obtain ⟨t, hnext⟩ := exists_finish hmem 0
      refine ⟨.finish activation 0, t, rfl, hnext,
        hs.step (.finish activation 0) (by simp) hnext, ?_, ?_⟩
      · exact ((restState_finish hs.reachable hnext).resolve_left fun h ↦ hphase h.1).2
      · obtain ⟨-, rfl⟩ := finish_spec hnext
        have hlength := List.length_erase_of_mem hmem
        have hpositive := List.length_pos_of_mem hmem
        simp only [hcase, hlength]
        omega
  | entering event selection =>
    obtain ⟨t, hnext⟩ := exists_enter hcase
    refine ⟨.enter, t, trivial, hnext, hs.step .enter (by simp) hnext,
      restState_enter hs.reachable hnext, ?_⟩
    obtain ⟨_, _, _, _, _, _, rfl⟩ := enter_spec hlocated hnext
    simp [Phase.weight]
  | notifying state =>
    obtain ⟨t, hnext⟩ := exists_notified hcase
    refine ⟨.notified, t, trivial, hnext, hs.step .notified (by simp) hnext,
      restState_notified hs.reachable hnext, ?_⟩
    obtain ⟨-, ⟨-, rfl⟩ | ⟨-, rfl⟩⟩ := notified_spec hlocated hnext
    · simp only [Phase.weight, List.length_append, List.length_singleton]
      omega
    · simp [Phase.weight]

/-- The running machine stands between two events as the machine between events says. -/
structure Rests (cycle : Cycle) (gen : StatesGenerator) (s : Execution) (m : RestState) :
    Prop where
  driven : Driven cycle gen s
  phase : s.phase = .idle
  restState : s.restState = m

/-- The transition that is being carried out can be ended. -/
theorem settles (hs : Driven cycle gen s) :
    (execution cycle).CanReach Succeeds (Rests cycle gen · s.restState) s := by
  refine .of_rank (fun t ↦ t.phase.weight + t.running.length)
    (fun t ↦ Driven cycle gen t ∧ t.restState = s.restState) ?_ ⟨hs, rfl⟩
  rintro t ⟨ht, hsame⟩
  by_cases hphase : t.phase = .idle
  · exact Or.inl ⟨ht, hphase, hsame⟩
  · obtain ⟨action, u, hsucceeds, hnext, hu, hkept, hlower⟩ := exists_settles ht hphase
    exact Or.inr ⟨action, u, hsucceeds, hnext, ⟨hu, hkept.trans hsame⟩, hlower⟩

/-- Every move of the machine between events is realised. -/
theorem realises_move {m n : RestState} (hs : Rests cycle gen s m) {move : RestMove}
    (hnext : (restMachine cycle (gen.isAvailable .completing)).next m move = some n) :
    (execution cycle).CanReach Succeeds (Rests cycle gen · n) s := by
  obtain ⟨hdriven, hphase, rfl⟩ := hs
  cases move with
  | post cmd =>
    have hstep : (execution cycle).next s (.post cmd) = some (s.post cmd) := rfl
    refine .of_step hstep trivial (.here ⟨hdriven.step _ (by simp) hstep, hphase, ?_⟩)
    exact (restState_post hphase cmd).trans (Option.some.inj hnext)
  | succeed =>
    obtain ⟨hbusy, -⟩ := Option.ite_none_right_eq_some.mp hnext
    have hrunning : s.running ≠ [] := by simpa [Execution.restState, hphase] using hbusy
    obtain ⟨activation, hmem⟩ := List.exists_mem_of_ne_nil _ hrunning
    obtain ⟨t, hfinish⟩ := exists_finish hmem 0
    have hstep : (execution cycle).next s (.finish activation 0) = some t := hfinish
    have hsucceed := (restState_finish hdriven.reachable hfinish).resolve_right fun h ↦ h.1 hphase
    obtain ⟨hsame, -⟩ := phase_step hstep (by simp)
    exact .of_step hstep rfl (.here ⟨hdriven.step _ (by simp) hstep, hsame.trans hphase,
      Option.some.inj (hsucceed.2.symm.trans hnext)⟩)
  | take =>
    cases hqueue : s.queue with
    | nil => simp [restMachine, RestState.take, Execution.restState, hphase, hqueue] at hnext
    | cons posted rest =>
      obtain ⟨t, hselect⟩ := exists_select cycle hphase hqueue
      have hstep : (execution cycle).next s .select = some t := hselect
      obtain rfl : t.restState = n :=
        Option.some.inj ((restState_select hdriven hselect).2.symm.trans hnext)
      exact .of_step hstep trivial (settles (hdriven.step .select (by simp) hstep))

end Moves

end PackML
