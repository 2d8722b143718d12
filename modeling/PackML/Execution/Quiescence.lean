import PackML.Execution.EventOrder
import PackML.Execution.KeptCompletions
import Mathlib.Algebra.Ring.Nat

/-!
# A machine that gets no commands comes to rest

Without new commands every step of the Qt thread and of the operations lowers `Execution.potential`,
so that the potential bounds the number of these steps under every schedule, whatever codes the
operations return and however often modes are changed in between. `State.rank` bounds how often
events of operations can move the machine from a state; the completion of EXECUTE in the continuous
cycle, which begins EXECUTE again, is the one event that does not lower it (`rank_move`), and
`WindsDown` excludes it.

While the machine is not at rest, one of these steps can be taken (`atRest_of_stuck`), so that
`winds_down` gives a machine at rest at the end of every run that cannot go on. By
`rests_waiting` it then stands in a wait state, unless a mode has disabled COMPLETING, when only
EXECUTE and RESETTING fail.
-/

set_option autoImplicit false
set_option relaxedAutoImplicit false

namespace PackML

/-! ### Statements -/

/-- The steps of the Qt thread and of the operations. -/
def Action.progresses : Action → Bool
  | .finish _ _ | .select | .leave | .enter | .notified => true
  | .post _ | .changeMode _ | .modeSwitched => false

/-- No command is posted, and EXECUTE does not begin again. -/
def WindsDown (cycle : Cycle) (s : Execution) : Action → Prop
  | .post _ => False
  | .select => cycle = .continuousCycle → s.stateValue = .execute →
      s.queue.head?.map PostedEvent.event ≠ some .stateCompleteEvent
  | _ => True

instance (cycle : Cycle) (s : Execution) : DecidablePred (WindsDown cycle s)
  | .post _ => inferInstanceAs (Decidable False)
  | .select => inferInstanceAs (Decidable (_ → _ → _ ≠ _))
  | .finish _ _ | .leave | .enter | .notified | .changeMode _ | .modeSwitched =>
    inferInstanceAs (Decidable True)

/-- The Qt thread is idle, there is no event, and no operation runs. -/
structure AtRest (s : Execution) : Prop where
  phase : s.phase = .idle
  queue : s.queue = []
  running : s.running = []

/-- No step of the Qt thread and of the operations can be taken. -/
def Stuck (cycle : Cycle) (s : Execution) : Prop :=
  ∀ action : Action, action.progresses = true → (execution cycle).next s action = none

/-! ### The potential -/

/-- How often events of operations can move the machine from a state. -/
def State.rank : State → ℕ
  | .undefined | .aborted => 0
  | .aborting => 1
  | .stopped | .idle | .held | .suspended | .complete => 2
  | .clearing | .stopping | .resetting | .holding | .suspending | .completing => 3
  | .execute => 4
  | .starting | .unholding | .unsuspending => 5

/-- The steps that an event can cause: a transition takes five, and a command can lead to a state
of the highest rank. -/
def PackmlEvent.weight : PackmlEvent → ℕ
  | .cmdEvent _ => 31
  | .stateCompleteEvent | .errorEvent _ => 1

/-- The steps that are left of a transition, with those of the operation that it starts. -/
def Phase.weight : Phase → ℕ
  | .idle => 0
  | .notifying _ => 3
  | .entering _ _ => 4
  | .leaving _ _ => 5

/-- A bound on the steps of a machine that gets no commands. -/
def Execution.potential (s : Execution) : ℕ :=
  (s.queue.map fun posted ↦ posted.event.weight).sum + 5 * s.destination.rank +
    2 * s.running.length + s.phase.weight

section

variable {cycle : Cycle} {s t : Execution}

theorem State.rank_le (state : State) : state.rank ≤ 5 := by
  cases state <;> decide

/-- An event that moves the machine is a command, or lowers its rank, or begins EXECUTE again. -/
theorem rank_move {state target : State} {taken : TakenEvent}
    (hmove : flatMove cycle state taken = some target) :
    (∃ cmd, taken.posted.event = .cmdEvent cmd) ∨
      (taken.posted.event.weight = 1 ∧ target.rank < state.rank) ∨
      (cycle = .continuousCycle ∧ state = .execute ∧
        taken.posted.event = .stateCompleteEvent) := by
  obtain ⟨hflat, -⟩ := Option.filter_eq_some_iff.mp hmove
  cases hevent : taken.posted.event with
  | cmdEvent cmd => exact Or.inl ⟨cmd, rfl⟩
  | stateCompleteEvent =>
    rw [hevent] at hflat
    right
    cases state with
    | execute =>
      cases cycle with
      | singleCycle =>
        cases hflat
        exact Or.inl ⟨rfl, by decide⟩
      | continuousCycle => exact Or.inr ⟨rfl, rfl, rfl⟩
    | _ => cases hflat <;> exact Or.inl ⟨rfl, by decide⟩
  | errorEvent code =>
    rw [hevent] at hflat
    obtain ⟨habortable, htarget⟩ := Option.ite_none_left_eq_some.mp hflat
    obtain rfl := Option.some.inj htarget
    refine Or.inr (Or.inl ⟨rfl, ?_⟩)
    cases state <;> first | decide | exact absurd (by decide) habortable

/-- A selection lowers the potential when EXECUTE does not begin again. -/
theorem potential_select (hlocated : Located cycle s s.stateValue)
    (hallowed : WindsDown cycle s .select) (hnext : s.select cycle = some t) :
    t.potential + 1 ≤ s.potential := by
  obtain ⟨posted, rest, hphase, hqueue, ⟨-, rfl⟩ | ⟨source, transition, hselected, rfl⟩⟩ :=
    select_spec hlocated hnext
  · have hweight : 1 ≤ posted.event.weight := by
      cases posted.event <;> simp [PackmlEvent.weight]
    simp only [Execution.potential, Execution.destination, hqueue, List.map_cons, List.sum_cons]
    omega
  · obtain ⟨target, hmove, hentered⟩ := flatMove_of_selected hselected
    have hrank := target.rank_le
    simp only [Execution.potential, hqueue, List.map_cons, List.sum_cons, hphase,
      Execution.destination, Phase.pendingTarget, hentered, Option.getD_some, Option.getD_none,
      Phase.weight]
    rcases rank_move hmove with ⟨cmd, hcmd⟩ | ⟨hweight, hlower⟩ | ⟨hcycle, hexecute, hcompletion⟩
    · have hweight : posted.event.weight = 31 := by rw [show posted.event = _ from hcmd]; rfl
      omega
    · have hweight : posted.event.weight = 1 := hweight
      omega
    · exact absurd (by simpa [hqueue] using hcompletion) (hallowed hcycle hexecute)

/-- Every step of the Qt thread and of the operations lowers the potential, and a change of the mode
does not raise it. -/
theorem potential_step (hlocated : Located cycle s s.stateValue) {action : Action}
    (hallowed : WindsDown cycle s action) (hnext : (execution cycle).next s action = some t) :
    t.potential + (if action.progresses then 1 else 0) ≤ s.potential := by
  have hdestination : action ≠ .select → t.destination = s.destination := by
    intro hselect
    refine (destination_step hlocated hnext).resolve_right ?_
    rintro ⟨_, _, _, haction, -⟩
    exact hselect haction
  cases action with
  | post cmd => exact absurd hallowed id
  | select => exact potential_select hlocated hallowed hnext
  | finish activation code =>
    have hsame := hdestination (by simp)
    obtain ⟨hmem, rfl⟩ := finish_spec hnext
    have hlength := List.length_erase_of_mem hmem
    have hpositive := List.length_pos_of_mem hmem
    have hweight : (operationEvent code).weight = 1 := by
      unfold operationEvent
      split <;> rfl
    simp only [Execution.potential, hsame, List.map_append, List.sum_append, List.map_cons,
      List.map_nil, List.sum_cons, List.sum_nil, hlength, hweight, Action.progresses, if_true]
    omega
  | leave =>
    have hsame := hdestination (by simp)
    obtain ⟨event, source, transition, target, hphase, -, -, rfl⟩ := leave_spec hlocated hnext
    simp only [Execution.potential, hsame, hphase, Phase.weight, Action.progresses, if_true]
    omega
  | enter =>
    have hsame := hdestination (by simp)
    obtain ⟨event, source, transition, target, hphase, -, rfl⟩ := enter_spec hlocated hnext
    simp only [Execution.potential, hsame, hphase, Phase.weight, Action.progresses, if_true]
    omega
  | notified =>
    have hsame := hdestination (by simp)
    obtain ⟨hphase, ⟨-, rfl⟩ | ⟨-, rfl⟩⟩ := notified_spec hlocated hnext
    · simp only [Execution.potential, hsame, hphase, Phase.weight, Action.progresses, if_true,
        List.length_append, List.length_singleton]
      omega
    · simp only [Execution.potential, hsame, hphase, Phase.weight, Action.progresses, if_true]
      omega
  | changeMode mode =>
    obtain ⟨-, ⟨-, rfl⟩ | ⟨-, rfl⟩⟩ := changeMode_spec hnext
    · exact Nat.le_refl _
    · exact Nat.le_refl _
  | modeSwitched =>
    obtain ⟨mode, -, rfl⟩ := modeSwitched_spec hnext
    exact Nat.le_refl _

/-! ### Rest -/

/-- A machine that is not at rest can take a step. -/
theorem atRest_of_stuck (hstuck : Stuck cycle s) : AtRest s := by
  have hnone : s.running = [] := by
    refine List.eq_nil_iff_forall_not_mem.mpr fun activation hmem ↦ ?_
    obtain ⟨t, hnext⟩ := exists_finish hmem 0
    cases (hstuck (.finish activation 0) rfl).symm.trans hnext
  have hphase : s.phase = .idle := by
    cases hphase : s.phase with
    | idle => rfl
    | leaving event selection =>
      obtain ⟨t, hnext⟩ := exists_leave hphase hnone
      cases (hstuck .leave rfl).symm.trans hnext
    | entering event selection =>
      obtain ⟨t, hnext⟩ := exists_enter hphase
      cases (hstuck .enter rfl).symm.trans hnext
    | notifying state =>
      obtain ⟨t, hnext⟩ := exists_notified hphase
      cases (hstuck .notified rfl).symm.trans hnext
  refine ⟨hphase, ?_, hnone⟩
  cases hqueue : s.queue with
  | nil => rfl
  | cons event rest =>
    obtain ⟨t, hnext⟩ := exists_select cycle hphase hqueue
    cases (hstuck .select rfl).symm.trans hnext

/-- At rest no step can be taken. -/
theorem stuck_of_atRest (hs : AtRest s) : Stuck cycle s := by
  intro action hprogresses
  cases action with
  | finish activation code => exact if_neg (by simp [hs.running])
  | select =>
    change s.select cycle = none
    unfold Execution.select
    rw [hs.phase, hs.queue]
  | leave =>
    change s.leave = none
    unfold Execution.leave
    rw [hs.phase]
  | enter =>
    change s.enter = none
    unfold Execution.enter
    rw [hs.phase]
  | notified =>
    change s.notified = none
    unfold Execution.notified
    rw [hs.phase]
  | post | changeMode | modeSwitched => cases hprogresses

/-- From every reachable state, every continuation without new commands, in which EXECUTE does not
begin again, takes at most as many steps of the Qt thread and of the operations as the potential of
the state, and when it cannot go on the machine is at rest. -/
theorem winds_down (hreachable : (execution cycle).Reachable s) {actions : List Action}
    (hallowed : (execution cycle).AllowedAlong (WindsDown cycle) actions s)
    (hrun : (execution cycle).runFrom s actions = some t) :
    actions.countP Action.progresses ≤ s.potential ∧ (Stuck cycle t → AtRest t) := by
  have hbound := TransitionSystem.countP_add_rank_le Action.progresses
    (fun s action t hs hnow hnext ↦ potential_step (located_stateValue hs) hnow hnext)
    hreachable actions hallowed hrun
  exact ⟨Nat.le_trans (Nat.le_add_right _ _) hbound, atRest_of_stuck⟩

/-! ### Where the machine rests -/

/-- The modes of a reachable machine disable COMPLETING only, and only MAINTENANCE does. -/
theorem eq_completing_of_disabled (hrun : (execution cycle).Reachable s) {state : State}
    (hdisabled : s.gen.currentMode.availableStates.lookup state = some false) :
    state = .completing ∧ s.gen.currentMode = modeOf .maintenance := by
  rcases moded_of_reachable hrun with hunmoded | ⟨mode, hmode, -⟩
  · rw [hunmoded.gen] at hdisabled
    cases hdisabled
  · rw [hmode] at hdisabled
    have hdefined : state ≠ .undefined := by
      rintro rfl
      unfold modeOf at hdisabled
      split at hdisabled <;> cases hdisabled
    rw [modeOf_availableStates_lookup mode hdefined] at hdisabled
    simp only [ModeType.isAvailable, Option.some.injEq, Bool.not_eq_false', Bool.and_eq_true,
      decide_eq_true_eq] at hdisabled
    exact ⟨hdisabled.2, hmode.trans (congrArg modeOf hdisabled.1)⟩

/-- Only EXECUTE of a single cycle completes into COMPLETING. -/
theorem execute_of_completing {state : State}
    (htransition : ⟨.stateCompleteTransition, State.completing.generated⟩ ∈
      cycle.transitions state.generated) : cycle = .singleCycle ∧ state = .execute := by
  rw [transitions_generated] at htransition
  cases state <;> cases cycle <;> simp [Cycle.executeTarget] at htransition ⊢

/-- When only EXECUTE and RESETTING fail, a machine at rest is in a wait state, or it is in EXECUTE
of a single cycle, and the completion of this activation of EXECUTE was taken in MAINTENANCE, which
disables the target. -/
theorem rests_waiting {r : TransitionSystem.Recorded Execution Action}
    (hrun : (execution cycle).recorded.ReachableBy
      (fun _ action ↦ OnlyExecuteAndResettingFail action) r)
    (hrest : AtRest r.current) :
    r.current.stateValue.acting = false ∨
      (cycle = .singleCycle ∧ r.current.stateValue = .execute ∧
        ∃ activation, r.current.functionState .execute = some activation ∧
          ∃ step ∈ r.steps, ConsumedUnavailable cycle .execute activation step ∧
            step.before.gen.currentMode = modeOf .maintenance) := by
  obtain ⟨hphase, hqueue, hrunning⟩ := hrest
  cases hacting : r.current.stateValue.acting with
  | false => exact Or.inl rfl
  | true =>
    right
    have hkept : KeptInLeaf cycle r := by
      refine TransitionSystem.ReachableBy.recorded_invariant
        (fun s hs ↦ keptBase_of_reachableBy hs) ?_ ?_ hrun
      · rintro s rfl hacting
        cases hacting
      · intro r action t hbase hs _ hnext
        exact completionKept_step hbase hs hnext
    cases hkept hacting (by simp [hphase]) with
    | notStarted hnotifying => simp [hphase] at hnotifying
    | unfinished _ hmem => simp [hrunning] at hmem
    | queued _ hmem => simp [hqueue] at hmem
    | leaving _ hleaving => simp [hphase] at hleaving
    | @consumed activation step hcurrent hmem hconsumed =>
      have ⟨_, _, target, htransition, hdisabled⟩ := hconsumed
      obtain ⟨rfl, hmode⟩ :=
        eq_completing_of_disabled (hrun.reachable.before_of_mem step hmem) hdisabled
      obtain ⟨hcycle, hexecute⟩ := execute_of_completing htransition
      rw [hexecute] at hcurrent hconsumed
      exact ⟨hcycle, hexecute, activation, hcurrent, step, hmem, hconsumed, hmode⟩

end

/-! ### Runs -/

/-- A machine with a mode that was told to clear. -/
def clearPosted : Execution :=
  { Execution.activated with
    gen := StatesGenerator.initial.switch (modeOf .manual)
    phase := .idle
    queue := [⟨.cmdEvent .clear, .command 0⟩]
    commands := 1 }

/-- CLEARING is entered and completes; a change of the mode in between is refused. -/
def clearedContinuation : List Action :=
  [.select, .leave, .enter, .changeMode .production, .notified, .finish ⟨.clearing, 0⟩ 0, .select,
    .leave, .enter, .notified]

theorem winds_down_clearedContinuation :
    ∃ t, (execution .continuousCycle).runFrom clearPosted clearedContinuation = some t ∧
      clearedContinuation.countP Action.progresses ≤ clearPosted.potential ∧
        (Stuck .continuousCycle t → AtRest t) := by
  have hstart : (execution .continuousCycle).runFrom .activated
      [.changeMode .manual, .modeSwitched, .notified, .post .clear] = some clearPosted := rfl
  have hreachable := TransitionSystem.reachable_of_runFrom (.initial rfl) _ hstart
  have hend : ((execution .continuousCycle).runFrom clearPosted clearedContinuation).isSome := rfl
  obtain ⟨t, ht⟩ := Option.isSome_iff_exists.mp hend
  exact ⟨t, ht, winds_down hreachable (by decide +kernel) ht⟩

theorem rests_waiting_maintenanceExecuteRun :
    ∃ r, (execution .singleCycle).recorded.runFrom ⟨.activated, []⟩ maintenanceExecuteRun =
        some r ∧
      r.current.stateValue = .execute ∧
      ∃ activation, r.current.functionState .execute = some activation ∧
        ∃ step ∈ r.steps, ConsumedUnavailable .singleCycle .execute activation step ∧
          step.before.gen.currentMode = modeOf .maintenance := by
  have hend : ((execution .singleCycle).recorded.runFrom ⟨.activated, []⟩
      maintenanceExecuteRun).map (fun r ↦ (r.current.phase, r.current.queue, r.current.running,
        r.current.stateValue)) = some (.idle, [], [], .execute) :=
    rfl
  obtain ⟨r, hrun, hr⟩ := Option.map_eq_some_iff.mp hend
  simp only [Prod.mk.injEq] at hr
  obtain ⟨hphase, hqueue, hrunning, hexecute⟩ := hr
  have hinitial : (execution .singleCycle).recorded.initial ⟨.activated, []⟩ := ⟨rfl, rfl⟩
  have hallowed : (execution .singleCycle).recorded.AllowedAlong
      (fun _ action ↦ OnlyExecuteAndResettingFail action) maintenanceExecuteRun
        ⟨.activated, []⟩ := by
    decide +kernel
  obtain hwaiting | ⟨-, -, hconsumed⟩ := rests_waiting
    (TransitionSystem.reachableBy_of_runFrom (.initial hinitial) _ hallowed hrun)
    ⟨hphase, hqueue, hrunning⟩
  · rw [hexecute] at hwaiting
    cases hwaiting
  · exact ⟨r, hrun, hexecute, hconsumed⟩

end PackML
