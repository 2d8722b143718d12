import PackML.Execution.RestMachine

/-!
# Commands run to completion

A client that sends a command only when the machine is at rest sees the machine as a table of rest
states: `commanded` is one command in it, the target in the flat table followed by the completions
of the acting states that it leads through. The threads of the machine and of its operations run in
any order, and nothing of this order shows in the state in which they come to rest
(`commands_run_to_completion`).

`RestState.outcome` is the state in which a machine between two events will come to rest. Posts
apart, every step keeps it (`outcome_step`), because at most one event is left at any time
(`OneEvent`).
-/

set_option autoImplicit false
set_option relaxedAutoImplicit false

namespace PackML

/-! ### The table of rest states -/

section Table

variable (cycle : Cycle) (completing : Bool)

/-- The state reached by so many completions of acting states. -/
def settleIn : ℕ → State → State
  | 0, state => state
  | count + 1, state =>
    if state.acting then
      ((flatTarget cycle state .stateCompleteEvent).filter (hasState completing)).elim state
        (settleIn count)
    else state

/-- The state in which a machine rests that enters a state and whose operations succeed. No state
but EXECUTE of the continuous cycle is more than three completions from rest. -/
def settled (state : State) : State :=
  settleIn cycle completing 3 state

/-- The state in which a machine rests that takes an event. -/
def afterEvent (state : State) (event : PackmlEvent) : State :=
  ((flatTarget cycle state event).filter (hasState completing)).elim state
    (settled cycle completing)

/-- The state in which a machine rests that gets a command at rest. -/
def commanded (state : State) (cmd : TransitionCmd) : State :=
  afterEvent cycle completing state (.cmdEvent cmd)

/-- An acting state that is entered completes. -/
theorem settled_eq (state : State) :
    settled cycle completing state =
      if state.acting then afterEvent cycle completing state .stateCompleteEvent else state := by
  cases state <;> cases cycle <;> cases completing <;> rfl

/-- START of the single cycle leads to COMPLETE. -/
example : commanded .singleCycle true .idle .start = .complete := rfl

/-- The state in which a machine between two events will rest. -/
def RestState.outcome (m : RestState) : State :=
  match m.events with
  | event :: _ => afterEvent cycle completing m.state event
  | [] => if m.busy then afterEvent cycle completing m.state .stateCompleteEvent else m.state

end Table

/-- A machine with at most one event, and none while an operation runs. -/
def RestState.OneEvent (m : RestState) : Prop :=
  m.events = [] ∨ (m.busy = false ∧ ∃ event, m.events = [event])

section Moves

variable {cycle : Cycle} {completing : Bool} {m n : RestState}

theorem outcome_succeed (hm : m.OneEvent) (hnext : m.succeed = some n) :
    n.OneEvent ∧ n.outcome cycle completing = m.outcome cycle completing := by
  obtain ⟨hbusy, hnext⟩ := Option.ite_none_right_eq_some.mp hnext
  obtain rfl := Option.some.inj hnext
  rcases hm with hnone | ⟨hidle, -⟩
  · simp [RestState.OneEvent, RestState.outcome, hnone, hbusy]
  · cases hbusy.symm.trans hidle

theorem outcome_take (hm : m.OneEvent) (hnext : m.take cycle completing = some n) :
    n.OneEvent ∧ n.outcome cycle completing = m.outcome cycle completing := by
  rcases hm with hnone | ⟨hidle, event, hevent⟩
  · simp [RestState.take, hnone] at hnext
  · simp only [RestState.take, hevent, hidle, List.nil_append] at hnext
    simp only [RestState.outcome, hevent, afterEvent]
    cases hmoves : (flatTarget cycle m.state event).filter (hasState completing) with
    | none =>
      rw [hmoves] at hnext
      obtain rfl := Option.some.inj hnext
      exact ⟨Or.inl rfl, by simp⟩
    | some target =>
      rw [hmoves] at hnext
      obtain rfl := Option.some.inj hnext
      exact ⟨Or.inl rfl, (settled_eq cycle completing target).symm⟩

end Moves

/-! ### Schedules -/

/-- A command is posted at rest only, operations succeed, and the mode stays. -/
def OneAtATime (s : Execution) : Action → Prop
  | .post _ => AtRest s
  | .finish _ code => code = 0
  | .changeMode _ | .modeSwitched => False
  | .select | .leave | .enter | .notified => True

instance (s : Execution) : Decidable (AtRest s) :=
  decidable_of_iff (s.phase = .idle ∧ s.queue = [] ∧ s.running = [])
    ⟨fun ⟨hphase, hqueue, hrunning⟩ ↦ ⟨hphase, hqueue, hrunning⟩,
      fun hs ↦ ⟨hs.phase, hs.queue, hs.running⟩⟩

instance (s : Execution) : DecidablePred (OneAtATime s)
  | .post _ => inferInstanceAs (Decidable (AtRest s))
  | .finish _ code => inferInstanceAs (Decidable (code = 0))
  | .changeMode _ | .modeSwitched => inferInstanceAs (Decidable False)
  | .select | .leave | .enter | .notified => inferInstanceAs (Decidable True)

/-- The command that a step posts. -/
def Action.posts : Action → Option TransitionCmd
  | .post cmd => some cmd
  | _ => none

section

variable {cycle : Cycle} {gen : StatesGenerator} {s t : Execution}

/-- At rest nothing is left. -/
theorem AtRest.restState (hs : AtRest s) : s.restState = ⟨s.stateValue, [], false⟩ := by
  simp [Execution.restState, hs.phase, hs.queue, hs.running]

/-- A step that posts nothing keeps the state in which the machine will rest. -/
theorem outcome_step (hs : Driven cycle gen s) (hone : s.restState.OneEvent) {action : Action}
    (hallowed : OneAtATime s action) (hposts : action.posts = none)
    (hnext : (execution cycle).next s action = some t) :
    t.restState.OneEvent ∧ t.restState.outcome cycle (gen.isAvailable .completing) =
      s.restState.outcome cycle (gen.isAvailable .completing) := by
  have hkept : t.restState = s.restState → t.restState.OneEvent ∧
      t.restState.outcome cycle (gen.isAvailable .completing) =
        s.restState.outcome cycle (gen.isAvailable .completing) := by
    intro hsame
    rw [hsame]
    exact ⟨hone, rfl⟩
  cases action with
  | post cmd => cases hposts
  | finish activation code =>
    obtain rfl : code = 0 := hallowed
    rcases restState_finish hs.reachable hnext with ⟨-, hsucceed⟩ | ⟨-, hsame⟩
    · exact outcome_succeed hone hsucceed
    · exact hkept hsame
  | select => exact outcome_take hone (restState_select hs hnext).2
  | leave => exact hkept (restState_leave hs.reachable hnext)
  | enter => exact hkept (restState_enter hs.reachable hnext)
  | notified => exact hkept (restState_notified hs.reachable hnext)
  | changeMode mode => exact hallowed.elim
  | modeSwitched => exact hallowed.elim

/-- The state in which the machine will rest is that of the commands posted so far. -/
theorem outcome_run (hs : Driven cycle gen s) (hone : s.restState.OneEvent)
    (actions : List Action) (hallowed : (execution cycle).AllowedAlong OneAtATime actions s)
    (hrun : (execution cycle).runFrom s actions = some t) :
    t.restState.outcome cycle (gen.isAvailable .completing) =
      (actions.filterMap Action.posts).foldl (commanded cycle (gen.isAvailable .completing))
        (s.restState.outcome cycle (gen.isAvailable .completing)) := by
  induction actions generalizing s with
  | nil =>
    obtain rfl := TransitionSystem.runFrom_nil_iff.mp hrun
    rfl
  | cons action rest ih =>
    obtain ⟨middle, hfirst, hrest⟩ := TransitionSystem.runFrom_cons_iff.mp hrun
    obtain ⟨hnow, hlater⟩ := hallowed
    rw [hfirst] at hlater
    have hmiddle := hs.step action (by rintro rfl; exact hnow.elim) hfirst
    cases hposts : action.posts with
    | none =>
      obtain ⟨hone', hkept⟩ := outcome_step hs hone hnow hposts hfirst
      rw [List.filterMap_cons_none hposts, ← hkept]
      exact ih hmiddle hone' hlater hrest
    | some cmd =>
      cases action with
      | post posted =>
        obtain rfl : posted = cmd := Option.some.inj hposts
        have hrests : AtRest s := hnow
        obtain rfl : s.post posted = middle := Option.some.inj hfirst
        have hposted : (s.post posted).restState =
            ⟨s.stateValue, [.cmdEvent posted], false⟩ := by
          rw [restState_post hrests.phase, hrests.restState]
          rfl
        rw [ih hmiddle (hposted ▸ Or.inr ⟨rfl, _, rfl⟩) hlater hrest, hposted, hrests.restState,
          List.filterMap_cons_some hposts]
        rfl
      | _ => cases hposts

/-- When commands are posted at rest only, operations succeed and the mode stays, a run that cannot
go on ends at rest, and in the state to which the table of rest states leads. -/
theorem commands_run_to_completion (hreachable : (execution cycle).Reachable s)
    (hmode : s.gen.currentMode.name ≠ "") (hrest : AtRest s) {actions : List Action}
    (hallowed : (execution cycle).AllowedAlong OneAtATime actions s)
    (hrun : (execution cycle).runFrom s actions = some t) (hstuck : Stuck cycle t) :
    AtRest t ∧ t.stateValue =
      (actions.filterMap Action.posts).foldl
        (commanded cycle (s.gen.isAvailable .completing)) s.stateValue := by
  have hmoded : Moded s := moded_of_name hreachable hmode
  have hends : AtRest t := atRest_of_stuck hstuck
  have houtcome := outcome_run ⟨hreachable, hmoded, rfl⟩ (hrest.restState ▸ Or.inl rfl) actions
    hallowed hrun
  rw [hends.restState, hrest.restState] at houtcome
  exact ⟨hends, houtcome⟩

end

/-! ### A run -/

/-- A machine with a mode that rests in ABORTED. -/
def restingAborted : Execution :=
  { Execution.activated with
    gen := StatesGenerator.initial.switch (modeOf .manual)
    phase := .idle }

/-- CLEAR leads to STOPPED, and ABORT leads back to ABORTED. -/
def clearThenAbort : List Action :=
  [.post .clear, .select, .leave, .enter, .notified, .finish ⟨.clearing, 0⟩ 0, .select, .leave,
    .enter, .notified, .post .abort, .select, .leave, .enter, .notified, .finish ⟨.aborting, 1⟩ 0,
    .select, .leave, .enter, .notified]

theorem commands_run_to_completion_clearThenAbort :
    ∃ t, (execution .singleCycle).runFrom restingAborted clearThenAbort = some t ∧
      AtRest t ∧ t.stateValue =
        [TransitionCmd.clear, .abort].foldl
          (commanded .singleCycle (restingAborted.gen.isAvailable .completing)) .aborted := by
  have hstart : (execution .singleCycle).runFrom .activated
      [.changeMode .manual, .modeSwitched, .notified] = some restingAborted := rfl
  have hreachable := TransitionSystem.reachable_of_runFrom (.initial rfl) _ hstart
  have hend : ((execution .singleCycle).runFrom restingAborted clearThenAbort).map
      (fun t ↦ (t.phase, t.queue, t.running)) = some (.idle, [], []) := rfl
  obtain ⟨t, hrun, ht⟩ := Option.map_eq_some_iff.mp hend
  simp only [Prod.mk.injEq] at ht
  obtain ⟨hphase, hqueue, hrunning⟩ := ht
  have hallowed : (execution .singleCycle).AllowedAlong OneAtATime clearThenAbort
      restingAborted := by
    decide +kernel
  exact ⟨t, hrun, commands_run_to_completion hreachable (by decide) ⟨rfl, rfl, rfl⟩ hallowed hrun
    (stuck_of_atRest ⟨hphase, hqueue, hrunning⟩)⟩

end PackML
