import PackML.Execution.Accounting
import PackML.Execution.Lifecycle

/-!
# Operations over the life cycle of a machine

`sinceStart` is the record of the machine since it was started last, and `OperationsAccounted` is
said of it at every moment at which the machine runs. A machine is stopped without leaving its
states, so `onExit` does not wait for the operation of the active leaf, and no start waits for it
either: an operation that outlives the machine runs on in ABORTED, where the next CLEAR starts
another one (`two_operations_run`).

`LifecycleAccounts` is the invariant of the life cycle. A machine that runs takes the steps of an
execution and keeps its accounts, and a start opens new ones when no operation runs
(`StartsAtRest`). By `operations_accounted_iff` nothing else goes wrong, in any run.
-/

set_option autoImplicit false
set_option relaxedAutoImplicit false

namespace PackML

/-- The step that the machine itself takes. -/
def LifecycleStep.ofMachine (step : LifecycleStep) : List ExecutionStep :=
  match step.action with
  | .machine action => [⟨step.before.machine, action, step.after.machine⟩]
  | _ => []

/-- The record of the machine since it was started last. -/
def LifecycleRun.sinceStart (r : LifecycleRun) : TransitionSystem.Recorded Execution Action :=
  ⟨r.current.machine,
    (r.steps.takeWhile fun step ↦ decide (step.action ≠ .started)).flatMap LifecycleStep.ofMachine⟩

/-- The machine is started only when no operation runs. -/
def StartsAtRest (s : Lifecycle) : LifecycleAction → Prop
  | .started => s.machine.running = []
  | _ => True

instance (s : Lifecycle) : (action : LifecycleAction) → Decidable (StartsAtRest s action)
  | .started => inferInstanceAs (Decidable (_ = _))
  | .activate _ | .deactivate | .stopped | .machine _ => inferInstanceAs (Decidable True)

section

variable {cycle : Cycle} {r : LifecycleRun} {t : Lifecycle}

/-! ### The record since the last start -/

@[simp] theorem sinceStart_started (r : LifecycleRun) (t : Lifecycle) :
    LifecycleRun.sinceStart (r.push .started t) = ⟨t.machine, []⟩ := by
  simp [LifecycleRun.sinceStart, TransitionSystem.Recorded.push]

@[simp] theorem sinceStart_machine (r : LifecycleRun) (action : Action) (machine : Execution) :
    LifecycleRun.sinceStart (r.push (.machine action) { r.current with machine := machine }) =
      (LifecycleRun.sinceStart r).push action machine := by
  simp [LifecycleRun.sinceStart, TransitionSystem.Recorded.push, LifecycleStep.ofMachine]

/-- A step that is none of the machine leaves the record as it is. -/
theorem sinceStart_frame {action : LifecycleAction} (hstarted : action ≠ .started)
    (hother : ∀ step, action ≠ .machine step) (hmachine : t.machine = r.current.machine) :
    LifecycleRun.sinceStart (r.push action t) = LifecycleRun.sinceStart r := by
  have hnone : LifecycleStep.ofMachine ⟨r.current, action, t⟩ = [] := by
    unfold LifecycleStep.ofMachine
    split
    · rename_i step heq
      exact absurd heq (hother step)
    · rfl
  simp [LifecycleRun.sinceStart, TransitionSystem.Recorded.push, hstarted, hnone, hmachine]

/-! ### The accounts of a life cycle -/

/-- The futures are those of numbered activations, and while the machine runs, one operation runs at
most and the accounts since the last start are kept. -/
structure LifecycleAccounts (r : LifecycleRun) : Prop where
  future : ∀ state activation, r.current.machine.functionState state = some activation →
    activation.state = state ∧ state.acting = true ∧
      activation.number < r.current.machine.activations
  running : r.current.run = .running →
    SingleOperation r.current.machine ∧ Accounts (LifecycleRun.sinceStart r)

theorem lifecycleAccounts_machine (hlocated : LifecycleLocated cycle r.current)
    (hs : LifecycleAccounts r) {action : Action} {machine : Execution}
    (hnext : r.current.machineStep cycle action = some machine) :
    LifecycleAccounts (r.push (.machine action) { r.current with machine := machine }) := by
  by_cases hrunning : r.current.run = .running
  · have hstep := machineStep_of_isActive (decide_eq_true hrunning) hnext
    obtain ⟨hsingle, haccounts⟩ := hs.running hrunning
    have hsingle' := singleOperation_step (hlocated hrunning) hsingle hstep
    refine ⟨hsingle'.future, fun _ ↦ ⟨hsingle', ?_⟩⟩
    rw [sinceStart_machine]
    exact accounts_step (r := LifecycleRun.sinceStart r) (hlocated hrunning) hsingle haccounts hstep
  · obtain ⟨-, -, -, -, hfuture, hactivations, -⟩ :=
      machineStep_of_not_isActive (decide_eq_false hrunning) hnext
    refine ⟨?_, fun h ↦ absurd h hrunning⟩
    show ∀ state activation, machine.functionState state = some activation →
      activation.state = state ∧ state.acting = true ∧ activation.number < machine.activations
    rw [hfuture, hactivations]
    exact hs.future

/-- A call that leaves the machine as it is and does not start it keeps the accounts. -/
theorem LifecycleAccounts.frame (hs : LifecycleAccounts r) {action : LifecycleAction}
    (hstarted : action ≠ .started) (hother : ∀ step, action ≠ .machine step)
    (hmachine : t.machine = r.current.machine)
    (hrunning : t.run = .running → r.current.run = .running) :
    LifecycleAccounts (r.push action t) := by
  refine ⟨hmachine ▸ hs.future, fun h ↦ ?_⟩
  rw [sinceStart_frame hstarted hother hmachine, TransitionSystem.Recorded.push_current, hmachine]
  exact hs.running (hrunning h)

theorem lifecycleAccounts_step (hlocated : LifecycleLocated cycle r.current)
    (hs : LifecycleAccounts r) {action : LifecycleAction} (hallowed : StartsAtRest r.current action)
    (hnext : (lifecycle cycle).next r.current action = some t) :
    LifecycleAccounts (r.push action t) := by
  cases action with
  | activate application =>
    obtain rfl := Option.some.inj hnext
    obtain ⟨hmachine, -, hrun⟩ := activate_machine r.current application
    refine hs.frame (by simp) (by simp) hmachine fun hrunning ↦ ?_
    rcases hrun with hsame | ⟨-, hstarting⟩
    · exact hsame ▸ hrunning
    · cases hstarting.symm.trans hrunning
  | started =>
    obtain ⟨-, rfl⟩ := started_spec hnext
    refine ⟨hs.future, fun _ ↦ ⟨⟨Or.inl hallowed, hs.future⟩, ?_⟩⟩
    rw [sinceStart_started]
    exact accounts_start rfl hallowed
  | deactivate =>
    obtain rfl := Option.some.inj hnext
    obtain ⟨hmachine, hrun⟩ := deactivate_machine r.current
    exact hs.frame (by simp) (by simp) hmachine fun hrunning ↦ hrun ▸ hrunning
  | stopped =>
    obtain ⟨-, -, -, rfl⟩ := stopped_spec hnext
    exact hs.frame (by simp) (by simp) rfl fun hrunning ↦ by cases hrunning
  | machine action =>
    obtain ⟨machine, hmachine, rfl⟩ := Option.map_eq_some_iff.mp hnext
    exact lifecycleAccounts_machine hlocated hs hmachine

theorem lifecycleAccounts_of_reachableBy
    (hrun : (lifecycle cycle).recorded.ReachableBy
      (fun r action ↦ StartsAtRest r.current action) r) : LifecycleAccounts r := by
  refine hrun.recorded_invariant (fun s hs ↦ lifecycle_located hs.reachable) ?_ ?_
  · rintro s ⟨stateValue, rfl⟩
    exact ⟨fun state activation h ↦ (by cases h), fun h ↦ (by cases h)⟩
  · intro r action t hlocated hs hallowed hnext
    exact lifecycleAccounts_step hlocated hs hallowed hnext

/-! ### The result -/

/-- While the machine runs, its operations since the last start are serialised and accounted for. -/
def AccountedWhileRunning (r : LifecycleRun) : Prop :=
  r.current.run = .running → OperationsAccounted (LifecycleRun.sinceStart r)

/-- A start with an operation running is a start into ABORTED, a wait state. -/
theorem startsAtRest_of_accounted {action : LifecycleAction}
    (hnext : (lifecycle cycle).next r.current action = some t)
    (haccounted : AccountedWhileRunning (r.push action t)) : StartsAtRest r.current action := by
  cases action with
  | started =>
    obtain ⟨-, rfl⟩ := started_spec hnext
    have hactive : State.aborted.generated ∈ chart.activeLeaves initialConfiguration := by decide
    have hoperations := haccounted rfl
    rw [sinceStart_started] at hoperations
    exact hoperations.waiting .aborted hactive rfl
  | _ => trivial

/-- The operations of a machine are serialised and accounted for at every moment at which it runs,
over its whole life cycle, exactly when it was never started while an operation ran. -/
theorem operations_accounted_iff (hrun : (lifecycle cycle).recorded.Reachable r) :
    (∀ moment ∈ r.moments, AccountedWhileRunning moment) ↔
      ∀ step ∈ r.steps, StartsAtRest step.before step.action := by
  refine TransitionSystem.Reachable.forall_moments_iff ?_ ?_ hrun
  · rintro s ⟨stateValue, rfl⟩ hrunning
    cases hrunning
  · intro r action t hr hnext
    refine ⟨startsAtRest_of_accounted hnext, fun hallowed hrunning ↦ ?_⟩
    have hstep : (lifecycle cycle).recorded.next r action = some (r.push action t) := by
      show ((lifecycle cycle).next r.current action).map _ = _
      rw [hnext]
      rfl
    have hnow := TransitionSystem.ReachableBy.step hr hallowed hstep
    obtain ⟨hsingle, haccounts⟩ := (lifecycleAccounts_of_reachableBy hnow).running hrunning
    exact haccounts.operationsAccounted (lifecycle_located hnow.current.reachable hrunning) hsingle

end

/-! ### Runs -/

/-- The machine is activated and enters CLEARING, whose operation starts. -/
def clearingStarted : List LifecycleAction :=
  [.activate true, .started] ++ [.changeMode .manual, .modeSwitched, .notified, .post .clear,
    .select, .leave, .enter, .notified].map .machine

/-- CLEARING is aborted while its operation runs, which returns an error when it is waited for; the
machine is deactivated and activated again when the operation of ABORTING has returned as well. -/
def restartedAtRest : List LifecycleAction :=
  clearingStarted ++
    [.post .abort, .select, .finish ⟨.clearing, 0⟩ 7, .leave, .enter, .notified,
      .finish ⟨.aborting, 1⟩ 0].map .machine ++
    [.deactivate, .stopped, .activate true, .started]

theorem operations_accounted_iff_restartedAtRest :
    ∃ r : LifecycleRun, (lifecycle .singleCycle).recorded.runFrom
        ⟨⟨.constructed .undefined, .notRunning, false⟩, []⟩ restartedAtRest = some r ∧
      r.current.run = .running ∧ r.current.machine.activations = 2 ∧
        ∀ moment ∈ r.moments, AccountedWhileRunning moment := by
  have hend : ((lifecycle .singleCycle).recorded.runFrom
      ⟨⟨.constructed .undefined, .notRunning, false⟩, []⟩ restartedAtRest).map
        (fun r ↦ (r.current.run, r.current.machine.activations,
          decide (∀ step ∈ r.steps, StartsAtRest step.before step.action))) =
      some (.running, 2, true) := rfl
  obtain ⟨r, hrun, hr⟩ := Option.map_eq_some_iff.mp hend
  simp only [Prod.mk.injEq] at hr
  obtain ⟨hrunning, hactivations, hrest⟩ := hr
  have hreachable : (lifecycle .singleCycle).recorded.Reachable r :=
    TransitionSystem.reachable_of_runFrom (.initial ⟨⟨_, rfl⟩, rfl⟩) restartedAtRest hrun
  exact ⟨r, hrun, hrunning, hactivations,
    (operations_accounted_iff hreachable).mpr (of_decide_eq_true hrest)⟩

/-- The machine in CLEARING is deactivated and activated again before its operation has returned,
and is cleared once more. -/
def restartedInClearing : List LifecycleAction :=
  clearingStarted ++ [.deactivate, .stopped, .activate true, .started] ++
    [.notified, .post .clear, .select, .leave, .enter, .notified].map .machine

/-- Two operations of CLEARING run at once. -/
theorem two_operations_run :
    ∃ r : LifecycleRun, (lifecycle .singleCycle).recorded.runFrom
        ⟨⟨.constructed .undefined, .notRunning, false⟩, []⟩ restartedInClearing = some r ∧
      r.current.run = .running ∧
      r.current.machine.running = [⟨.clearing, 0⟩, ⟨.clearing, 1⟩] ∧
      ¬ ∀ moment ∈ r.moments, AccountedWhileRunning moment := by
  have hend : ((lifecycle .singleCycle).recorded.runFrom
      ⟨⟨.constructed .undefined, .notRunning, false⟩, []⟩ restartedInClearing).map
        (fun r ↦ (r.current.run, r.current.machine.running, r.moments.head?.map
          fun moment ↦ (moment.current.run, moment.current.machine.running))) =
      some (.running, [⟨.clearing, 0⟩, ⟨.clearing, 1⟩],
        some (.running, [⟨.clearing, 0⟩, ⟨.clearing, 1⟩])) := rfl
  obtain ⟨r, hrun, hr⟩ := Option.map_eq_some_iff.mp hend
  simp only [Prod.mk.injEq] at hr
  obtain ⟨hrunning, hoperations, hlast⟩ := hr
  obtain ⟨moment, hmoment, hstate⟩ := Option.map_eq_some_iff.mp hlast
  obtain ⟨hactive, htwo⟩ := Prod.mk.injEq .. ▸ hstate
  refine ⟨r, hrun, hrunning, hoperations, fun haccounted ↦ ?_⟩
  have hserialised := (haccounted moment (List.mem_of_mem_head? hmoment) hactive).serialised
  obtain ⟨hone, -⟩ := hserialised ⟨.clearing, 0⟩ (by
    show _ ∈ moment.current.machine.running
    rw [htwo]
    exact List.mem_cons_self)
  rw [show (LifecycleRun.sinceStart moment).current.running = _ from htwo] at hone
  cases hone

end PackML
