import PackML.Execution.EventOrder
import PackML.Execution.Lifecycle

/-!
# EXECUTE is entered on command only

`waysToExecute` lists, for each state, the commands that stand between it and EXECUTE in the flat
table: CLEAR, RESET and START after an abort, RESET and START after a stop or a completed cycle,
START in RESETTING and IDLE. A state that was held or suspended has two ways, UNHOLD or UNSUSPEND
and the way of a stop. `waysToExecute_move` is the fact about one event of the table, whatever the
event is. By `ways_step` every step of a machine, its deactivation and activation included, accepts
the command by which the ways of its next state are shorter, so that `production_needs_commands`
holds of every part of every run, with events, operations, mode changes and restarts in any order.
-/

set_option autoImplicit false
set_option relaxedAutoImplicit false

namespace PackML

/-! ### The commands before EXECUTE -/

/-- The ways from a state to EXECUTE: the commands that have to be accepted, in this order. -/
def waysToExecute : State → List (List TransitionCmd)
  | .undefined | .aborting | .aborted => [[.clear, .reset, .start]]
  | .clearing | .stopping | .stopped | .completing | .complete => [[.reset, .start]]
  | .resetting | .idle => [[.start]]
  | .holding | .held => [[.unhold], [.reset, .start]]
  | .suspending | .suspended => [[.unsuspend], [.reset, .start]]
  | .starting | .execute | .unholding | .unsuspending => [[]]

/-- The command that an event carries. -/
def PackmlEvent.commands : PackmlEvent → List TransitionCmd
  | .cmdEvent cmd => [cmd]
  | _ => []

/-- After an abort every state needs no more than the way of ABORTED. -/
theorem waysToExecute_aborted (state : State) :
    ∃ way ∈ waysToExecute state, way.Sublist [.clear, .reset, .start] := by
  cases state <;> decide

/-- An event of the flat table carries the command by which the ways of its target are shorter. -/
theorem waysToExecute_move {cycle : Cycle} {state target : State} {taken : TakenEvent}
    (hmove : flatMove cycle state taken = some target) :
    ∀ later ∈ waysToExecute target, ∃ way ∈ waysToExecute state,
      way.Sublist (taken.posted.event.commands ++ later) := by
  obtain ⟨hflat, -⟩ := Option.filter_eq_some_iff.mp hmove
  cases hevent : taken.posted.event with
  | cmdEvent cmd =>
    rw [hevent] at hflat
    cases cmd <;> cases state <;> cases hflat <;> decide
  | stateCompleteEvent =>
    rw [hevent] at hflat
    cases state <;> cases cycle <;> cases hflat <;> decide
  | errorEvent code =>
    rw [hevent] at hflat
    obtain ⟨-, htarget⟩ := Option.ite_none_left_eq_some.mp hflat
    obtain rfl := Option.some.inj htarget
    exact List.forall_mem_singleton.mpr (waysToExecute_aborted state)

/-! ### Machines with their life cycle -/

/-- The command whose event begins a transition in a step. -/
def LifecycleStep.accepted (step : LifecycleStep) : List TransitionCmd :=
  match step.action, step.before.machine.queue with
  | .machine .select, posted :: _ =>
    if step.after.machine.phase = .idle then [] else posted.event.commands
  | _, _ => []

/-- The ways from a machine to EXECUTE: those of the state that it is in or on its way to, and that
of ABORTED when it does not run. -/
def Lifecycle.waysToExecute (s : Lifecycle) : List (List TransitionCmd) :=
  if s.isActive then PackML.waysToExecute s.machine.destination else PackML.waysToExecute .aborted

section

variable {cycle : Cycle} {s t : Lifecycle}

/-- The state whose ways a machine has. -/
theorem Lifecycle.waysToExecute_eq (s : Lifecycle) :
    ∃ state, s.waysToExecute = PackML.waysToExecute state := by
  unfold Lifecycle.waysToExecute
  split
  · exact ⟨_, rfl⟩
  · exact ⟨_, rfl⟩

/-- A step after which the machine has the ways that it has had. -/
theorem Lifecycle.waysToExecute_of_eq (hrun : t.run = s.run)
    (hdestination : t.machine.destination = s.machine.destination) :
    t.waysToExecute = s.waysToExecute := by
  unfold Lifecycle.waysToExecute Lifecycle.isActive
  rw [hrun, hdestination]

/-- A machine that does not run has the way of ABORTED. -/
theorem Lifecycle.waysToExecute_of_not_running (hrun : s.run ≠ .running) :
    s.waysToExecute = PackML.waysToExecute .aborted :=
  if_neg (by simpa [Lifecycle.isActive] using hrun)

/-- The ways of a state are ways on after any commands. -/
theorem ways_of_eq {ways later : List (List TransitionCmd)} (hsame : later = ways)
    (accepted : List TransitionCmd) :
    ∀ way ∈ later, ∃ before ∈ ways, before.Sublist (accepted ++ way) :=
  fun way hway ↦ ⟨way, hsame ▸ hway, List.sublist_append_right _ _⟩

/-- A machine that has to begin in ABORTED again needs at least what it has needed. -/
theorem ways_of_aborted (s : Lifecycle) {later : List (List TransitionCmd)}
    (haborted : later = PackML.waysToExecute .aborted) (accepted : List TransitionCmd) :
    ∀ way ∈ later, ∃ before ∈ s.waysToExecute, before.Sublist (accepted ++ way) := by
  obtain ⟨state, hstate⟩ := s.waysToExecute_eq
  rw [haborted, hstate]
  refine List.forall_mem_singleton.mpr ?_
  obtain ⟨way, hway, hsublist⟩ := waysToExecute_aborted state
  exact ⟨way, hway, hsublist.trans (List.sublist_append_right _ _)⟩

/-- A step accepts the command by which the ways of the machine are shorter after it. -/
theorem ways_step (hlocated : LifecycleLocated cycle s) {step : LifecycleAction}
    (hnext : (lifecycle cycle).next s step = some t) :
    ∀ later ∈ t.waysToExecute, ∃ way ∈ s.waysToExecute,
      way.Sublist (LifecycleStep.accepted ⟨s, step, t⟩ ++ later) := by
  cases step with
  | activate application =>
    obtain rfl := Option.some.inj hnext
    obtain ⟨hmachine, -, hrun | ⟨-, hrun⟩⟩ := activate_machine s application
    · exact ways_of_eq (Lifecycle.waysToExecute_of_eq hrun (by rw [hmachine])) _
    · have hstarting : (s.activate application).1.run ≠ .running := by simp [hrun]
      exact ways_of_aborted s (Lifecycle.waysToExecute_of_not_running hstarting) _
  | started =>
    obtain ⟨-, rfl⟩ := started_spec hnext
    exact ways_of_aborted s rfl _
  | deactivate =>
    obtain rfl := Option.some.inj hnext
    obtain ⟨hmachine, hrun⟩ := deactivate_machine s
    exact ways_of_eq (Lifecycle.waysToExecute_of_eq hrun (by rw [hmachine])) _
  | stopped =>
    obtain ⟨-, -, -, rfl⟩ := stopped_spec hnext
    exact ways_of_aborted s rfl _
  | machine action =>
    obtain ⟨machine, hmachine, rfl⟩ := Option.map_eq_some_iff.mp hnext
    by_cases hrunning : s.run = .running
    · have hactive : s.isActive = true := decide_eq_true hrunning
      rcases destination_step (hlocated hrunning) (machineStep_of_isActive hactive hmachine) with
        hsame | ⟨posted, rest, target, rfl, hphase, hqueue, hmove, hpending⟩
      · have hways : ({ s with machine := machine } : Lifecycle).waysToExecute =
            s.waysToExecute := Lifecycle.waysToExecute_of_eq rfl hsame
        exact ways_of_eq hways _
      · have haccepted : LifecycleStep.accepted
            ⟨s, .machine .select, { s with machine := machine }⟩ = posted.event.commands := by
          have hbusy : machine.phase ≠ .idle := fun hidle ↦ by simp [hidle, Phase.pendingTarget]
            at hpending
          simp [LifecycleStep.accepted, hqueue, hbusy]
        have hbefore : s.waysToExecute = waysToExecute s.machine.stateValue := by
          simp [Lifecycle.waysToExecute, hactive, Execution.destination, hphase,
            Phase.pendingTarget]
        have hafter : ({ s with machine := machine } : Lifecycle).waysToExecute =
            waysToExecute target := by
          simp [Lifecycle.waysToExecute, Lifecycle.isActive, hrunning, Execution.destination,
            hpending]
        rw [haccepted, hbefore, hafter]
        exact waysToExecute_move hmove
    · exact ways_of_aborted s
        (Lifecycle.waysToExecute_of_not_running (s := { s with machine := machine }) hrunning) _

/-- In every run, from any of its states to any later one in which the machine runs and is in
EXECUTE or on its way there, the commands of a way from the former have been accepted in between, in
this order. -/
theorem production_needs_commands {r u : LifecycleRun}
    (hreachable : (lifecycle cycle).recorded.Reachable r) {actions : List LifecycleAction}
    (hrun : (lifecycle cycle).recorded.runFrom r actions = some u)
    (hactive : u.current.isActive = true)
    (hexecute : u.current.machine.destination = .execute) :
    ∃ since, u.produced LifecycleStep.accepted = r.produced LifecycleStep.accepted ++ since ∧
      ∃ way ∈ r.current.waysToExecute, way.Sublist since := by
  have hstep : ∀ s step t, (lifecycle cycle).Reachable s →
      (lifecycle cycle).next s step = some t → ∀ later ∈ t.waysToExecute,
        ∃ way ∈ s.waysToExecute, way.Sublist (LifecycleStep.accepted ⟨s, step, t⟩ ++ later) :=
    fun s step t hs hnext ↦ ways_step (lifecycle_located hs) hnext
  obtain ⟨since, hproduced, hsince⟩ :=
    TransitionSystem.exists_way_of_runFrom hstep hreachable actions hrun
  have harrived : [] ∈ u.current.waysToExecute := by
    simp [Lifecycle.waysToExecute, hactive, hexecute, waysToExecute]
  obtain ⟨way, hway, hsublist⟩ := hsince [] harrived
  exact ⟨since, hproduced, way, hway, by rwa [List.append_nil] at hsublist⟩

end

/-! ### A run -/

/-- The steps in which a selected transition is carried out. -/
def transitionSteps : List LifecycleAction :=
  [.machine .select, .machine .leave, .machine .enter, .machine .notified]

/-- A machine is activated, and three commands and the completions in between lead to EXECUTE; HOLD
is refused on the way and accepted there. The completion of EXECUTE, whose operation is waited for,
takes HOLDING to HELD, and that of HOLDING is ignored in HELD. -/
def heldRun : List LifecycleAction :=
  [.activate true, .started, .machine (.changeMode .manual), .machine .modeSwitched,
    .machine .notified, .machine (.post .clear)] ++ transitionSteps ++
    [.machine (.finish ⟨.clearing, 0⟩ 0)] ++ transitionSteps ++
    [.machine (.post .hold), .machine .select, .machine (.post .reset)] ++ transitionSteps ++
    [.machine (.finish ⟨.resetting, 1⟩ 0)] ++ transitionSteps ++
    [.machine (.post .start)] ++ transitionSteps ++
    [.machine (.finish ⟨.starting, 2⟩ 0)] ++ transitionSteps ++
    [.machine (.post .hold), .machine .select, .machine (.finish ⟨.execute, 3⟩ 0),
      .machine .leave, .machine .enter, .machine .notified, .machine .select,
      .machine (.finish ⟨.holding, 4⟩ 0), .machine .leave, .machine .enter, .machine .notified,
      .machine .select]

/-- START is refused in HELD, and UNHOLD leads back to EXECUTE. -/
def resumedRun : List LifecycleAction :=
  [.machine (.post .start), .machine .select, .machine (.post .unhold)] ++ transitionSteps ++
    [.machine (.finish ⟨.unholding, 5⟩ 0), .machine .select]

theorem production_needs_commands_resumedRun :
    ∃ r u, (lifecycle .singleCycle).recorded.runFrom
        ⟨⟨.constructed .undefined, .notRunning, false⟩, []⟩ heldRun = some r ∧
      r.current.machine.destination = .held ∧
      (lifecycle .singleCycle).recorded.runFrom r resumedRun = some u ∧
      u.current.machine.destination = .execute ∧
      ∃ since, u.produced LifecycleStep.accepted = r.produced LifecycleStep.accepted ++ since ∧
        ∃ way ∈ [[TransitionCmd.unhold], [.reset, .start]], way.Sublist since := by
  have hend : ((lifecycle .singleCycle).recorded.runFrom
      ⟨⟨.constructed .undefined, .notRunning, false⟩, []⟩ heldRun).map
        (fun r ↦ (r.current.machine.destination, r.current.waysToExecute,
          ((lifecycle .singleCycle).recorded.runFrom r resumedRun).map
            fun u ↦ (u.current.isActive, u.current.machine.destination))) =
      some (.held, [[.unhold], [.reset, .start]], some (true, .execute)) := by
    decide +kernel
  obtain ⟨r, hheld, hr⟩ := Option.map_eq_some_iff.mp hend
  simp only [Prod.mk.injEq] at hr
  obtain ⟨hdestination, hways, hresumed⟩ := hr
  obtain ⟨u, hrun, hu⟩ := Option.map_eq_some_iff.mp hresumed
  obtain ⟨hactive, hexecute⟩ := Prod.mk.injEq .. ▸ hu
  have hreachable : (lifecycle .singleCycle).recorded.Reachable r :=
    TransitionSystem.reachable_of_runFrom (.initial ⟨⟨_, rfl⟩, rfl⟩) heldRun hheld
  refine ⟨r, u, hheld, hdestination, hrun, hexecute, ?_⟩
  rw [← hways]
  exact production_needs_commands hreachable hrun hactive hexecute

end PackML
