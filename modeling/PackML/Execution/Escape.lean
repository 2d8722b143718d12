import PackML.Execution.Steering

/-!
# From every state but one there is a way to IDLE

The only machines with a mode that cannot be brought to IDLE are those in the trap in ABORTING.
`escapes_iff_aborting_completes` is the result for every run, and the continuations use successful
operations only: they are those that drive the machine to each of its states
(`drives_of_not_wedged`), here to IDLE.
-/

set_option autoImplicit false
set_option relaxedAutoImplicit false

namespace PackML

/-- IDLE is the active leaf. -/
def AtIdle (s : Execution) : Prop :=
  chart.activeLeaves s.configuration = [State.idle.generated]

section

variable {cycle : Cycle} {s : Execution}

/-- In every run, when the machine has a mode, it can be brought to IDLE exactly when no operation
of ABORTING failed in ABORTING without a completion in the queue. Then successful operations are
enough. -/
theorem escapes_iff_aborting_completes {actions : List Action}
    (hrun : (execution cycle).runFrom .activated actions = some s)
    (hmode : s.gen.currentMode.name ≠ "") :
    ((execution cycle).CanReach Continues AtIdle s ↔
        (execution cycle).AllowedAlong AbortingCompletes actions .activated) ∧
      ((execution cycle).CanReach Continues AtIdle s →
        (execution cycle).CanReach Succeeds AtIdle s) := by
  have hreachable : (execution cycle).Reachable s :=
    TransitionSystem.reachable_of_runFrom (.initial rfl) actions hrun
  have hmoded : Moded s := moded_of_name hreachable hmode
  have hfree : (execution cycle).CanReach Continues AtIdle s → ¬ Wedged s :=
    fun hreach hwedged ↦ hwedged.not_canReach hreachable (by decide) hreach
  have hescapes : ¬ Wedged s → (execution cycle).CanReach Succeeds AtIdle s :=
    fun hs ↦ drives_of_not_wedged hreachable hmoded hs ⟨by decide, by simp⟩
  rw [← not_wedged_iff hrun]
  exact ⟨⟨hfree, fun hs ↦ (hescapes hs).mono Succeeds.continues⟩,
    fun hreach ↦ hescapes (hfree hreach)⟩

end

/-! ### Runs -/

/-- CLEARING fails, and the operation of ABORTING succeeds. -/
def clearingFailsRun : List Action :=
  [.changeMode .manual, .modeSwitched, .notified, .post .clear, .select, .leave, .enter,
    .notified, .finish ⟨.clearing, 0⟩ 1, .select, .leave, .enter, .notified,
    .finish ⟨.aborting, 1⟩ 0]

theorem escapes_iff_aborting_completes_clearingFailsRun :
    ∃ s, (execution .singleCycle).runFrom .activated clearingFailsRun = some s ∧
      (execution .singleCycle).CanReach Continues AtIdle s := by
  have hend : ((execution .singleCycle).runFrom .activated clearingFailsRun).map
      (fun s ↦ s.gen.currentMode.name) = some "MANUAL" := rfl
  obtain ⟨s, hrun, hname⟩ := Option.map_eq_some_iff.mp hend
  have hallowed : (execution .singleCycle).AllowedAlong AbortingCompletes clearingFailsRun
      .activated := by
    decide +kernel
  exact ⟨s, hrun, (escapes_iff_aborting_completes hrun (by simp [hname])).1.mpr hallowed⟩

/-- CLEARING fails, and so does the operation of ABORTING. -/
def abortingFailsRun : List Action :=
  [.changeMode .manual, .modeSwitched, .notified, .post .clear, .select, .leave, .enter,
    .notified, .finish ⟨.clearing, 0⟩ 1, .select, .leave, .enter, .notified,
    .finish ⟨.aborting, 1⟩ 1]

/-- The machine is in ABORTING for ever. -/
theorem aborting_failure_wedges :
    ∃ s, (execution .singleCycle).runFrom .activated abortingFailsRun = some s ∧
      s.gen.currentMode.name = "MANUAL" ∧
      chart.activeLeaves s.configuration = [State.aborting.generated] ∧
      ¬ (execution .singleCycle).CanReach Continues AtIdle s := by
  have hend : ((execution .singleCycle).runFrom .activated abortingFailsRun).map
      (fun s ↦ (s.gen.currentMode.name, chart.activeLeaves s.configuration, s.phase, s.stateValue,
        s.running, s.completions)) =
      some ("MANUAL", [State.aborting.generated], .idle, .aborting, [], []) := rfl
  obtain ⟨s, hrun, hs⟩ := Option.map_eq_some_iff.mp hend
  simp only [Prod.mk.injEq] at hs
  obtain ⟨hname, hactive, hphase, hvalue, hrunning, hcompletions⟩ := hs
  have hwedged : Wedged s := ⟨hphase, hvalue, hrunning, hcompletions⟩
  exact ⟨s, hrun, hname, hactive, hwedged.not_canReach
    (TransitionSystem.reachable_of_runFrom (.initial rfl) _ hrun) (by decide)⟩

end PackML
