import PackML.Execution.Completions
import PackML.Execution.KeptCompletions

/-!
# ABORTING can be a trap

ABORTING is in no super state and has a completion transition only, so an error of its own operation
finds no transition. When such an error was the last event that could have been a completion, the
machine stays in ABORTING for ever (`Wedged`, `Wedged.step`). `AbortingCompletes` excludes exactly
the step that leads there: the operation of ABORTING fails while the machine is idle and no
completion is in the queue (`not_wedged_iff`).
-/

set_option autoImplicit false
set_option relaxedAutoImplicit false

namespace PackML

/-! ### Statements -/

/-- The steps of a continuation: commands, operations that return, and the processing of events. -/
def Continues : Action → Prop
  | .changeMode _ | .modeSwitched => False
  | _ => True

/-- The machine is in a state. -/
def InState (target : State) (s : Execution) : Prop :=
  chart.activeLeaves s.configuration = [target.generated]

/-- An operation of ABORTING does not fail while the machine is idle in ABORTING without a
completion in the queue. -/
def AbortingCompletes (s : Execution) : Action → Prop
  | .finish activation code =>
    activation.state = .aborting → s.phase = .idle → s.completions = [] → code = 0
  | _ => True

instance (s : Execution) : DecidablePred (AbortingCompletes s)
  | .finish activation code =>
    inferInstanceAs (Decidable
      (activation.state = .aborting → s.phase = .idle → s.completions = [] → code = 0))
  | .post _ | .select | .leave | .enter | .notified | .changeMode _ | .modeSwitched =>
    inferInstanceAs (Decidable True)

/-- The machine is idle in ABORTING, whose operation has finished, and there is no completion. -/
structure Wedged (s : Execution) : Prop where
  phase : s.phase = .idle
  stateValue : s.stateValue = .aborting
  running : s.running = []
  completions : s.completions = []

section

variable {cycle : Cycle} {s t : Execution}

/-! ### The trap -/

/-- The first event of the queue is a completion or leaves the completions as they are. -/
theorem completions_cons {event : PostedEvent} {rest : List PostedEvent}
    (hqueue : s.queue = event :: rest) (hcompletion : event.event ≠ .stateCompleteEvent) :
    s.completions = rest.filter fun posted ↦ posted.event = .stateCompleteEvent := by
  rw [Execution.completions, hqueue, List.filter_cons_of_neg (by simpa using hcompletion)]

theorem completions_post (s : Execution) (cmd : TransitionCmd) :
    (s.post cmd).completions = s.completions := by
  simp [Execution.completions, Execution.post]

/-- In ABORTING only a completion has a target. -/
theorem flatTarget_aborting {event : PackmlEvent} {target : State}
    (hflat : flatTarget cycle .aborting event = some target) : event = .stateCompleteEvent := by
  cases event with
  | cmdEvent cmd => cases cmd <;> cases hflat
  | stateCompleteEvent => rfl
  | errorEvent code => cases hflat

/-- No step leaves the trap. -/
theorem Wedged.step (hlocated : Located cycle s s.stateValue) (hs : Wedged s) {action : Action}
    (hnext : (execution cycle).next s action = some t) : Wedged t := by
  obtain ⟨hphase, hvalue, hrunning, hcompletions⟩ := hs
  cases action with
  | post cmd =>
    obtain rfl := Option.some.inj hnext
    exact ⟨hphase, hvalue, hrunning, (completions_post s cmd).trans hcompletions⟩
  | finish activation code =>
    obtain ⟨hmem, -⟩ := finish_spec hnext
    simp [hrunning] at hmem
  | select =>
    obtain ⟨event, rest, -, hqueue, hselect⟩ := select_spec hlocated hnext
    have hevent : event.event ≠ .stateCompleteEvent := by
      intro hcompletion
      have hmem : event ∈ s.completions := by
        simp [Execution.completions, hqueue, hcompletion]
      simp [hcompletions] at hmem
    rcases hselect with ⟨-, rfl⟩ | ⟨source, transition, hselected, -⟩
    · exact ⟨hphase, hvalue, hrunning, (completions_cons hqueue hevent).symm.trans hcompletions⟩
    · obtain ⟨-, -, target, hflat, -⟩ := selected_some hselected
      exact absurd (flatTarget_aborting (hvalue ▸ hflat)) hevent
  | leave =>
    obtain ⟨event, source, transition, target, hleaving, -⟩ := leave_spec hlocated hnext
    simp [hphase] at hleaving
  | enter =>
    obtain ⟨event, source, transition, target, hentering, -⟩ := enter_spec hlocated hnext
    simp [hphase] at hentering
  | notified =>
    obtain ⟨hnotifying, -⟩ := notified_spec hlocated hnext
    simp [hphase] at hnotifying
  | changeMode mode =>
    obtain ⟨-, ⟨-, rfl⟩ | ⟨-, rfl⟩⟩ := changeMode_spec hnext
    · exact ⟨hphase, hvalue, hrunning, hcompletions⟩
    · exact ⟨hphase, hvalue, hrunning, hcompletions⟩
  | modeSwitched =>
    obtain ⟨mode, -, rfl⟩ := modeSwitched_spec hnext
    exact ⟨hphase, hvalue, hrunning, hcompletions⟩

/-- The step that leads into the trap, from outside of it. -/
theorem Wedged.of_step (hrun : (execution cycle).Reachable s) {action : Action}
    (hnext : (execution cycle).next s action = some t) (ht : Wedged t)
    (hallowed : AbortingCompletes s action) : Wedged s := by
  have hlocated := located_stateValue hrun
  have hsingle := singleOperation_of_reachable hrun
  obtain ⟨hphase, hvalue, hrunning, hcompletions⟩ := ht
  cases action with
  | post cmd =>
    obtain rfl := Option.some.inj hnext
    exact ⟨hphase, hvalue, hrunning, (completions_post s cmd).symm.trans hcompletions⟩
  | finish activation code =>
    obtain ⟨hmem, rfl⟩ := finish_spec hnext
    obtain ⟨-, hfuture, -⟩ := hsingle.of_mem hmem
    have hstate : activation.state = .aborting := (hsingle.future _ _ hfuture).1.trans hvalue
    simp only [Execution.completions, List.filter_append, List.append_eq_nil_iff] at hcompletions
    obtain ⟨hbefore, hnew⟩ := hcompletions
    have hcode : code = 0 := hallowed hstate hphase hbefore
    simp [operationEvent, hcode] at hnew
  | select =>
    obtain ⟨event, rest, hidle, hqueue, ⟨hnone, rfl⟩ | ⟨source, transition, -, rfl⟩⟩ :=
      select_spec hlocated hnext
    · refine ⟨hidle, hvalue, hrunning, ?_⟩
      by_cases hevent : event.event = .stateCompleteEvent
      · -- ABORTED is available, so that a completion is not dropped
        have hmoded : Moded s :=
          moded_of_acting (moded_of_reachable hrun) (by rw [show s.stateValue = _ from hvalue]; rfl)
        have hunavailable := (selected_none_iff _ _ _ _).mp hnone .aborted
          (by rw [show s.stateValue = _ from hvalue, hevent]; rfl)
        rw [hmoded.toBool (by decide) (by decide)] at hunavailable
        cases hunavailable
      · exact (completions_cons hqueue hevent).trans hcompletions
    · cases hphase
  | leave =>
    obtain ⟨event, source, transition, target, -, -, -, rfl⟩ := leave_spec hlocated hnext
    cases hphase
  | enter =>
    obtain ⟨event, source, transition, target, -, -, rfl⟩ := enter_spec hlocated hnext
    cases hphase
  | notified =>
    obtain ⟨-, ⟨-, rfl⟩ | ⟨hwait, rfl⟩⟩ := notified_spec hlocated hnext
    · simp at hrunning
    · rw [show s.stateValue = _ from hvalue] at hwait
      cases hwait
  | changeMode mode =>
    obtain ⟨-, ⟨-, rfl⟩ | ⟨-, rfl⟩⟩ := changeMode_spec hnext
    · exact ⟨hphase, hvalue, hrunning, hcompletions⟩
    · exact ⟨hphase, hvalue, hrunning, hcompletions⟩
  | modeSwitched =>
    obtain ⟨mode, -, rfl⟩ := modeSwitched_spec hnext
    exact ⟨hphase, hvalue, hrunning, hcompletions⟩

/-- A failure of ABORTING that is not allowed leads into the trap. -/
theorem wedged_of_not_aborting_completes (hrun : (execution cycle).Reachable s) {action : Action}
    (hnext : (execution cycle).next s action = some t)
    (hallowed : ¬ AbortingCompletes s action) : Wedged t := by
  cases action with
  | finish activation code =>
    obtain ⟨hmem, rfl⟩ := finish_spec hnext
    have hsingle := singleOperation_of_reachable hrun
    obtain ⟨hrunning, hfuture, -⟩ := hsingle.of_mem hmem
    simp only [AbortingCompletes, not_forall] at hallowed
    obtain ⟨hstate, hphase, hcompletions, hcode⟩ := hallowed
    refine ⟨hphase, (hsingle.future _ _ hfuture).1.symm.trans hstate, by simp [hrunning], ?_⟩
    simpa [Execution.completions, operationEvent, hcode] using hcompletions
  | _ => exact absurd trivial hallowed

/-- The machine is outside the trap exactly when it never took the step that leads there. -/
theorem not_wedged_iff {actions : List Action}
    (hrun : (execution cycle).runFrom .activated actions = some s) :
    ¬ Wedged s ↔ (execution cycle).AllowedAlong AbortingCompletes actions .activated := by
  have hstep : ∀ s action t, (execution cycle).Reachable s →
      (execution cycle).next s action = some t →
        (¬ Wedged t ↔ ¬ Wedged s ∧ AbortingCompletes s action) := by
    intro s action t hreachable hnext
    constructor
    · intro ht
      refine ⟨fun hs ↦ ht (hs.step (located_stateValue hreachable) hnext), ?_⟩
      by_contra hallowed
      exact ht (wedged_of_not_aborting_completes hreachable hnext hallowed)
    · rintro ⟨hs, hallowed⟩ ht
      exact hs (ht.of_step hreachable hnext hallowed)
  have hinitial : ¬ Wedged .activated := fun h ↦ by cases h.phase
  rw [TransitionSystem.iff_allowedAlong_of_runFrom hstep (.initial rfl) actions hrun]
  exact and_iff_right hinitial

/-- From the trap no continuation leads to another state. -/
theorem Wedged.not_canReach (hrun : (execution cycle).Reachable s) (hs : Wedged s) {target : State}
    (htarget : target ≠ .aborting) : ¬ (execution cycle).CanReach Continues (InState target) s := by
  have hstep : ∀ s action t, (execution cycle).Reachable s ∧ Wedged s → Continues action →
      (execution cycle).next s action = some t → (execution cycle).Reachable t ∧ Wedged t := by
    rintro s action t ⟨hreachable, hwedged⟩ - hnext
    exact ⟨hreachable.step hnext, hwedged.step (located_stateValue hreachable) hnext⟩
  refine TransitionSystem.not_canReach hstep ?_ ⟨hrun, hs⟩
  rintro s ⟨hreachable, hwedged⟩ hactive
  have hlocated := located_stateValue hreachable
  rw [InState, hlocated.configuration_eq (by simp [hwedged.phase]), chart_activeLeaves_path,
    hwedged.stateValue] at hactive
  exact htarget (PackmlState.simpleState.inj (List.cons.inj hactive).1).2.symm

end

end PackML
