import PackML.Execution.Execution

/-!
# The operation of the active leaf

`onExit` waits for the future of the state that is left, and the operation of the next state starts
only after it has been entered. `SingleOperation` is the resulting invariant: at most one operation
runs, it is the one that the state last entered has started, and it runs only while the Qt thread
is idle or waits to leave that state. `singleOperation_of_reachable` is the run lemma.
-/

set_option autoImplicit false
set_option relaxedAutoImplicit false

namespace PackML

/-- The Qt thread is idle or waits to leave a state. -/
def Phase.inState : Phase → Prop
  | .idle | .leaving _ _ => True
  | .entering _ _ | .notifying _ => False

/-- At most one operation is running; it is that of the last state entered, which has not been
left. A future belongs to an acting state and to an activation that has been numbered. -/
structure SingleOperation (s : Execution) : Prop where
  running : s.running = [] ∨ ∃ activation, s.running = [activation] ∧
    s.functionState s.stateValue = some activation ∧ s.phase.inState
  future : ∀ state activation, s.functionState state = some activation →
    activation.state = state ∧ state.acting = true ∧ activation.number < s.activations

section

variable {cycle : Cycle} {s t : Execution}

/-- An operation that runs is that of the stored state, and its state has not been left. -/
theorem SingleOperation.of_mem (hs : SingleOperation s) {activation : Activation}
    (hmem : activation ∈ s.running) :
    s.running = [activation] ∧ s.functionState s.stateValue = some activation ∧
      s.phase.inState := by
  rcases hs.running with hnone | ⟨only, hrunning, hfuture, hphase⟩
  · simp [hnone] at hmem
  · obtain rfl : activation = only := by simpa [hrunning] using hmem
    exact ⟨hrunning, hfuture, hphase⟩

/-- When the last state entered need not be waited for, no operation runs. -/
theorem SingleOperation.running_eq_nil (hs : SingleOperation s)
    (hwait : s.isRunning s.stateValue = false) : s.running = [] := by
  refine hs.running.resolve_right ?_
  rintro ⟨activation, hrunning, hfuture, -⟩
  have hacting := (hs.future _ _ hfuture).2.1
  simp [Execution.isRunning, hacting, hfuture, hrunning] at hwait

/-- No operation runs outside the phases in which the machine is in the stored state. -/
theorem SingleOperation.running_eq_nil_of_phase (hs : SingleOperation s)
    (hphase : ¬ s.phase.inState) : s.running = [] :=
  hs.running.resolve_right fun ⟨_, _, _, hin⟩ ↦ hphase hin

theorem singleOperation_step (hlocated : Located cycle s s.stateValue) (hs : SingleOperation s)
    {action : Action} (hnext : (execution cycle).next s action = some t) : SingleOperation t := by
  cases action with
  | post cmd =>
    obtain rfl := Option.some.inj hnext
    exact ⟨hs.running, hs.future⟩
  | finish activation code =>
    obtain ⟨hmem, rfl⟩ := finish_spec hnext
    obtain ⟨hrunning, -, -⟩ := hs.of_mem hmem
    exact ⟨Or.inl (by simp [hrunning]), hs.future⟩
  | select =>
    obtain ⟨event, rest, hphase, -, ⟨-, rfl⟩ | ⟨source, transition, -, rfl⟩⟩ :=
      select_spec hlocated hnext
    · exact ⟨hs.running, hs.future⟩
    · refine ⟨hs.running.imp_right ?_, hs.future⟩
      rintro ⟨activation, hrunning, hfuture, -⟩
      exact ⟨activation, hrunning, hfuture, trivial⟩
  | leave =>
    obtain ⟨event, source, transition, target, -, -, hwait, rfl⟩ := leave_spec hlocated hnext
    exact ⟨Or.inl (hs.running_eq_nil hwait), hs.future⟩
  | enter =>
    obtain ⟨event, source, transition, target, hphase, -, rfl⟩ := enter_spec hlocated hnext
    exact ⟨Or.inl (hs.running_eq_nil_of_phase (by simp [hphase, Phase.inState])), hs.future⟩
  | notified =>
    obtain ⟨hphase, ⟨hacting, rfl⟩ | ⟨-, rfl⟩⟩ := notified_spec hlocated hnext
    · have hnone := hs.running_eq_nil_of_phase (by simp [hphase, Phase.inState])
      refine ⟨Or.inr ⟨_, by simp [hnone], Function.update_self .., trivial⟩, ?_⟩
      intro state activation hfuture
      by_cases hstate : state = s.stateValue
      · subst hstate
        obtain rfl : _ = activation := by simpa using hfuture
        exact ⟨rfl, hacting, Nat.lt_succ_self _⟩
      · have hold := hs.future state activation (by simpa [hstate] using hfuture)
        exact ⟨hold.1, hold.2.1, Nat.lt_succ_of_lt hold.2.2⟩
    · have hnone := hs.running_eq_nil_of_phase (by simp [hphase, Phase.inState])
      exact ⟨Or.inl hnone, hs.future⟩
  | changeMode mode =>
    obtain ⟨-, ⟨-, rfl⟩ | ⟨-, rfl⟩⟩ := changeMode_spec hnext
    · exact ⟨hs.running, hs.future⟩
    · exact hs
  | modeSwitched =>
    obtain ⟨mode, -, rfl⟩ := modeSwitched_spec hnext
    exact ⟨hs.running, hs.future⟩

theorem singleOperation_of_reachable (hrun : (execution cycle).Reachable s) :
    SingleOperation s := by
  refine TransitionSystem.ReachableBy.invariant_of_reachable
    (fun s hs ↦ located_stateValue hs) ?_ ?_ hrun
  · rintro s rfl
    exact ⟨Or.inl rfl, fun state activation hfuture ↦ by cases hfuture⟩
  · intro s action t hlocated hs _ hnext
    exact singleOperation_step hlocated hs hnext

end

end PackML
