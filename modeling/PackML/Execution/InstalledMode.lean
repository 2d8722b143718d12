import PackML.Execution.Execution

/-!
# The installed mode of a running machine

A running machine either has no mode, and then it has not moved out of ABORTED, because no state
object has the property "Available" (`Unmoded`); or the properties are those of the mode that was
installed last (`Moded`). `moded_of_reachable` is the run lemma. With a mode every state but
COMPLETING is available (`Moded.toBool`).
-/

set_option autoImplicit false
set_option relaxedAutoImplicit false

namespace PackML

/-- No mode was installed, and the machine stands in ABORTED. -/
structure Unmoded (s : Execution) : Prop where
  gen : s.gen = .initial
  stateValue : s.stateValue = .aborted
  phase : s.phase = .idle ∨ s.phase = .notifying .aborted

/-- The properties "Available" are those of the current mode. -/
def Moded (s : Execution) : Prop :=
  ∃ mode, s.gen.currentMode = modeOf mode ∧
    ∀ state : State, state ≠ .undefined →
      s.gen.available state.generated = some (mode.isAvailable state)

section

variable {cycle : Cycle} {s t : Execution}

/-- With a mode, the transitions into every state but COMPLETING find it available. -/
theorem Moded.toBool (hs : Moded s) {state : State} (hdefined : state ≠ .undefined)
    (hstate : state ≠ .completing) : s.gen.available.toBool state.generated = true := by
  obtain ⟨mode, -, havailable⟩ := hs
  simp [AvailableProperty.toBool, havailable state hdefined, ModeType.isAvailable, hstate]

/-- A state that is not available is disabled by the current mode. -/
theorem Moded.lookup (hs : Moded s) {state : State} (hdefined : state ≠ .undefined)
    (hunavailable : s.gen.available.toBool state.generated = false) :
    s.gen.currentMode.availableStates.lookup state = some false := by
  obtain ⟨mode, hmode, havailable⟩ := hs
  rw [hmode, modeOf_availableStates_lookup mode hdefined]
  simpa [AvailableProperty.toBool, havailable state hdefined] using hunavailable

/-- Without a mode nothing is selected. -/
theorem Unmoded.selected_eq_none (hs : Unmoded s) (state : State) (event : PackmlEvent) :
    selected cycle s.gen.available state event = none := by
  refine (selected_none_iff _ _ _ _).mpr fun target _ ↦ ?_
  rw [hs.gen]
  rfl

/-- The steps of a machine without a mode. -/
theorem unmoded_step (hlocated : Located cycle s s.stateValue) (hs : Unmoded s) {action : Action}
    (hnext : (execution cycle).next s action = some t) : Unmoded t ∨ Moded t := by
  by_cases hswitched : action = .modeSwitched
  · subst hswitched
    obtain ⟨mode, -, rfl⟩ := modeSwitched_spec hnext
    exact Or.inr ⟨mode, rfl, fun state hdefined ↦ setAvailable_modeOf _ mode hdefined⟩
  have hgen : t.gen = .initial := ((stepFrame hlocated hnext).gen hswitched).trans hs.gen
  left
  cases action with
  | select =>
    obtain ⟨event, rest, -, -, ⟨-, rfl⟩ | ⟨source, transition, hselected, -⟩⟩ :=
      select_spec hlocated hnext
    · exact ⟨hgen, hs.stateValue, hs.phase⟩
    · rw [hs.selected_eq_none] at hselected
      cases hselected
  | leave =>
    obtain ⟨event, source, transition, target, hphase, -⟩ := leave_spec hlocated hnext
    rcases hs.phase with hidle | hidle <;> simp [hphase] at hidle
  | enter =>
    obtain ⟨event, source, transition, target, hphase, -⟩ := enter_spec hlocated hnext
    rcases hs.phase with hidle | hidle <;> simp [hphase] at hidle
  | notified =>
    obtain ⟨-, ⟨-, rfl⟩ | ⟨-, rfl⟩⟩ := notified_spec hlocated hnext
    · exact ⟨hgen, hs.stateValue, Or.inl rfl⟩
    · exact ⟨hgen, hs.stateValue, Or.inl rfl⟩
  | post | finish | changeMode | modeSwitched =>
    -- the Qt thread stays where it is
    obtain ⟨hphase, hvalue⟩ := phase_step hnext (by simp)
    exact ⟨hgen, hvalue.trans hs.stateValue, hphase ▸ hs.phase⟩

/-- A mode that is installed is replaced by another one only. -/
theorem Moded.step (hlocated : Located cycle s s.stateValue) (hs : Moded s) {action : Action}
    (hnext : (execution cycle).next s action = some t) : Moded t := by
  by_cases hswitched : action = .modeSwitched
  · subst hswitched
    obtain ⟨mode, -, rfl⟩ := modeSwitched_spec hnext
    exact ⟨mode, rfl, fun state hdefined ↦ setAvailable_modeOf _ mode hdefined⟩
  · unfold Moded
    rw [(stepFrame hlocated hnext).gen hswitched]
    exact hs

/-- A reachable machine stands in ABORTED without a mode, or its properties are those of its
mode. -/
theorem moded_of_reachable (hrun : (execution cycle).Reachable s) : Unmoded s ∨ Moded s := by
  refine TransitionSystem.ReachableBy.invariant_of_reachable
    (fun s hs ↦ located_stateValue hs) ?_ ?_ hrun
  · rintro s rfl
    exact Or.inl ⟨rfl, rfl, Or.inr rfl⟩
  · intro s action t hlocated hs _ hnext
    rcases hs with hs | hs
    · exact unmoded_step hlocated hs hnext
    · exact Or.inr (hs.step hlocated hnext)

theorem moded_of_name (hrun : (execution cycle).Reachable s)
    (hmode : s.gen.currentMode.name ≠ "") : Moded s := by
  refine (moded_of_reachable hrun).resolve_left fun hunmoded ↦ hmode ?_
  rw [hunmoded.gen]
  rfl

end

end PackML
