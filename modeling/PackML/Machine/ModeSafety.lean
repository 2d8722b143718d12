import PackML.Library.TransitionSystem
import PackML.Machine.EventProcessing

/-!
# Modes and the states a machine can be in

`modeSystem` runs a machine from its construction: it is activated once, it processes arbitrary
events, and `changeMode` is called with arbitrary modes at any time, also before the activation,
while `state_value_` has no value yet. A mode change is atomic with respect to the processing of an
event.

`ModeInvariant` joins what each part needs of the others: nothing moves before the first mode
because no state object has the property "Available", so the active leaf at the first mode is
ABORTED; afterwards the properties are those of the installed mode, the machine enters available
states only, and a later mode is installed while the stored state is IDLE, which every mode makes
available. `mode_safety` is what follows for every reachable state.
-/

set_option autoImplicit false
set_option relaxedAutoImplicit false

namespace PackML

/-- A machine together with the last mode that `on_mode_changed` was called with. -/
structure ModeRun where
  machine : StateMachine
  lastMode : Option ModeType

/-- What happens to a machine: its activation, an event from its queue, a call of `changeMode`. -/
inductive ModeAction
  | activate
  | event (event : PackmlEvent)
  | changeMode (mode : ModeType)

/-- `StateMachine::changeMode` on a machine, with `getCurrentState()` for the current state. -/
def ModeRun.changeMode (run : ModeRun) (mode : ModeType) : ModeRun :=
  match PackML.changeMode run.machine.gen run.machine.stateValue mode with
  | (gen, _, some called) => ⟨{ run.machine with gen := gen }, some called⟩
  | (gen, _, none) => ⟨{ run.machine with gen := gen }, run.lastMode⟩

/-- A machine is constructed without a mode and without active states, and its `state_value_` is
not initialised. -/
def modeSystem (cycle : Cycle) : TransitionSystem ModeRun ModeAction where
  initial run :=
    run.machine.gen = .initial ∧ run.machine.configuration = [] ∧ run.lastMode = none
  next run
    | .activate =>
      if run.machine.configuration = [] then
        some { run with machine :=
          { run.machine with configuration := initialConfiguration, stateValue := .aborted } }
      else none
    | .event event =>
      if run.machine.configuration = [] then none
      else some { run with machine := processEvent cycle run.machine event }
    | .changeMode mode => some (run.changeMode mode)

/-- The joint invariant: a machine that runs is in one PackML state, which `state_value_` names;
without a mode no property is set and that state is ABORTED; with a mode the properties are its
availabilities, the mode is the current one, and that state is available. -/
structure ModeInvariant (run : ModeRun) : Prop where
  single : run.machine.configuration = [] ∨ ∃ state : State,
    run.machine.configuration = chart.path state.generated ∧ run.machine.stateValue = state ∧
      state ≠ .undefined ∧ (run.lastMode = none → state = .aborted) ∧
      ∀ mode, run.lastMode = some mode → mode.isAvailable state = true
  unset : run.lastMode = none → run.machine.gen = .initial
  installed : ∀ mode, run.lastMode = some mode → run.machine.gen.currentMode = modeOf mode ∧
    ∀ state : State, state ≠ .undefined →
      run.machine.gen.available state.generated = some (mode.isAvailable state)

/-- Every mode makes every state but COMPLETING available. -/
theorem ModeType.isAvailable_of_ne (mode : ModeType) {state : State}
    (hstate : state ≠ .completing) : mode.isAvailable state = true := by
  simp [ModeType.isAvailable, hstate]

/-- An accepted mode change installs the mode and calls `on_mode_changed` with it. -/
theorem ModeRun.changeMode_accepted {run : ModeRun}
    (hswitch : run.machine.gen.canSwitch run.machine.stateValue = true) (mode : ModeType) :
    run.changeMode mode =
      ⟨{ run.machine with gen := run.machine.gen.switch (modeOf mode) }, some mode⟩ := by
  simp only [ModeRun.changeMode, PackML.changeMode_accepted hswitch]

/-- A refused mode change changes nothing. -/
theorem ModeRun.changeMode_refused {run : ModeRun}
    (hswitch : run.machine.gen.canSwitch run.machine.stateValue = false) (mode : ModeType) :
    run.changeMode mode = run := by
  simp only [ModeRun.changeMode, PackML.changeMode_refused hswitch]

/-- A machine with a mode switches modes in IDLE only. -/
theorem ModeInvariant.stateValue_of_canSwitch {run : ModeRun} (hrun : ModeInvariant run)
    {mode : ModeType} (hmode : run.lastMode = some mode)
    (hswitch : run.machine.gen.canSwitch run.machine.stateValue = true) :
    run.machine.stateValue = .idle := by
  have hname : (run.machine.gen.currentMode.name == "") = false := by
    rw [(hrun.installed mode hmode).1]
    simpa [modeOf] using mode.toString_ne_empty
  simpa [StatesGenerator.canSwitch, switchStates, hname] using hswitch

/-- The flat machine moves to available states only. -/
theorem flatStep_cases (cycle : Cycle) (available : State → Bool) (state : State)
    (event : PackmlEvent) :
    flatStep cycle available state event = state ∨
      (available (flatStep cycle available state event) = true ∧
        flatStep cycle available state event ≠ .undefined) := by
  cases htarget : flatTarget cycle state event with
  | none => simp [flatStep, htarget]
  | some target =>
    cases havailable : available target with
    | false => simp [flatStep, htarget, havailable]
    | true =>
      simp only [flatStep, htarget, havailable, if_true]
      exact Or.inr ⟨trivial, flatTarget_ne_undefined htarget⟩

theorem modeInvariant_initial (cycle : Cycle) (run : ModeRun)
    (hinitial : (modeSystem cycle).initial run) : ModeInvariant run := by
  obtain ⟨hgen, hconfiguration, hmode⟩ := hinitial
  exact ⟨Or.inl hconfiguration, fun _ ↦ hgen, fun mode h ↦ by simp [hmode] at h⟩

theorem ModeInvariant.activate {run : ModeRun} (hrun : ModeInvariant run) :
    ModeInvariant { run with machine :=
      { run.machine with configuration := initialConfiguration, stateValue := .aborted } } where
  single := Or.inr ⟨.aborted, rfl, rfl, by decide, fun _ ↦ rfl,
    fun mode _ ↦ mode.isAvailable_of_ne (by decide)⟩
  unset := hrun.unset
  installed := hrun.installed

theorem ModeInvariant.processEvent {run : ModeRun} (hrun : ModeInvariant run) (cycle : Cycle)
    (hactive : run.machine.configuration ≠ []) (event : PackmlEvent) :
    ModeInvariant { run with machine := processEvent cycle run.machine event } where
  single := by
    obtain ⟨state, hconfiguration, hvalue, hdefined, hunset, havailable⟩ :=
      hrun.single.resolve_left hactive
    obtain ⟨hnext, hnextValue⟩ := processEvent_path cycle hconfiguration event
    refine Or.inr ⟨_, hnext, hnextValue hvalue, ?_⟩
    rcases flatStep_cases cycle run.machine.gen.isAvailable state event with
      hstay | ⟨hmove, htarget⟩
    · rw [hstay]
      exact ⟨hdefined, hunset, havailable⟩
    · refine ⟨htarget, fun hmode ↦ ?_, fun mode hmode ↦ ?_⟩
      · rw [hrun.unset hmode] at hmove
        cases hmove
      · have hproperty := (hrun.installed mode hmode).2 _ htarget
        simpa [StatesGenerator.isAvailable, AvailableProperty.toBool, hproperty] using hmove
  unset := hrun.unset
  installed := hrun.installed

theorem ModeInvariant.changeMode {run : ModeRun} (hrun : ModeInvariant run) (mode : ModeType) :
    ModeInvariant (run.changeMode mode) := by
  cases hswitch : run.machine.gen.canSwitch run.machine.stateValue with
  | false => rwa [ModeRun.changeMode_refused hswitch]
  | true =>
    rw [ModeRun.changeMode_accepted hswitch]
    refine ⟨?_, fun h ↦ (Option.some_ne_none _ h).elim, ?_⟩
    · refine hrun.single.imp_right ?_
      rintro ⟨state, hconfiguration, hvalue, hdefined, hunset, -⟩
      refine ⟨state, hconfiguration, hvalue, hdefined, fun h ↦ (Option.some_ne_none _ h).elim, ?_⟩
      rintro newMode -
      refine newMode.isAvailable_of_ne ?_
      -- without a mode the machine is still in ABORTED, with one it must be in IDLE
      cases hlast : run.lastMode with
      | none => rw [hunset hlast]; decide
      | some oldMode =>
        rw [← hvalue, hrun.stateValue_of_canSwitch hlast hswitch]
        decide
    · rintro newMode hnew
      obtain rfl := Option.some.inj hnew
      exact ⟨rfl, fun state hstate ↦ setAvailable_modeOf _ mode hstate⟩

theorem modeInvariant_step (cycle : Cycle) (run : ModeRun) (action : ModeAction) (next : ModeRun)
    (hrun : ModeInvariant run) (hnext : (modeSystem cycle).next run action = some next) :
    ModeInvariant next := by
  cases action with
  | activate =>
    obtain ⟨-, hnext⟩ := Option.ite_none_right_eq_some.mp hnext
    exact Option.some.inj hnext ▸ hrun.activate
  | event event =>
    obtain ⟨hactive, hnext⟩ := Option.ite_none_left_eq_some.mp hnext
    exact Option.some.inj hnext ▸ hrun.processEvent cycle hactive event
  | changeMode mode => exact Option.some.inj hnext ▸ hrun.changeMode mode

theorem modeInvariant_of_reachable {cycle : Cycle} {run : ModeRun}
    (hrun : (modeSystem cycle).Reachable run) : ModeInvariant run :=
  hrun.invariant (modeInvariant_initial cycle) (modeInvariant_step cycle)

/-- Mode safety. Before the first successful `changeMode` the machine does not leave ABORTED.
After it, the property "Available" of every PackML state is what the current mode says, the active
leaf is available in the current mode, and COMPLETING is not active in MAINTENANCE. A `changeMode`
that is refused leaves the generator as it was and does not call `on_mode_changed`. -/
theorem mode_safety (cycle : Cycle) {run : ModeRun} (hrun : (modeSystem cycle).Reachable run) :
    (run.lastMode = none →
      ∀ leaf ∈ chart.activeLeaves run.machine.configuration, leaf = State.aborted.generated) ∧
    (∀ mode, run.lastMode = some mode →
      run.machine.gen.currentMode = modeOf mode ∧
      (∀ state : State, state ≠ .undefined → run.machine.gen.available state.generated =
        run.machine.gen.currentMode.availableStates.lookup state) ∧
      (∀ leaf ∈ chart.activeLeaves run.machine.configuration, ∃ state : State,
        leaf = state.generated ∧
          run.machine.gen.currentMode.availableStates.lookup state = some true) ∧
      (mode = .maintenance → State.completing.generated ∉ run.machine.configuration)) ∧
    (∀ mode message,
      (changeMode run.machine.gen run.machine.stateValue mode).2.1 = .error message →
        (changeMode run.machine.gen run.machine.stateValue mode).1 = run.machine.gen ∧
          (changeMode run.machine.gen run.machine.stateValue mode).2.2 = none) := by
  have hinv := modeInvariant_of_reachable hrun
  refine ⟨fun hmode ↦ ?_, fun mode hmode ↦ ?_, fun mode message hrefused ↦ ?_⟩
  · rcases hinv.single with hempty | ⟨state, hconfiguration, -, -, hunset, -⟩
    · simp [hempty, Statechart.activeLeaves]
    · rw [hconfiguration, chart_activeLeaves_path, hunset hmode]
      simp
  · obtain ⟨hcurrent, hproperty⟩ := hinv.installed mode hmode
    have hlookup : ∀ {state : State}, state ≠ .undefined →
        run.machine.gen.currentMode.availableStates.lookup state =
          some (mode.isAvailable state) := fun hstate ↦ by
      rw [hcurrent, modeOf_availableStates_lookup mode hstate]
    refine ⟨hcurrent, fun state hstate ↦ ?_, ?_, ?_⟩
    · rw [hproperty state hstate, hlookup hstate]
    · rcases hinv.single with hempty | ⟨state, hconfiguration, -, hdefined, -, havailable⟩
      · simp [hempty, Statechart.activeLeaves]
      · rw [hconfiguration, chart_activeLeaves_path]
        rintro leaf hleaf
        refine ⟨state, List.mem_singleton.mp hleaf, ?_⟩
        rw [hlookup hdefined, havailable mode hmode]
    · rintro rfl hmem
      rcases hinv.single with hempty | ⟨state, hconfiguration, -, -, -, havailable⟩
      · simp [hempty] at hmem
      · rw [hconfiguration] at hmem
        have hcompleting : state = .completing := by
          rcases owner_of_mem_path hmem with ⟨superState, hsuper⟩ | hsimple
          · cases hsuper
          · exact (PackmlState.simpleState.inj hsimple).2.symm
        have := havailable _ hmode
        rw [hcompleting] at this
        exact absurd this (by decide)
  · cases hswitch : run.machine.gen.canSwitch run.machine.stateValue with
    | false => simp [changeMode_refused hswitch]
    | true => simp [changeMode_accepted hswitch] at hrefused

/-- A machine that ran in PRODUCTION first and completes EXECUTE in MAINTENANCE. -/
def maintenanceCycle : List ModeAction :=
  [.activate, .changeMode .production, .event (.cmdEvent .clear), .event .stateCompleteEvent,
    .event (.cmdEvent .reset), .event .stateCompleteEvent, .changeMode .maintenance,
    .event (.cmdEvent .start), .event .stateCompleteEvent, .event .stateCompleteEvent]

theorem mode_safety_maintenanceCycle :
    ∃ run, (modeSystem .singleCycle).runFrom ⟨⟨.initial, [], .undefined⟩, none⟩
        maintenanceCycle = some run ∧
      run.lastMode = some .maintenance ∧
      chart.activeLeaves run.machine.configuration = [State.execute.generated] ∧
      State.completing.generated ∉ run.machine.configuration := by
  have hend : ((modeSystem .singleCycle).runFrom ⟨⟨.initial, [], .undefined⟩, none⟩
      maintenanceCycle).map (fun run ↦
        (run.lastMode, chart.activeLeaves run.machine.configuration)) =
      some (some .maintenance, [State.execute.generated]) := rfl
  obtain ⟨run, hrun, hstate⟩ := Option.map_eq_some_iff.mp hend
  obtain ⟨hlast, hexecute⟩ := Prod.mk.injEq .. ▸ hstate
  have hreachable : (modeSystem .singleCycle).Reachable run :=
    TransitionSystem.reachable_of_runFrom (.initial ⟨rfl, rfl, rfl⟩) maintenanceCycle hrun
  exact ⟨run, hrun, hlast, hexecute,
    ((mode_safety .singleCycle hreachable).2.1 _ hlast).2.2.2 rfl⟩

end PackML
