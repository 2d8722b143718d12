import PackML.Manager.SMNode

/-!
# The two services for modes

A request for a mode carries any value. `~/changeMode` passes it on as it is, and `~/modeChange`,
the service of `SMNode`, replaces a value that is not an enumerator by UNDEFINED (`modeRequested`).
The machine cannot tell: it compares the value with MAINTENANCE only, so that two machines whose
requests differ in other modes run in step and differ in the name of their mode only
(`SameButMode`, `sameButMode_step`). `modes_interchangeable` is the result for every run and every
replacement of modes, and `modeChangeRequest_response` is what `~/modeChange` answers.
-/

set_option autoImplicit false
set_option relaxedAutoImplicit false

namespace PackML

/-! ### Requests -/

/-- The mode that `modeRequest` of `SMNode` asks for: the switch over the value of the message. -/
def modeRequested (mode : ModeType) : ModeType :=
  if mode = .maintenance then .maintenance
  else if mode = .manual then .manual
  else if mode = .production then .production
  else .undefined

/-- The constant `INVALID_MODE_REQUEST`. -/
def ModeChangeResponse.invalidModeRequest : Int := -1

/-- `modeRequest` of `SMNode`: the generator of the machine afterwards, and the response. -/
def modeChangeRequest (gen : StatesGenerator) (currentState : State) (mode : ModeType) :
    StatesGenerator × ModeChangeResponse :=
  match changeMode gen currentState (modeRequested mode) with
  | (gen', .ok _, _) => (gen', ⟨true, ModeChangeResponse.successCode, "Succes!"⟩)
  | (gen', .error message, _) => (gen', ⟨false, ModeChangeResponse.invalidModeRequest, message⟩)

/-- The request fails when the machine is in a state that allows no change, and then it has an error
code of its own and changes nothing. -/
theorem modeChangeRequest_response (gen : StatesGenerator) (currentState : State)
    (mode : ModeType) :
    ((modeChangeRequest gen currentState mode).2.success = gen.canSwitch currentState) ∧
      ((modeChangeRequest gen currentState mode).2.errorCode = ModeChangeResponse.successCode ↔
        gen.canSwitch currentState = true) ∧
      (gen.canSwitch currentState = false → (modeChangeRequest gen currentState mode).1 = gen) := by
  unfold modeChangeRequest
  cases hswitch : gen.canSwitch currentState with
  | true =>
    rw [changeMode_accepted hswitch]
    exact ⟨rfl, by simp, by simp⟩
  | false =>
    rw [changeMode_refused hswitch]
    have hcode : ModeChangeResponse.invalidModeRequest ≠ ModeChangeResponse.successCode := by decide
    exact ⟨rfl, iff_of_false hcode Bool.false_ne_true, fun _ ↦ rfl⟩

/-- The step with its mode replaced. -/
def Action.withMode (replace : ModeType → ModeType) : Action → Action
  | .changeMode mode => .changeMode (replace mode)
  | action => action

/-- The machine with another current mode and with the mode under way replaced. -/
def Execution.withMode (replace : ModeType → ModeType) (mode : Mode) (s : Execution) : Execution :=
  { s with gen := ⟨s.gen.available, mode⟩, switching := s.switching.map replace }

/-- The second machine is the first one with another mode, which has a name when the first one has
and the same states. -/
inductive SameButMode (replace : ModeType → ModeType) (s : Execution) : Execution → Prop
  | mk {mode : Mode} (hnamed : mode.name = "" ↔ s.gen.currentMode.name = "")
      (hstates : mode.availableStates = s.gen.currentMode.availableStates) :
      SameButMode replace s (s.withMode replace mode)

section

variable {cycle : Cycle} {replace : ModeType → ModeType} {s t : Execution}

/-- A replacement that keeps MAINTENANCE apart keeps the states of a mode. -/
theorem modeOf_replace_availableStates
    (hreplace : ∀ mode, replace mode = .maintenance ↔ mode = .maintenance) (mode : ModeType) :
    (modeOf (replace mode)).availableStates = (modeOf mode).availableStates := by
  simp [modeOf, hreplace]

/-- The steps that do not read the mode commute with its replacement. -/
theorem next_withMode (mode : Mode) {action : Action} (hchange : ∀ mode, action ≠ .changeMode mode)
    (hswitched : action ≠ .modeSwitched) :
    (execution cycle).next (s.withMode replace mode) action =
      ((execution cycle).next s action).map (Execution.withMode replace mode) := by
  cases action with
  | changeMode other => exact absurd rfl (hchange other)
  | modeSwitched => exact absurd rfl hswitched
  | post cmd => rfl
  | finish activation code =>
    change (s.withMode replace mode).finish activation code = (s.finish activation code).map _
    unfold Execution.finish
    rw [apply_ite (Option.map _)]
    rfl
  | select =>
    change (s.withMode replace mode).select cycle = (s.select cycle).map _
    unfold Execution.select Execution.withMode
    dsimp only
    split
    · split
      · rfl
      · rfl
    · rfl
  | leave =>
    change (s.withMode replace mode).leave = s.leave.map _
    unfold Execution.leave Execution.withMode
    dsimp only
    split
    · rw [apply_ite (Option.map _)]
      rfl
    · rfl
  | enter =>
    change (s.withMode replace mode).enter = s.enter.map _
    unfold Execution.enter Execution.withMode
    dsimp only
    split
    · rfl
    · rfl
  | notified =>
    change (s.withMode replace mode).notified = s.notified.map _
    unfold Execution.notified Execution.withMode
    dsimp only
    split
    · rw [apply_ite (Option.map _)]
      rfl
    · rfl

/-- Those steps keep the current mode. -/
theorem currentMode_kept {action : Action} (hchange : ∀ mode, action ≠ .changeMode mode)
    (hswitched : action ≠ .modeSwitched) (hnext : (execution cycle).next s action = some t) :
    t.gen.currentMode = s.gen.currentMode := by
  have hsame : s.withMode id s.gen.currentMode = s := by
    unfold Execution.withMode
    rw [Option.map_id]
    rfl
  have hcommutes : (execution cycle).next (s.withMode id s.gen.currentMode) action =
      ((execution cycle).next s action).map (Execution.withMode id s.gen.currentMode) :=
    next_withMode _ hchange hswitched
  rw [hsame, hnext, Option.map_some] at hcommutes
  exact congrArg (·.gen.currentMode) (Option.some.inj hcommutes)

/-- Two machines that differ in the name of their mode take the same steps and go on to differ in
nothing else. -/
theorem sameButMode_step (hreplace : ∀ mode, replace mode = .maintenance ↔ mode = .maintenance)
    (hs : SameButMode replace s t) (action : Action) :
    Option.Rel (SameButMode replace) ((execution cycle).next s action)
      ((execution cycle).next t (action.withMode replace)) := by
  obtain ⟨hnamed, hstates⟩ := hs
  rename_i current
  have hkept : ∀ action, (∀ mode, action ≠ .changeMode mode) → action ≠ .modeSwitched →
      Option.Rel (SameButMode replace) ((execution cycle).next s action)
        ((execution cycle).next (s.withMode replace current) action) := by
    intro action hchange hswitched
    rw [next_withMode current hchange hswitched]
    cases hnext : (execution cycle).next s action with
    | none => exact .none
    | some t =>
      have hmode := currentMode_kept hchange hswitched hnext
      exact .some ⟨hmode ▸ hnamed, hmode ▸ hstates⟩
  cases action with
  | changeMode mode =>
    have hguard : (s.withMode replace current).gen.canSwitch s.stateValue =
        s.gen.canSwitch s.stateValue := by
      have hname : (current.name == "") = (s.gen.currentMode.name == "") :=
        Bool.eq_iff_iff.mpr (by simpa using hnamed)
      exact congrArg (switchStates.contains s.stateValue || ·) hname
    change Option.Rel _ (s.changeMode mode) ((s.withMode replace current).changeMode (replace mode))
    unfold Execution.changeMode
    have hbusy : (s.withMode replace current).switching.isSome = s.switching.isSome :=
      Option.isSome_map
    rw [hbusy, show (s.withMode replace current).stateValue = s.stateValue from rfl, hguard]
    split
    · exact .none
    · split
      · exact .some ⟨hnamed, hstates⟩
      · exact .some ⟨hnamed, hstates⟩
  | modeSwitched =>
    change Option.Rel _ s.modeSwitched (s.withMode replace current).modeSwitched
    unfold Execution.modeSwitched Execution.withMode
    cases s.switching with
    | none => exact .none
    | some mode =>
      have hstates' := modeOf_replace_availableStates hreplace mode
      have hswitched : ({ s with
            gen := StatesGenerator.switch ⟨s.gen.available, current⟩ (modeOf (replace mode))
            switching := none } : Execution) =
          Execution.withMode replace (modeOf (replace mode))
            { s with gen := s.gen.switch (modeOf mode), switching := none } := by
        simp only [Execution.withMode, StatesGenerator.switch, hstates', Option.map_none]
      simp only [Option.map_some, hswitched]
      exact .some ⟨by simp [StatesGenerator.switch, modeOf, ModeType.toString_ne_empty], hstates'⟩
  | post cmd => exact hkept (.post cmd) (by simp) (by simp)
  | finish activation code => exact hkept (.finish activation code) (by simp) (by simp)
  | select => exact hkept .select (by simp) (by simp)
  | leave => exact hkept .leave (by simp) (by simp)
  | enter => exact hkept .enter (by simp) (by simp)
  | notified => exact hkept .notified (by simp) (by simp)

/-- In every run, modes other than MAINTENANCE can be replaced by each other: the same steps can be
taken, and the machines differ in the name of their mode only. -/
theorem modes_interchangeable
    (hreplace : ∀ mode, replace mode = .maintenance ↔ mode = .maintenance)
    (actions : List Action) :
    Option.Rel (SameButMode replace) ((execution cycle).runFrom .activated actions)
      ((execution cycle).runFrom .activated (actions.map (Action.withMode replace))) :=
  TransitionSystem.rel_runFrom (SameButMode replace) (Action.withMode replace)
    (fun _ _ action hs ↦ sameButMode_step hreplace hs action) ⟨Iff.rfl, rfl⟩ actions

end

/-! ### A run -/

theorem modeRequested_eq_maintenance_iff (mode : ModeType) :
    modeRequested mode = .maintenance ↔ mode = .maintenance := by
  unfold modeRequested
  split_ifs with hmaintenance hmanual hproduction
  · simp [hmaintenance]
  all_goals simp [hmaintenance]; decide

/-- A user-defined mode is asked for, and the machine is cleared in it. -/
def userDefinedModeRun : List Action :=
  [.changeMode ⟨7⟩, .notified, .modeSwitched, .post .clear, .select, .leave, .enter, .notified]

theorem modes_interchangeable_userDefinedModeRun :
    ∃ s t, (execution .singleCycle).runFrom .activated userDefinedModeRun = some s ∧
      (execution .singleCycle).runFrom .activated
        (userDefinedModeRun.map (Action.withMode modeRequested)) = some t ∧
      s.stateValue = .clearing ∧ SameButMode modeRequested s t := by
  have hend : ((execution .singleCycle).runFrom .activated userDefinedModeRun).map
      (fun s ↦ s.stateValue) = some State.clearing := rfl
  have hother : ((execution .singleCycle).runFrom .activated
      (userDefinedModeRun.map (Action.withMode modeRequested))).isSome := rfl
  obtain ⟨s, hrun, hclearing⟩ := Option.map_eq_some_iff.mp hend
  obtain ⟨t, hreplaced⟩ := Option.isSome_iff_exists.mp hother
  have hsame : Option.Rel (SameButMode modeRequested)
      ((execution .singleCycle).runFrom .activated userDefinedModeRun)
      ((execution .singleCycle).runFrom .activated
        (userDefinedModeRun.map (Action.withMode modeRequested))) :=
    modes_interchangeable modeRequested_eq_maintenance_iff userDefinedModeRun
  rw [hrun, hreplaced] at hsame
  cases hsame with
  | some hsame => exact ⟨s, t, hrun, hreplaced, hclearing, hsame⟩

end PackML
