import PackML.Manager.CommandServices
import PackML.Manager.StatusTimes

/-!
# The RViz panel

`PackmlWidget` has a button for each command and a label for each state. `updateButtonState` goes
through the flags of an answer of `~/allStatus`: it enables the buttons that belong to each flag
that is set and colours its label. `callbackTime` writes the times into the labels, except that the
label of COMPLETE gets the flag of COMPLETE.

The buttons of a state are the commands that the flat table has for it (`mem_buttons_iff`), so that
a panel that was updated with an answer of `statusRequest` offers exactly these (`shows_update`).
-/

set_option autoImplicit false
set_option relaxedAutoImplicit false

namespace PackML

/-! ### The widget -/

/-- `Ui::PackmlPanel`: the buttons that are enabled, the labels that are red, and the number of
seconds that each label gives, of which it shows two decimals. -/
structure PackmlPanel where
  enabled : TransitionCmd → Bool
  red : State → Bool
  seconds : State → ℚ

/-- The panel as `packml.ui` describes it. -/
def PackmlPanel.setupUi : PackmlPanel where
  enabled cmd := decide (cmd ≠ .noCommand)
  red _ := false
  seconds _ := 0

/-- The number that the slot of a button sends. -/
def TransitionCmd.request : TransitionCmd → Int8
  | .noCommand => 0
  | .reset => 1
  | .start => 2
  | .stop => 3
  | .hold => 4
  | .unhold => 5
  | .suspend => 6
  | .unsuspend => 7
  | .abort => 8
  | .clear => 9

/-- The buttons that `updateButtonState` enables for the flag of a state. -/
def State.buttons : State → List TransitionCmd
  | .stopped => [.abort, .reset]
  | .idle => [.stop, .abort, .start]
  | .starting => [.stop, .abort]
  | .execute => [.stop, .abort, .hold, .suspend]
  | .completing => [.stop, .abort]
  | .complete => [.stop, .abort, .reset]
  | .suspended => [.stop, .abort, .unsuspend]
  | .aborting => []
  | .aborted => [.clear]
  | .holding => [.stop, .abort]
  | .held => [.stop, .abort, .unhold]
  | .unholding => [.stop, .abort]
  | .suspending => [.stop, .abort]
  | .unsuspending => [.stop, .abort]
  | .resetting => [.stop, .abort]
  | .clearing => [.abort]
  | .stopping => [.abort]
  | .undefined => []

/-- The flags in the order of `updateButtonState`. -/
def flagOrder : List State :=
  [.stopped, .idle, .starting, .execute, .completing, .complete, .suspended, .aborting, .aborted,
    .holding, .held, .unholding, .suspending, .unsuspending, .resetting, .clearing, .stopping]

namespace PackmlPanel

variable (panel : PackmlPanel) (msg : AllStatusResponse)

def disableAllButtons : PackmlPanel :=
  { panel with enabled := fun _ ↦ false }

/-- What `updateButtonState` does for one flag. -/
def updateFlag (state : State) : PackmlPanel :=
  if msg.flag state then
    { panel with
      red := Function.update panel.red state true
      enabled := fun cmd ↦ panel.enabled cmd || decide (cmd ∈ state.buttons) }
  else { panel with red := Function.update panel.red state false }

def updateButtonState : PackmlPanel :=
  flagOrder.foldl (fun panel state ↦ panel.updateFlag msg state) panel.disableAllButtons

/-- `callbackTime`; the flag of COMPLETE is printed as a number. -/
def callbackTime : PackmlPanel :=
  { panel with
    seconds := fun state ↦
      if state = .undefined then panel.seconds state
      else if state = .complete then (if msg.flag .complete then 1 else 0)
      else msg.time state }

/-- What `timerEvent` does with an answer. -/
def update : PackmlPanel :=
  (panel.updateButtonState msg).callbackTime msg

end PackmlPanel

/-! ### What the panel shows -/

/-- The panel shows a state: its label is the red one, and the buttons of the commands that the flat
table has for the state are enabled. -/
structure PackmlPanel.Shows (panel : PackmlPanel) (state : State) : Prop where
  red : ∀ other, other ≠ .undefined → panel.red other = decide (other = state)
  enabled : ∀ cmd, panel.enabled cmd = (flatCommand cmd state).isSome

/-- No label is red, and no button is enabled. -/
structure PackmlPanel.IsBlank (panel : PackmlPanel) : Prop where
  red : ∀ state, state ≠ .undefined → panel.red state = false
  enabled : ∀ cmd, panel.enabled cmd = false

theorem mem_buttons_iff (cmd : TransitionCmd) (state : State) :
    decide (cmd ∈ state.buttons) = (flatCommand cmd state).isSome := by
  cases state <;> cases cmd <;> rfl

theorem mem_flagOrder {state : State} (hstate : state ≠ .undefined) : state ∈ flagOrder := by
  cases state <;> first | exact absurd rfl hstate | decide

/-- Both switches agree on the numbers of the buttons. -/
theorem toTransitionCmd_request (cmd : TransitionCmd) :
    toTransitionCmd cmd.request.toInt = cmd := by
  cases cmd <;> rfl

section

variable (panel : PackmlPanel) (msg : AllStatusResponse)

theorem updateFlag_enabled (state : State) (cmd : TransitionCmd) :
    (panel.updateFlag msg state).enabled cmd =
      (panel.enabled cmd || (msg.flag state && decide (cmd ∈ state.buttons))) := by
  unfold PackmlPanel.updateFlag
  split <;> simp [*]

theorem updateFlag_red (state : State) :
    (panel.updateFlag msg state).red = Function.update panel.red state (msg.flag state) := by
  unfold PackmlPanel.updateFlag
  split <;> simp [*]

/-- Flags that are updated one after the other. -/
theorem foldl_updateFlag (states : List State) :
    (∀ cmd, (states.foldl (fun panel state ↦ panel.updateFlag msg state) panel).enabled cmd =
        (panel.enabled cmd ||
          states.any fun state ↦ msg.flag state && decide (cmd ∈ state.buttons))) ∧
      ∀ other, (states.foldl (fun panel state ↦ panel.updateFlag msg state) panel).red other =
        if other ∈ states then msg.flag other else panel.red other := by
  induction states generalizing panel with
  | nil => simp
  | cons state states ih =>
    obtain ⟨henabled, hred⟩ := ih (panel.updateFlag msg state)
    refine ⟨fun cmd ↦ ?_, fun other ↦ ?_⟩
    · rw [List.foldl_cons, henabled, updateFlag_enabled, List.any_cons, Bool.or_assoc]
    · rw [List.foldl_cons, hred, updateFlag_red]
      by_cases hother : other = state
      · subst hother
        simp
      · simp [hother]

theorem update_enabled (cmd : TransitionCmd) :
    (panel.update msg).enabled cmd =
      flagOrder.any fun state ↦ msg.flag state && decide (cmd ∈ state.buttons) :=
  ((foldl_updateFlag panel.disableAllButtons msg flagOrder).1 cmd).trans (Bool.false_or _)

theorem update_red {state : State} (hstate : state ≠ .undefined) :
    (panel.update msg).red state = msg.flag state :=
  ((foldl_updateFlag panel.disableAllButtons msg flagOrder).2 state).trans
    (if_pos (mem_flagOrder hstate))

/-- An answer of `statusRequest` makes the panel show the state of the machine. -/
theorem shows_update {times : State → ℚ} {state : State} (hstate : state ≠ .undefined) :
    (panel.update (statusRequest times state).2).Shows state := by
  refine ⟨fun other hother ↦ ?_, fun cmd ↦ ?_⟩
  · rw [update_red panel _ hother]
    simp [statusRequest, hother]
  · rw [update_enabled, ← mem_buttons_iff, Bool.eq_iff_iff]
    simp only [statusRequest, List.any_eq_true, Bool.and_eq_true, decide_eq_true_eq]
    constructor
    · rintro ⟨found, -, ⟨rfl, -⟩, hcmd⟩
      exact hcmd
    · intro hcmd
      exact ⟨state, mem_flagOrder hstate, ⟨rfl, hstate⟩, hcmd⟩

/-- An answer without flags makes the panel blank. -/
theorem isBlank_update (hflag : ∀ state, msg.flag state = false) : (panel.update msg).IsBlank := by
  refine ⟨fun state hstate ↦ ?_, fun cmd ↦ ?_⟩
  · rw [update_red panel msg hstate, hflag]
  · rw [update_enabled]
    simp [hflag]

end

end PackML
