import Mathlib.Logic.Function.Basic
import Mathlib.Tactic.SplitIfs

/-!
# The enumerations of `common.hpp`

`SuperState`, `State` and `TransitionCmd` are closed enumerations. `ModeType` is not: the services
cast an arbitrary message value to it, so a mode is its underlying value, with names for the four
enumerators. Every value has a non-empty name (`ModeType.toString_ne_empty`), which is what the
mode switcher relies on when it takes an empty name for a machine without a mode.
-/

set_option autoImplicit false
set_option relaxedAutoImplicit false

namespace PackML

/-- The super states that encapsulate several states with a common transition. -/
inductive SuperState
  | abortable | stoppable
  deriving DecidableEq, Repr

def SuperState.toString : SuperState → String
  | .abortable => "ABORTABLE"
  | .stoppable => "STOPPABLE"

/-- The PackML states; `undefined` is the state value of the super states. -/
inductive State
  | undefined | clearing | stopped | starting | idle | suspended | execute | stopping | aborting
  | aborted | holding | held | unholding | suspending | unsuspending | resetting | completing
  | complete
  deriving DecidableEq, Repr

def State.toString : State → String
  | .undefined => "UNDEFINED"
  | .clearing => "CLEARING"
  | .stopped => "STOPPED"
  | .starting => "STARTING"
  | .idle => "IDLE"
  | .suspended => "SUSPENDED"
  | .execute => "EXECUTE"
  | .stopping => "STOPPING"
  | .aborting => "ABORTING"
  | .aborted => "ABORTED"
  | .holding => "HOLDING"
  | .held => "HELD"
  | .unholding => "UNHOLDING"
  | .suspending => "SUSPENDING"
  | .unsuspending => "UNSUSPENDING"
  | .resetting => "RESETTING"
  | .completing => "COMPLETING"
  | .complete => "COMPLETE"

/-- A mode, by its underlying value. -/
structure ModeType where
  val : Int
  deriving DecidableEq, Repr

namespace ModeType

def undefined : ModeType := ⟨0⟩

def production : ModeType := ⟨1⟩

def maintenance : ModeType := ⟨2⟩

def manual : ModeType := ⟨3⟩

def toString (mode : ModeType) : String :=
  if mode = undefined then "UNDEFINED"
  else if mode = production then "PRODUCTION"
  else if mode = maintenance then "MAINTENANCE"
  else if mode = manual then "MANUAL"
  else if manual.val < mode.val then "USER_DEFINED"
  else ToString.toString mode.val

/-- Every mode has a non-empty name, also the values that are not enumerators. -/
theorem toString_ne_empty (mode : ModeType) : mode.toString ≠ "" := by
  obtain ⟨val⟩ := mode
  unfold toString
  split_ifs
  any_goals decide
  cases val with
  | ofNat val =>
    simp only [undefined, production, maintenance, manual, mk.injEq, Int.ofNat_eq_natCast] at *
    omega
  | negSucc val => simp [ToString.toString, Int.repr]

end ModeType

/-- The commands of `Transition.srv`. -/
inductive TransitionCmd
  | noCommand | reset | start | stop | hold | unhold | suspend | unsuspend | abort | clear
  deriving DecidableEq, Repr

def TransitionCmd.toString : TransitionCmd → String
  | .noCommand => "NO_COMMAND"
  | .reset => "RESET"
  | .start => "START"
  | .stop => "STOP"
  | .hold => "HOLD"
  | .unhold => "UNHOLD"
  | .suspend => "SUSPEND"
  | .unsuspend => "UNSUSPEND"
  | .abort => "ABORT"
  | .clear => "CLEAR"

end PackML
