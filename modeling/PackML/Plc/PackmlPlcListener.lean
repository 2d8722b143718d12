import PackML.Library.BinaryRounding
import PackML.Library.FlagReadings
import PackML.Library.TransitionSystem
import PackML.Machine.Common
import Mathlib.Data.Rat.Floor

/-!
# The listener to a PLC

`plc_listener` reads the flags of the states of a PLC one after the other into the list `newvals`,
and adds 0.1 to the time of every state whose flag it has seen set, sweep after sweep. On another
thread `send_data` answers `allStatus` with the flags in `newvals` and with the times, one after the
other as well. The PLC changes its flags whenever it likes, and `newvals` may be replaced while an
answer is put together.

The history of the flags, the moments of the readings, the moment at which a sweep began and the
number of sweeps are records that the code does not have. The history begins with flags that are not
set, which `newvals` holds before the first sweep.

Each step has its specification (`PlcListener.loop_spec` to `PlcListener.answer_spec`).
-/

set_option autoImplicit false
set_option relaxedAutoImplicit false

namespace PackML

open BinaryRounding FlagReadings

/-- The order of the states in `newvals` and in the assignments of `send_data`. -/
def listedStates : List State :=
  [.stopped, .idle, .starting, .execute, .completing, .complete, .clearing, .suspended, .aborting,
    .aborted, .holding, .held, .unholding, .suspending, .unsuspending, .resetting, .stopping]

/-- Where `plc_listener` is: about to evaluate `not e.isSet()`, in its reads, with those of this
sweep and the moment at which it began, in the statements that count, with the number of those done,
or at its end. -/
inductive ListenerStage
  | looping
  | reading (since : ℕ) (values : List (Reading State))
  | counting (index : ℕ)
  | ended

/-- What `send_data` has assigned to its response, with the moment at which the sweep began that was
over last when it was called. -/
structure SendData where
  since : ℕ
  flags : List (Reading State)
  times : List ℚ

/-- The PLC, the listener and the service. -/
structure PlcListener where
  history : List (State → Bool)
  event : Bool
  stage : ListenerStage
  newvals : List (Reading State)
  newvalsSince : ℕ
  time : State → ℚ
  sweeps : ℕ
  answering : Option SendData
  responses : List SendData

/-- The PLC writes its flags and the event is set; the listener evaluates its loop condition, reads
the next flag, fails to, replaces `newvals`, counts the next flag or ends a sweep; `send_data` is
called, assigns the next flag or time, and returns. -/
inductive ListenerAction
  | plcWrites (flags : State → Bool)
  | setEvent
  | loop
  | getValue
  | getValueFails
  | assignNewvals
  | count
  | request
  | assignFlag
  | assignTime
  | answer

/-- `t = t + 0.1`. -/
def addTenth (t : ℚ) : ℚ :=
  roundTo 53 (t + roundTo 53 (1 / 10))

namespace PlcListener

/-- Before the first sweep, with a PLC that shows these flags. -/
def start (flags : State → Bool) : PlcListener where
  history := [fun _ ↦ false, flags]
  event := false
  stage := .looping
  newvals := listedStates.map fun state ↦ ⟨state, false, 0⟩
  newvalsSince := 0
  time _ := 0
  sweeps := 0
  answering := none
  responses := []

variable (s : PlcListener)

/-- The index of the flags that the PLC shows. -/
def now : ℕ := s.history.length - 1

/-- `while not e.isSet()`. -/
def loop : Option PlcListener :=
  match s.stage with
  | .looping => some { s with stage := if s.event then .ended else .reading s.now [] }
  | _ => none

/-- The next `get_value()` in the list that becomes `newvals`. -/
def getValue : Option PlcListener :=
  match s.stage with
  | .reading since values =>
    match listedStates[values.length]?, s.history[s.now]? with
    | some state, some flags =>
      some { s with stage := .reading since (values ++ [⟨state, flags state, s.now⟩]) }
    | _, _ => none
  | _ => none

/-- `get_value()` raises an exception, which nothing in the thread catches. -/
def getValueFails : Option PlcListener :=
  match s.stage with
  | .reading _ _ => some { s with stage := .ended }
  | _ => none

/-- `newvals` is replaced by the list when it is complete. -/
def assignNewvals : Option PlcListener :=
  match s.stage with
  | .reading since values =>
    if values.length = listedStates.length then
      some { s with
        newvals := values
        newvalsSince := since
        sweeps := s.sweeps + 1
        stage := .counting 0 }
    else none
  | _ => none

/-- `if newvals[index]:` for the next index, or the end of the body of the loop. -/
def count : Option PlcListener :=
  match s.stage with
  | .counting index =>
    match listedStates[index]?, s.newvals[index]? with
    | some state, some reading =>
      some { s with
        time := if reading.value then Function.update s.time state (addTenth (s.time state))
          else s.time
        stage := .counting (index + 1) }
    | _, _ => some { s with stage := .looping }
  | _ => none

/-- `send_data` is called. -/
def request : Option PlcListener :=
  match s.answering with
  | none => some { s with answering := some ⟨s.newvalsSince, [], []⟩ }
  | some _ => none

/-- `res.…_state = newvals[…]`, for the next state. -/
def assignFlag : Option PlcListener :=
  match s.answering with
  | some res =>
    match s.newvals[res.flags.length]? with
    | some reading => some { s with answering := some { res with flags := res.flags ++ [reading] } }
    | none => none
  | none => none

/-- `res.t_…_state = time_…`, for the next state. -/
def assignTime : Option PlcListener :=
  match s.answering with
  | some res =>
    if res.flags.length = listedStates.length then
      listedStates[res.times.length]?.map fun state ↦
        { s with answering := some { res with times := res.times ++ [s.time state] } }
    else none
  | none => none

/-- `return res`. -/
def answer : Option PlcListener :=
  match s.answering with
  | some res =>
    if res.times.length = listedStates.length then
      some { s with answering := none, responses := s.responses ++ [res] }
    else none
  | none => none

end PlcListener

/-- The runs of a listener and its service. -/
def plcListener : TransitionSystem PlcListener ListenerAction where
  initial s := ∃ flags, s = .start flags
  next s
    | .plcWrites flags => some { s with history := s.history ++ [flags] }
    | .setEvent => some { s with event := true }
    | .loop => s.loop
    | .getValue => s.getValue
    | .getValueFails => s.getValueFails
    | .assignNewvals => s.assignNewvals
    | .count => s.count
    | .request => s.request
    | .assignFlag => s.assignFlag
    | .assignTime => s.assignTime
    | .answer => s.answer

/-! ### What each step does -/

namespace PlcListener

variable {s t : PlcListener}

theorem loop_spec (hnext : s.loop = some t) :
    s.stage = .looping ∧
      t = { s with stage := if s.event then .ended else .reading s.now [] } := by
  unfold PlcListener.loop at hnext
  split at hnext
  · exact ⟨‹_›, (Option.some.inj hnext).symm⟩
  · cases hnext

theorem getValue_spec (hnext : s.getValue = some t) :
    ∃ since values state flags, s.stage = .reading since values ∧
      listedStates[values.length]? = some state ∧ s.history[s.now]? = some flags ∧
        t = { s with stage := .reading since (values ++ [⟨state, flags state, s.now⟩]) } := by
  unfold PlcListener.getValue at hnext
  split at hnext
  · rename_i since values hstage
    split at hnext
    · rename_i state flags hstate hflags
      exact ⟨since, values, state, flags, hstage, hstate, hflags, (Option.some.inj hnext).symm⟩
    · cases hnext
  · cases hnext

theorem getValueFails_spec (hnext : s.getValueFails = some t) :
    ∃ since values, s.stage = .reading since values ∧ t = { s with stage := .ended } := by
  unfold PlcListener.getValueFails at hnext
  split at hnext
  · exact ⟨_, _, ‹_›, (Option.some.inj hnext).symm⟩
  · cases hnext

theorem assignNewvals_spec (hnext : s.assignNewvals = some t) :
    ∃ since values, s.stage = .reading since values ∧ values.length = listedStates.length ∧
      t = { s with
        newvals := values
        newvalsSince := since
        sweeps := s.sweeps + 1
        stage := .counting 0 } := by
  unfold PlcListener.assignNewvals at hnext
  split at hnext
  · rename_i since values hstage
    obtain ⟨hlength, hnext⟩ := Option.ite_none_right_eq_some.mp hnext
    exact ⟨since, values, hstage, hlength, (Option.some.inj hnext).symm⟩
  · cases hnext

theorem count_spec (hnext : s.count = some t) :
    ∃ index, s.stage = .counting index ∧
      ((∃ state reading, listedStates[index]? = some state ∧ s.newvals[index]? = some reading ∧
          t = { s with
            time := if reading.value then
              Function.update s.time state (addTenth (s.time state)) else s.time
            stage := .counting (index + 1) }) ∨
        ((listedStates[index]? = none ∨ s.newvals[index]? = none) ∧
          t = { s with stage := .looping })) := by
  unfold PlcListener.count at hnext
  split at hnext
  · rename_i index hstage
    refine ⟨index, hstage, ?_⟩
    cases hstate : listedStates[index]? with
    | none =>
      rw [hstate] at hnext
      exact Or.inr ⟨Or.inl rfl, (Option.some.inj hnext).symm⟩
    | some state =>
      cases hreading : s.newvals[index]? with
      | none =>
        rw [hstate, hreading] at hnext
        exact Or.inr ⟨Or.inr rfl, (Option.some.inj hnext).symm⟩
      | some reading =>
        rw [hstate, hreading] at hnext
        exact Or.inl ⟨state, reading, rfl, rfl, (Option.some.inj hnext).symm⟩
  · cases hnext

theorem request_spec (hnext : s.request = some t) :
    s.answering = none ∧ t = { s with answering := some ⟨s.newvalsSince, [], []⟩ } := by
  unfold PlcListener.request at hnext
  split at hnext
  · exact ⟨‹_›, (Option.some.inj hnext).symm⟩
  · cases hnext

theorem assignFlag_spec (hnext : s.assignFlag = some t) :
    ∃ res reading, s.answering = some res ∧ s.newvals[res.flags.length]? = some reading ∧
      t = { s with answering := some { res with flags := res.flags ++ [reading] } } := by
  unfold PlcListener.assignFlag at hnext
  split at hnext
  · rename_i res hres
    split at hnext
    · exact ⟨res, _, hres, ‹_›, (Option.some.inj hnext).symm⟩
    · cases hnext
  · cases hnext

theorem assignTime_spec (hnext : s.assignTime = some t) :
    ∃ res state, s.answering = some res ∧ res.flags.length = listedStates.length ∧
      listedStates[res.times.length]? = some state ∧
        t = { s with answering := some { res with times := res.times ++ [s.time state] } } := by
  unfold PlcListener.assignTime at hnext
  split at hnext
  · rename_i res hres
    obtain ⟨hlength, hnext⟩ := Option.ite_none_right_eq_some.mp hnext
    obtain ⟨state, hstate, rfl⟩ := Option.map_eq_some_iff.mp hnext
    exact ⟨res, state, hres, hlength, hstate, rfl⟩
  · cases hnext

theorem answer_spec (hnext : s.answer = some t) :
    ∃ res, s.answering = some res ∧ res.times.length = listedStates.length ∧
      t = { s with answering := none, responses := s.responses ++ [res] } := by
  unfold PlcListener.answer at hnext
  split at hnext
  · rename_i res hres
    obtain ⟨hlength, hnext⟩ := Option.ite_none_right_eq_some.mp hnext
    exact ⟨res, hres, hlength, (Option.some.inj hnext).symm⟩
  · cases hnext

end PlcListener

end PackML
