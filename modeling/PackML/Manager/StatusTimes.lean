import PackML.Library.BinaryRounding
import PackML.Machine.Common
import Mathlib.Data.Rat.Floor

/-!
# The times in the answers of ~/allStatus

`SMNode` counts the requests to `~/allStatus` that find the machine in each state: `statusRequest`
sets the flag of the state and adds 0.2 to its time. The times are `float` and 0.2 is a `double`, so
that each addition is rounded twice (`addTwoTenths`). The numbers here are far from the ends of the
exponent ranges of both formats, which `roundTo` does not have.

From 2 ^ 22 on the rounding takes back what is added. `status_times` says that a time grows with its
requests until then, by a sixteenth at least, and stands still afterwards.
-/

set_option autoImplicit false
set_option relaxedAutoImplicit false

namespace PackML

open BinaryRounding

/-! ### The service -/

/-- `packml_msgs::srv::AllStatus::Response`: a flag and a time for each state but UNDEFINED. -/
structure AllStatusResponse where
  flag : State → Bool
  time : State → ℚ

/-- The literal `0.2`. -/
def twoTenths : ℚ :=
  roundTo 53 (1 / 5)

/-- `t = t + 0.2` on a `float`: the sum is a `double`. -/
def addTwoTenths (t : ℚ) : ℚ :=
  roundTo 24 (roundTo 53 (t + twoTenths))

/-- The new times and the response of `statusRequest`. -/
def statusRequest (times : State → ℚ) (currState : State) : (State → ℚ) × AllStatusResponse :=
  let times := if currState = .undefined then times
    else Function.update times currState (addTwoTenths (times currState))
  (times, { flag := fun state ↦ decide (state = currState ∧ state ≠ .undefined), time := times })

/-- `on_all_status` of the manager interface, which leaves the response as it was created. -/
def onAllStatus : AllStatusResponse where
  flag _ := false
  time _ := 0

/-- The times after requests that found the machine in these states. -/
def timesAfter (states : List State) : State → ℚ :=
  states.foldl (fun times state ↦ (statusRequest times state).1) fun _ ↦ 0

/-! ### The addition -/

theorem twoTenths_bounds : 25 / 128 ≤ twoTenths ∧ twoTenths ≤ 1 / 4 := by
  have herror := abs_le.mp (abs_sub_roundTo_le 53 (1 / 5 : ℚ))
  have hquantum : quantum 53 (1 / 5 : ℚ) ≤ 2 ^ ((-2 : ℤ) - (53 : ℕ)) :=
    quantum_le (-2) (by norm_num) (by norm_num)
  norm_num at hquantum
  unfold twoTenths
  constructor <;> linarith

variable {t : ℚ}

/-- The sum of a time and 0.2 as a `double`, below 2 ^ 22. -/
theorem double_sum (hnonneg : 0 ≤ t) (hsum : roundTo 53 (t + twoTenths) < 2 ^ 22) :
    t + 12 / 64 ≤ roundTo 53 (t + twoTenths) := by
  obtain ⟨hlow, hhigh⟩ := twoTenths_bounds
  have hbelow : t + twoTenths < 2 ^ 22 := by
    by_contra hge
    exact hsum.not_ge (zpow_le_roundTo_of_le (by norm_num) 22 (not_lt.mp hge))
  have hquantum : quantum 53 (t + twoTenths) ≤ 2 ^ ((22 : ℤ) - (53 : ℕ)) :=
    quantum_le 22 (by linarith) (by exact_mod_cast hbelow)
  have herror := abs_le.mp (abs_sub_roundTo_le 53 (t + twoTenths))
  norm_num at hquantum
  linarith

/-- Adding 0.2 adds a sixteenth at least, up to 2 ^ 22. -/
theorem le_addTwoTenths (hnonneg : 0 ≤ t) : min (2 ^ 22) (t + 1 / 16) ≤ addTwoTenths t := by
  by_cases hsum : roundTo 53 (t + twoTenths) < 2 ^ 22
  · have hdouble := double_sum hnonneg hsum
    have hquantum : quantum 24 (roundTo 53 (t + twoTenths)) ≤ 2 ^ ((22 : ℤ) - (24 : ℕ)) :=
      quantum_le 22 (by linarith) (by exact_mod_cast hsum)
    have herror := abs_le.mp (abs_sub_roundTo_le 24 (roundTo 53 (t + twoTenths)))
    norm_num at hquantum
    refine min_le_of_right_le ?_
    rw [addTwoTenths]
    linarith
  · exact min_le_of_left_le (zpow_le_roundTo_of_le (by norm_num) 22 (not_lt.mp hsum))

/-- Adding 0.2 does not lead beyond 2 ^ 22. -/
theorem addTwoTenths_le (hnonneg : 0 ≤ t) (hle : t ≤ 2 ^ 22) : addTwoTenths t ≤ 2 ^ 22 := by
  obtain ⟨hlow, hhigh⟩ := twoTenths_bounds
  have hdouble : quantum 53 (2 ^ 22 + 1 / 4 : ℚ) = 1 / 2 ^ 30 :=
    (quantum_eq 22 (by norm_num) (by norm_num)).trans (by norm_num)
  have hfloat : quantum 24 (2 ^ 22 + 1 / 4 : ℚ) = 1 / 2 :=
    (quantum_eq 22 (by norm_num) (by norm_num)).trans (by norm_num)
  have hsum : roundTo 53 (t + twoTenths) ≤ 2 ^ 22 + 1 / 4 := by
    calc roundTo 53 (t + twoTenths) ≤ roundTo 53 (2 ^ 22 + 1 / 4) :=
          roundTo_mono (by norm_num) (by linarith) (by linarith)
      _ = 2 ^ 22 + 1 / 4 := by
          refine roundTo_eq_self (n := 2 ^ 52 + 2 ^ 28) ?_
          rw [hdouble]
          norm_num
  have hpos : 0 < roundTo 53 (t + twoTenths) :=
    (zpow_pos two_pos _).trans_le (zpow_le_roundTo (by norm_num) (by linarith))
  -- the bound on the sum is a tie, and 2 ^ 22 is an even number of halves
  have htie : nearestEven (((2 ^ 23 : ℤ) : ℚ) + 1 / 2) = 2 ^ 23 :=
    nearestEven_add_half (by decide)
  have hscaled : (2 ^ 22 + 1 / 4 : ℚ) / (1 / 2) = ((2 ^ 23 : ℤ) : ℚ) + 1 / 2 := by norm_num
  calc addTwoTenths t ≤ roundTo 24 (2 ^ 22 + 1 / 4) := roundTo_mono (by norm_num) hpos hsum
    _ = 2 ^ 22 := by
        rw [roundTo, hfloat, hscaled, htie]
        norm_num

/-! ### The times -/

variable {states : List State} {state : State}

theorem timesAfter_concat (states : List State) (found : State) :
    timesAfter (states ++ [found]) = (statusRequest (timesAfter states) found).1 := by
  simp [timesAfter]

/-- An answer carries the times that have been counted, its own request included. -/
theorem statusRequest_response (states : List State) (found : State) :
    (statusRequest (timesAfter states) found).2.time = timesAfter (states ++ [found]) :=
  (timesAfter_concat states found).symm

/-- A request counts for the state in which it finds the machine. -/
theorem statusRequest_time (times : State → ℚ) {found : State} (hstate : state ≠ .undefined) :
    (statusRequest times found).1 state =
      if found = state then addTwoTenths (times state) else times state := by
  by_cases hfound : found = state
  · subst hfound
    simp [statusRequest, hstate]
  · by_cases hundefined : found = .undefined
    · simp [statusRequest, hundefined, hstate.symm]
    · simp [statusRequest, hundefined, hfound, Ne.symm hfound]

/-- Every request for a state adds a sixteenth at least until 2 ^ 22 is reached. -/
theorem timesAfter_bounds (states : List State) (hstate : state ≠ .undefined) :
    min (2 ^ 22) ((states.count state : ℚ) / 16) ≤ timesAfter states state ∧
      timesAfter states state ≤ 2 ^ 22 := by
  induction states using List.reverseRecOn with
  | nil => simp [timesAfter]
  | append_singleton states found ih =>
    obtain ⟨hcount, hle⟩ := ih
    have hnonneg : 0 ≤ timesAfter states state :=
      (le_min (by norm_num) (by positivity)).trans hcount
    rw [timesAfter_concat, statusRequest_time _ hstate]
    by_cases hfound : found = state
    · have hone : ((states ++ [found]).count state : ℚ) = states.count state + 1 := by
        simp [hfound]
      rw [if_pos hfound, hone]
      refine ⟨le_trans ?_ (le_addTwoTenths hnonneg), addTwoTenths_le hnonneg hle⟩
      rcases min_le_iff.mp hcount with hfull | hgrown
      · exact min_le_of_left_le (le_min le_rfl (by linarith))
      · exact min_le_min_left _ (by linarith)
    · have hsame : (states ++ [found]).count state = states.count state := by simp [hfound]
      rw [if_neg hfound, hsame]
      exact ⟨hcount, hle⟩

/-- No time falls. -/
theorem timesAfter_le (states more : List State) (hstate : state ≠ .undefined) :
    timesAfter states state ≤ timesAfter (states ++ more) state := by
  induction more using List.reverseRecOn with
  | nil => simp
  | append_singleton more found ih =>
    obtain ⟨hcount, hle⟩ := timesAfter_bounds (states ++ more) hstate
    have hnonneg : 0 ≤ timesAfter (states ++ more) state :=
      (le_min (by norm_num) (by positivity)).trans hcount
    refine ih.trans ?_
    rw [← List.append_assoc, timesAfter_concat, statusRequest_time _ hstate]
    split
    · exact (le_min hle (by linarith)).trans (le_addTwoTenths hnonneg)
    · exact le_rfl

/-- In the answer of `statusRequest` to the last of any requests, the time of a state is a sixteenth
of its requests or more, or 2 ^ 22, which it never exceeds; in later answers it is never less, and
it stands still at 2 ^ 22 after 2 ^ 26 of its requests. -/
theorem status_times (states more : List State) (found later : State)
    (hstate : state ≠ .undefined) :
    min (2 ^ 22) (((states ++ [found]).count state : ℚ) / 16) ≤
        (statusRequest (timesAfter states) found).2.time state ∧
      (statusRequest (timesAfter states) found).2.time state ≤
        (statusRequest (timesAfter (states ++ [found] ++ more)) later).2.time state ∧
      (statusRequest (timesAfter (states ++ [found] ++ more)) later).2.time state ≤ 2 ^ 22 ∧
      (2 ^ 26 ≤ (states ++ [found]).count state →
        (statusRequest (timesAfter (states ++ [found] ++ more)) later).2.time state = 2 ^ 22) := by
  rw [statusRequest_response, statusRequest_response, List.append_assoc (states ++ [found])]
  obtain ⟨hcount, -⟩ := timesAfter_bounds (states ++ [found]) hstate
  have hgrows := timesAfter_le (states ++ [found]) (more ++ [later]) hstate
  obtain ⟨-, hle⟩ := timesAfter_bounds (states ++ [found] ++ (more ++ [later])) hstate
  refine ⟨hcount, hgrows, hle, fun hmany ↦ le_antisymm hle (le_trans ?_ (hcount.trans hgrows))⟩
  have hmany : (2 ^ 26 : ℚ) ≤ (states ++ [found]).count state := by exact_mod_cast hmany
  exact le_min le_rfl (by linarith)

theorem status_times_idle :
    1 / 8 ≤ (statusRequest (timesAfter [.idle, .execute]) .idle).2.time .idle ∧
      (statusRequest (timesAfter [.idle, .execute, .idle]) .stopped).2.time .idle ≤ 2 ^ 22 := by
  obtain ⟨hcount, -, hle, -⟩ := status_times [.idle, .execute] [] .idle .stopped
    (show State.idle ≠ .undefined by decide)
  have htwice : ([.idle, .execute] ++ [.idle] : List State).count .idle = 2 := rfl
  rw [htwice] at hcount
  exact ⟨le_trans (le_min (by norm_num) (by norm_num)) hcount, hle⟩

end PackML
