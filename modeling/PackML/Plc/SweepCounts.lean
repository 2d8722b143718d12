import PackML.Plc.AnswersInOrder
import Mathlib.Algebra.BigOperators.Field
import Mathlib.Algebra.Order.BigOperators.Ring.Finset

/-!
# The times of the listener

A sweep counts for every state that it sees set. A sweep during which the PLC does not change counts
for one state; one during which it changes may count for none, or for one more than there were
changes (`ReadInTurn.length_shown_le`). So the times together are a tenth of the number of sweeps,
up to a tenth for every change of the PLC and the rounding of the additions (`times_near_sweeps`).

The induction carries `Tally`: how often each state was counted, and that these numbers together
with the flags of the last sweep that are still to be counted are near the number of sweeps.
-/

set_option autoImplicit false
set_option relaxedAutoImplicit false

namespace PackML

open BinaryRounding FlagReadings

/-! ### The rounding -/

/-- After a number of additions, fewer than 2 ^ 49, the time is near their tenth. -/
theorem abs_addTenth_iterate_le {n : ℕ} (hn : n ≤ 2 ^ 49) :
    |addTenth^[n] 0 - n / 10| ≤ (n : ℚ) ^ 2 / 2 ^ 53 := by
  induction n with
  | zero => simp
  | succ n ih =>
    have hbefore := abs_le.mp (ih (Nat.le_of_succ_le hn))
    have hn : (n : ℚ) + 1 ≤ 2 ^ 49 := by exact_mod_cast hn
    have hnonneg : (0 : ℚ) ≤ n := n.cast_nonneg
    have htenth := abs_le.mp (abs_sub_roundTo_le_div 53 (show (0 : ℚ) < 1 / 10 by norm_num))
    rw [Function.iterate_succ_apply', addTenth]
    set t := addTenth^[n] 0
    set tenth := roundTo 53 (1 / 10 : ℚ)
    have hsquare : (n : ℚ) ^ 2 / 2 ^ 53 ≤ n / 16 := by
      rw [div_le_div_iff₀ (by norm_num) (by norm_num)]
      nlinarith
    have hpos : 0 < t + tenth := by linarith
    have hle : t + tenth ≤ (n + 1) / 4 := by linarith
    have hround := abs_le.mp (abs_sub_roundTo_le_div 53 hpos)
    have hgrown : ((n + 1 : ℕ) : ℚ) ^ 2 / 2 ^ 53 = n ^ 2 / 2 ^ 53 + (2 * n + 1) / 2 ^ 53 := by
      push_cast
      ring
    rw [hgrown, abs_le]
    push_cast
    constructor <;> linarith

/-! ### One sweep -/

/-- The PLC has been in one of the listed states, and shown it, ever since the start. -/
def InListedState (history : List (State → Bool)) : Prop :=
  ∀ flags ∈ history.tail, ∃ state ∈ listedStates, flags = stateFlags state

/-- The flags that a sweep sees set are one, up to the changes of the PLC since it began. -/
theorem length_shown_sweep {history : List (State → Bool)} {newvals reads : List (Reading State)}
    {newvalsSince start : ℕ} (hs : Sweeping history newvals reads newvalsSince start)
    (hlength : reads.length = listedStates.length) (hplc : InListedState history)
    (hstart : 1 ≤ start) :
    (shown reads).length ≤ 1 + (history.length - 1 - start) ∧
      1 ≤ (shown reads).length + (history.length - 1 - start) := by
  have hcells : reads.map (·.cell) = listedStates := by
    rw [hs.reads_cells, hlength, List.take_length]
  have hlater : (history.drop start).Sublist history.tail := by
    rw [← List.drop_one]
    exact List.drop_sublist_drop_left _ hstart
  have hlt := hs.start_lt
  constructor
  · have hle := hs.reads_read.length_shown_le (hcells ▸ by decide) (fun flags hflags ↦ ?_)
      hs.reads_since
    · omega
    · obtain ⟨state, -, rfl⟩ := hplc flags (hlater.subset hflags)
      exact atMostOne_stateFlags state
  · by_cases hsame : start = history.length - 1
    · obtain ⟨flags, hflags⟩ : ∃ flags, history[start]? = some flags :=
        ⟨_, List.getElem?_eq_getElem hlt⟩
      have hmem : flags ∈ history.drop start := by
        rw [← List.head?_drop] at hflags
        exact List.mem_of_mem_head? hflags
      obtain ⟨state, hstate, rfl⟩ := hplc flags (hlater.subset hmem)
      have hshown := hs.reads_read.shown_of_unchanged hflags fun reading hreading ↦
        le_antisymm (hsame ▸ Nat.le_sub_one_of_lt (hs.reads_read.moment_lt hreading))
          (hs.reads_since reading hreading)
      have hset : state ∈ shown reads := by
        rw [hshown, hcells]
        exact List.mem_filter.mpr ⟨hstate, decide_eq_true rfl⟩
      exact Nat.le_add_right_of_le (List.length_pos_of_mem hset)
    · omega

/-! ### All sweeps -/

/-- How often the states were counted together. -/
def total (counted : State → ℕ) : ℕ :=
  ∑ state ∈ listedStates.toFinset, counted state

theorem total_update {state : State} (hstate : state ∈ listedStates) (counted : State → ℕ) :
    total (Function.update counted state (counted state + 1)) = total counted + 1 := by
  have hmem : state ∈ listedStates.toFinset := List.mem_toFinset.mpr hstate
  rw [total, total, Finset.sum_update_of_mem hmem, ← Finset.add_sum_erase _ _ hmem,
    Finset.sdiff_singleton_eq_erase]
  omega

namespace PlcListener

variable (s : PlcListener)

/-- The flags of the last sweep that are set and have not been counted. -/
def pending : ℕ :=
  match s.stage with
  | .counting index => (shown (s.newvals.drop index)).length
  | _ => 0

variable {s} in
theorem pending_of_counting {index : ℕ} (hstage : s.stage = .counting index) :
    s.pending = (shown (s.newvals.drop index)).length := by
  rw [pending, hstage]

/-- How often the PLC has written its flags. -/
def changes : ℕ := s.history.length - 2

end PlcListener

/-- How often each state was counted; the flags counted and those to be counted are as many as the
sweeps, up to the changes of the PLC before the sweep under way. -/
structure Tally (time : State → ℚ) (sweeps pending start : ℕ) (counted : State → ℕ) : Prop where
  time : ∀ state, time state = addTenth^[counted state] 0
  upper : total counted + pending ≤ sweeps + (start - 1)
  lower : sweeps ≤ total counted + pending + (start - 1)
  begun : 1 ≤ start

section Steps

variable {s t : PlcListener} {time : State → ℚ} {sweeps pending start start' : ℕ}
  {counted : State → ℕ}

theorem Tally.mono (hcounted : Tally time sweeps pending start counted) (hstart : start ≤ start') :
    Tally time sweeps pending start' counted where
  time := hcounted.time
  upper := hcounted.upper.trans (by omega)
  lower := hcounted.lower.trans (by omega)
  begun := hcounted.begun.trans hstart

/-- A state is counted whose flag was to be counted. -/
theorem Tally.count (hcounted : Tally time sweeps (pending + 1) start counted) {state : State}
    (hstate : state ∈ listedStates) :
    Tally (Function.update time state (addTenth (time state))) sweeps pending start
      (Function.update counted state (counted state + 1)) where
  time other := by
    by_cases hother : other = state
    · subst hother
      simp [hcounted.time, Function.iterate_succ_apply']
    · simp [hcounted.time, Function.update_of_ne hother]
  upper := by
    have hupper := hcounted.upper
    rw [total_update hstate]
    omega
  lower := by
    have hlower := hcounted.lower
    rw [total_update hstate]
    omega
  begun := hcounted.begun

/-- A sweep is over, whose flags are one up to the changes since it began. -/
theorem Tally.sweep (hcounted : Tally time sweeps 0 start counted) (hstart : start ≤ start')
    (hshown : pending ≤ 1 + (start' - start) ∧ 1 ≤ pending + (start' - start)) :
    Tally time (sweeps + 1) pending start' counted where
  time := hcounted.time
  upper := by
    have hupper := hcounted.upper
    have hbegun := hcounted.begun
    omega
  lower := by
    have hlower := hcounted.lower
    have hbegun := hcounted.begun
    omega
  begun := hcounted.begun.trans hstart

/-- The listener evaluates an `if` or ends the body of its loop. -/
theorem tally_count (hs : InTurn s) (hnext : s.count = some t)
    (hcounted : Tally s.time s.sweeps s.pending s.sweepStart counted) :
    ∃ counted', Tally t.time t.sweeps t.pending t.sweepStart counted' := by
  obtain ⟨index, hstage, ⟨state, reading, hstate, hreading, rfl⟩ | ⟨hnone, rfl⟩⟩ :=
    PlcListener.count_spec hnext
  · obtain ⟨hlt, hget⟩ := List.getElem?_eq_some_iff.mp hreading
    rw [PlcListener.pending_of_counting hstage, PlcListener.sweepStart_of_counting hstage,
      List.drop_eq_getElem_cons hlt, hget, shown_cons] at hcounted
    cases hvalue : reading.value with
    | true =>
      rw [hvalue, if_pos rfl, List.length_cons] at hcounted
      exact ⟨_, hcounted.count (List.mem_of_getElem? hstate)⟩
    | false =>
      rw [hvalue, if_neg Bool.false_ne_true] at hcounted
      exact ⟨counted, hcounted⟩
  · have hend : s.newvals.drop index = [] := by
      have hlength := congrArg List.length hs.sweeping.newvals_cells
      rw [List.length_map] at hlength
      rw [List.drop_eq_nil_iff]
      rcases hnone with hnone | hnone
      · exact hlength ▸ List.getElem?_eq_none_iff.mp hnone
      · exact List.getElem?_eq_none_iff.mp hnone
    rw [PlcListener.pending_of_counting hstage, PlcListener.sweepStart_of_counting hstage,
      hend] at hcounted
    exact ⟨counted, hcounted⟩

theorem tally_step (hs : InTurn s) (hplc : InListedState t.history) {action : ListenerAction}
    (hnext : plcListener.next s action = some t)
    (hcounted : Tally s.time s.sweeps s.pending s.sweepStart counted) :
    ∃ counted', Tally t.time t.sweeps t.pending t.sweepStart counted' := by
  cases action with
  | plcWrites flags =>
    obtain rfl := Option.some.inj hnext
    obtain ⟨history, event, stage, newvals, newvalsSince, time, sweeps, answering, responses⟩ := s
    cases stage with
    | reading since values => exact ⟨counted, hcounted⟩
    | looping | counting _ | ended =>
      refine ⟨counted, hcounted.mono ?_⟩
      show history.length - 1 ≤ (history ++ [flags]).length - 1
      rw [List.length_append]
      omega
  | loop =>
    obtain ⟨hstage, rfl⟩ := PlcListener.loop_spec hnext
    rw [PlcListener.pending, PlcListener.sweepStart, hstage] at hcounted
    cases hevent : s.event with
    | true => exact ⟨counted, hcounted⟩
    | false => exact ⟨counted, hcounted⟩
  | getValue =>
    obtain ⟨since, values, state, flags, hstage, -, -, rfl⟩ := PlcListener.getValue_spec hnext
    rw [PlcListener.pending, PlcListener.sweepStart, hstage] at hcounted
    exact ⟨counted, hcounted⟩
  | getValueFails =>
    obtain ⟨since, values, hstage, rfl⟩ := PlcListener.getValueFails_spec hnext
    have hstart := hs.sweeping.start_lt
    rw [PlcListener.sweepStart_of_reading hstage] at hstart
    rw [PlcListener.pending, PlcListener.sweepStart, hstage] at hcounted
    exact ⟨counted, hcounted.mono (Nat.le_sub_one_of_lt hstart)⟩
  | assignNewvals =>
    obtain ⟨since, values, hstage, hlength, rfl⟩ := PlcListener.assignNewvals_spec hnext
    have hsweeping := hs.sweeping
    rw [PlcListener.sweepStart_of_reading hstage, PlcListener.reads, hstage] at hsweeping
    rw [PlcListener.pending, PlcListener.sweepStart, hstage] at hcounted
    exact ⟨counted, hcounted.sweep (Nat.le_sub_one_of_lt hsweeping.start_lt)
      (length_shown_sweep hsweeping hlength hplc hcounted.begun)⟩
  | count => exact tally_count hs hnext hcounted
  | setEvent =>
    obtain rfl := Option.some.inj hnext
    exact ⟨counted, hcounted⟩
  | request =>
    obtain ⟨-, rfl⟩ := PlcListener.request_spec hnext
    exact ⟨counted, hcounted⟩
  | assignFlag =>
    obtain ⟨res, reading, -, -, rfl⟩ := PlcListener.assignFlag_spec hnext
    exact ⟨counted, hcounted⟩
  | assignTime =>
    obtain ⟨res, state, -, -, -, rfl⟩ := PlcListener.assignTime_spec hnext
    exact ⟨counted, hcounted⟩
  | answer =>
    obtain ⟨res, -, -, rfl⟩ := PlcListener.answer_spec hnext
    exact ⟨counted, hcounted⟩

/-- The history is never cut. -/
theorem history_step {action : ListenerAction} (hnext : plcListener.next s action = some t) :
    s.history.Sublist t.history := by
  cases action with
  | plcWrites flags =>
    obtain rfl := Option.some.inj hnext
    exact List.sublist_append_left _ _
  | setEvent =>
    obtain rfl := Option.some.inj hnext
    exact List.Sublist.refl _
  | loop =>
    obtain ⟨-, rfl⟩ := PlcListener.loop_spec hnext
    exact List.Sublist.refl _
  | getValue =>
    obtain ⟨since, values, state, flags, -, -, -, rfl⟩ := PlcListener.getValue_spec hnext
    exact List.Sublist.refl _
  | getValueFails =>
    obtain ⟨since, values, -, rfl⟩ := PlcListener.getValueFails_spec hnext
    exact List.Sublist.refl _
  | assignNewvals =>
    obtain ⟨since, values, -, -, rfl⟩ := PlcListener.assignNewvals_spec hnext
    exact List.Sublist.refl _
  | count =>
    obtain ⟨index, -, ⟨state, reading, -, -, rfl⟩ | ⟨-, rfl⟩⟩ := PlcListener.count_spec hnext
    · exact List.Sublist.refl _
    · exact List.Sublist.refl _
  | request =>
    obtain ⟨-, rfl⟩ := PlcListener.request_spec hnext
    exact List.Sublist.refl _
  | assignFlag =>
    obtain ⟨res, reading, -, -, rfl⟩ := PlcListener.assignFlag_spec hnext
    exact List.Sublist.refl _
  | assignTime =>
    obtain ⟨res, state, -, -, -, rfl⟩ := PlcListener.assignTime_spec hnext
    exact List.Sublist.refl _
  | answer =>
    obtain ⟨res, -, -, rfl⟩ := PlcListener.answer_spec hnext
    exact List.Sublist.refl _

/-- In every run, the numbers of times that the states were counted. -/
theorem exists_tally (hrun : plcListener.Reachable s) (hplc : InListedState s.history) :
    ∃ counted, Tally s.time s.sweeps s.pending s.sweepStart counted := by
  have hcounted : InListedState s.history →
      ∃ counted, Tally s.time s.sweeps s.pending s.sweepStart counted := by
    refine hrun.invariant_of_reachable (fun _ ↦ inTurn_of_reachable) ?_ ?_
    · rintro s ⟨flags, rfl⟩ -
      exact ⟨fun _ ↦ 0, fun _ ↦ rfl, le_rfl, le_rfl, le_rfl⟩
    · intro s action t hinTurn hs _ hnext hplc
      have hbefore : InListedState s.history := fun flags hflags ↦
        hplc flags ((history_step hnext).tail.subset hflags)
      obtain ⟨counted, hcounted⟩ := hs hbefore
      exact tally_step hinTurn hplc hnext hcounted
  exact hcounted hplc

/-- The times together are a tenth of the countings together, up to the rounding. -/
theorem abs_sum_time_sub_le (hcounted : Tally time sweeps pending start counted)
    (htotal : total counted ≤ 2 ^ 49) :
    |∑ state ∈ listedStates.toFinset, time state - (total counted : ℚ) / 10| ≤
      (total counted : ℚ) ^ 2 / 2 ^ 53 := by
  have hone : ∀ state ∈ listedStates.toFinset,
      |time state - (counted state : ℚ) / 10| ≤ (counted state : ℚ) ^ 2 / 2 ^ 53 := by
    intro state hstate
    rw [hcounted.time state]
    have hle : counted state ≤ total counted :=
      Finset.single_le_sum (fun _ _ ↦ Nat.zero_le _) hstate
    exact abs_addTenth_iterate_le (hle.trans htotal)
  have hsum : ∑ state ∈ listedStates.toFinset, time state - (total counted : ℚ) / 10 =
      ∑ state ∈ listedStates.toFinset, (time state - (counted state : ℚ) / 10) := by
    rw [Finset.sum_sub_distrib, ← Finset.sum_div, total, Nat.cast_sum]
  calc |∑ state ∈ listedStates.toFinset, time state - (total counted : ℚ) / 10|
      ≤ ∑ state ∈ listedStates.toFinset, |time state - (counted state : ℚ) / 10| := by
        rw [hsum]
        exact Finset.abs_sum_le_sum_abs _ _
    _ ≤ ∑ state ∈ listedStates.toFinset, (counted state : ℚ) ^ 2 / 2 ^ 53 :=
        Finset.sum_le_sum hone
    _ ≤ (total counted : ℚ) ^ 2 / 2 ^ 53 := by
        rw [← Finset.sum_div, total, Nat.cast_sum]
        gcongr
        exact Finset.sum_sq_le_sq_sum_of_nonneg fun state _ ↦ Nat.cast_nonneg _

/-- When the PLC is in one of its states at each moment, the times together are a tenth of the
number of sweeps, up to a tenth for every change of the PLC and the rounding. -/
theorem times_near_sweeps (hrun : plcListener.Reachable s) (hplc : InListedState s.history)
    (hstage : s.stage = .looping ∨ s.stage = .ended) (hmany : s.sweeps + s.changes ≤ 2 ^ 49) :
    |∑ state ∈ listedStates.toFinset, s.time state - (s.sweeps : ℚ) / 10| ≤
      (s.changes : ℚ) / 10 + (s.sweeps + s.changes : ℚ) ^ 2 / 2 ^ 53 := by
  obtain ⟨counted, hcounted⟩ := exists_tally hrun hplc
  have hpending : s.pending = 0 ∧ s.sweepStart - 1 = s.changes := by
    rcases hstage with hstage | hstage
    · rw [PlcListener.pending, PlcListener.sweepStart, hstage]
      exact ⟨rfl, rfl⟩
    · rw [PlcListener.pending, PlcListener.sweepStart, hstage]
      exact ⟨rfl, rfl⟩
  have hupper := hcounted.upper
  have hlower := hcounted.lower
  rw [hpending.1, hpending.2, Nat.add_zero] at hupper hlower
  have hround := abs_sum_time_sub_le hcounted (hupper.trans hmany)
  have hupper : (total counted : ℚ) ≤ s.sweeps + s.changes := by exact_mod_cast hupper
  have hlower : (s.sweeps : ℚ) ≤ total counted + s.changes := by exact_mod_cast hlower
  have hsquare : (total counted : ℚ) ^ 2 / 2 ^ 53 ≤
      (s.sweeps + s.changes : ℚ) ^ 2 / 2 ^ 53 := by
    have hpow := pow_le_pow_left₀ (Nat.cast_nonneg (total counted)) hupper 2
    exact div_le_div_of_nonneg_right hpow (by positivity)
  have hbounds := abs_le.mp hround
  rw [abs_le]
  constructor <;> linarith

end Steps

/-! ### A run -/

/-- The sweep in which the PLC goes on to STARTING counts for two states. -/
theorem times_near_sweeps_startingMeanwhile :
    ∃ s, plcListener.runFrom (.start (stateFlags .idle))
        (startingMeanwhile ++ List.replicate 18 .count) = some s ∧
      s.sweeps = 1 ∧ s.changes = 1 ∧
        |∑ state ∈ listedStates.toFinset, s.time state - 1 / 10| ≤ 1 / 10 + 2 ^ 2 / 2 ^ 53 := by
  have hend : (plcListener.runFrom (.start (stateFlags .idle))
      (startingMeanwhile ++ List.replicate 18 .count)).map
        (fun s ↦ (s.history, s.stage, s.sweeps)) =
      some ([fun _ ↦ false, stateFlags .idle, stateFlags .starting], .looping, 1) := rfl
  obtain ⟨s, hrun, hs⟩ := Option.map_eq_some_iff.mp hend
  simp only [Prod.mk.injEq] at hs
  obtain ⟨hhistory, hstage, hsweeps⟩ := hs
  have hchanges : s.changes = 1 := by rw [PlcListener.changes, hhistory]; rfl
  have hplc : InListedState s.history := by
    intro flags hflags
    rw [hhistory] at hflags
    simp only [List.tail_cons, List.mem_cons, List.not_mem_nil, or_false] at hflags
    rcases hflags with rfl | rfl
    · exact ⟨.idle, by decide, rfl⟩
    · exact ⟨.starting, by decide, rfl⟩
  have hinitial : plcListener.initial (.start (stateFlags .idle)) := ⟨_, rfl⟩
  have hreachable := TransitionSystem.reachable_of_runFrom (.initial hinitial) _ hrun
  have hnear := times_near_sweeps hreachable hplc (Or.inl hstage)
    (by rw [hsweeps, hchanges]; norm_num)
  rw [hsweeps, hchanges] at hnear
  norm_num at hnear
  refine ⟨s, hrun, hsweeps, hchanges, ?_⟩
  norm_num
  exact hnear

end PackML
