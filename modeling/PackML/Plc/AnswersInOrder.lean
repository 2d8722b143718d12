import PackML.Plc.PackmlPlcListener

/-!
# Answers that show several states, or none

The flags of an answer were read at different moments, and they may come from several sweeps, so
that an answer may show several states of the PLC at once, and also none. But the flags are read,
and copied, in one order: the states that an answer shows were those of the PLC one after the other,
in this order, since the sweep began that was over last before the request; there is at most one
more than the PLC has changed since then; and when it has not changed, the answer shows what the PLC
shows (`shown_in_order`).

The invariant `Sweeping` is about the two lists of the listener, `Answering` about an answer under
way, whose next flags come from `newvals` or from a later list.
-/

set_option autoImplicit false
set_option relaxedAutoImplicit false

namespace PackML

open FlagReadings

namespace PlcListener

variable (s : PlcListener)

/-- The moment at which the sweep under way began, or from which on the next one begins. -/
def sweepStart : ℕ :=
  match s.stage with
  | .reading since _ => since
  | _ => s.now

/-- The flags that the sweep under way has read. -/
def reads : List (Reading State) :=
  match s.stage with
  | .reading _ values => values
  | _ => []

variable {s}

theorem sweepStart_of_reading {since : ℕ} {values : List (Reading State)}
    (hstage : s.stage = .reading since values) : s.sweepStart = since := by
  rw [sweepStart, hstage]

theorem sweepStart_of_counting {index : ℕ} (hstage : s.stage = .counting index) :
    s.sweepStart = s.now := by
  rw [sweepStart, hstage]

theorem now_lt {moment : ℕ} (hmoment : moment < s.history.length) : s.now < s.history.length :=
  Nat.sub_one_lt (Nat.ne_of_gt (Nat.zero_lt_of_lt hmoment))

end PlcListener

/-- The flags of a PLC that is in one state. -/
def stateFlags (state other : State) : Bool :=
  other = state

theorem atMostOne_stateFlags (state : State) : AtMostOne (stateFlags state) := by
  intro cell other hcell hother
  exact (of_decide_eq_true hcell).trans (of_decide_eq_true hother).symm

/-- Before the first sweep. -/
theorem atMostOne_none : AtMostOne fun _ : State ↦ false := by
  intro cell other hcell
  cases hcell

/-! ### The lists of the listener -/

/-- The flags in `newvals` were read one after the other, since the sweep of theirs began and before
the one under way did; the flags of this one since it began. -/
structure Sweeping (history : List (State → Bool)) (newvals reads : List (Reading State))
    (newvalsSince start : ℕ) : Prop where
  newvals_cells : newvals.map (·.cell) = listedStates
  newvals_read : ReadInTurn history newvals
  newvals_since : ∀ reading ∈ newvals, newvalsSince ≤ reading.moment
  newvals_before : ∀ reading ∈ newvals, reading.moment ≤ start
  since_le : newvalsSince ≤ start
  reads_cells : reads.map (·.cell) = listedStates.take reads.length
  reads_read : ReadInTurn history reads
  reads_since : ∀ reading ∈ reads, start ≤ reading.moment
  start_lt : start < history.length

/-- The flags of an answer under way, and those in `newvals` that it has not copied, were read one
after the other, since the sweep began that was over last before the request. -/
structure Answering (history : List (State → Bool)) (newvals : List (Reading State))
    (newvalsSince start : ℕ) (res : SendData) : Prop where
  read : ReadInTurn history (res.flags ++ newvals.drop res.flags.length)
  cells : res.flags.map (·.cell) = listedStates.take res.flags.length
  since : ∀ reading ∈ res.flags, res.since ≤ reading.moment
  since_le : res.since ≤ newvalsSince
  before : ∀ reading ∈ res.flags, reading.moment ≤ start
  complete : res.times ≠ [] → res.flags.length = listedStates.length

/-- All flags of an answer were read one after the other. -/
structure Answered (history : List (State → Bool)) (res : SendData) : Prop where
  read : ReadInTurn history res.flags
  cells : res.flags.map (·.cell) = listedStates
  since : ∀ reading ∈ res.flags, res.since ≤ reading.moment

section Steps

variable {history : List (State → Bool)} {newvals reads : List (Reading State)}
  {newvalsSince start start' : ℕ} {res : SendData} {flags : State → Bool}

/-- The PLC writes its flags. -/
theorem Sweeping.write (hs : Sweeping history newvals reads newvalsSince start)
    (hstart : start ≤ start') (hlt : start' < (history ++ [flags]).length)
    (hreads : ∀ reading ∈ reads, start' ≤ reading.moment) :
    Sweeping (history ++ [flags]) newvals reads newvalsSince start' where
  newvals_cells := hs.newvals_cells
  newvals_read := hs.newvals_read.write flags
  newvals_since := hs.newvals_since
  newvals_before reading hreading := (hs.newvals_before reading hreading).trans hstart
  since_le := hs.since_le.trans hstart
  reads_cells := hs.reads_cells
  reads_read := hs.reads_read.write flags
  reads_since := hreads
  start_lt := hlt

theorem Answering.write (hres : Answering history newvals newvalsSince start res)
    (hstart : start ≤ start') :
    Answering (history ++ [flags]) newvals newvalsSince start' res where
  read := hres.read.write flags
  cells := hres.cells
  since := hres.since
  since_le := hres.since_le
  before reading hreading := (hres.before reading hreading).trans hstart
  complete := hres.complete

theorem Answered.write (hres : Answered history res) : Answered (history ++ [flags]) res :=
  ⟨hres.read.write flags, hres.cells, hres.since⟩

/-- The listener begins a sweep, or ends one without replacing `newvals`. -/
theorem Sweeping.begin (hs : Sweeping history newvals reads newvalsSince start)
    (hstart : start ≤ start') (hlt : start' < history.length) :
    Sweeping history newvals [] newvalsSince start' where
  newvals_cells := hs.newvals_cells
  newvals_read := hs.newvals_read
  newvals_since := hs.newvals_since
  newvals_before reading hreading := (hs.newvals_before reading hreading).trans hstart
  since_le := hs.since_le.trans hstart
  reads_cells := rfl
  reads_read := .nil
  reads_since _ hreading := absurd hreading List.not_mem_nil
  start_lt := hlt

theorem Answering.begin (hres : Answering history newvals newvalsSince start res)
    (hstart : start ≤ start') : Answering history newvals newvalsSince start' res :=
  { hres with before := fun reading hreading ↦ (hres.before reading hreading).trans hstart }

/-- The sweep reads the next flag. -/
theorem Sweeping.getValue (hs : Sweeping history newvals reads newvalsSince start) {state : State}
    (hstate : listedStates[reads.length]? = some state)
    (hflags : history[history.length - 1]? = some flags) :
    Sweeping history newvals (reads ++ [⟨state, flags state, history.length - 1⟩]) newvalsSince
      start := by
  have hread := ReadInTurn.singleton hflags state
  refine { hs with reads_cells := ?_, reads_read := ?_, reads_since := ?_ }
  · rw [List.map_append, hs.reads_cells, List.length_append, List.length_singleton,
      List.take_add_one, hstate]
    rfl
  · refine hs.reads_read.append hread fun reading hreading other hother ↦ ?_
    rw [List.mem_singleton.mp hother]
    exact Nat.le_sub_one_of_lt (hs.reads_read.moment_lt hreading)
  · intro reading hreading
    rcases List.mem_append.mp hreading with hbefore | hnow
    · exact hs.reads_since reading hbefore
    · rw [List.mem_singleton.mp hnow]
      exact Nat.le_sub_one_of_lt hs.start_lt

/-- `newvals` is replaced. -/
theorem Sweeping.assignNewvals (hs : Sweeping history newvals reads newvalsSince start)
    (hlength : reads.length = listedStates.length) :
    Sweeping history reads [] start (history.length - 1) where
  newvals_cells := by rw [hs.reads_cells, hlength, List.take_length]
  newvals_read := hs.reads_read
  newvals_since := hs.reads_since
  newvals_before reading hreading := Nat.le_sub_one_of_lt (hs.reads_read.moment_lt hreading)
  since_le := Nat.le_sub_one_of_lt hs.start_lt
  reads_cells := rfl
  reads_read := .nil
  reads_since _ hreading := absurd hreading List.not_mem_nil
  start_lt := Nat.sub_one_lt (Nat.ne_of_gt (Nat.zero_lt_of_lt hs.start_lt))

/-- The flags that an answer has copied were read before those of the new list. -/
theorem Answering.assignNewvals (hres : Answering history newvals newvalsSince start res)
    (hs : Sweeping history newvals reads newvalsSince start) :
    Answering history reads start (history.length - 1) res where
  read := by
    refine (hres.read.sublist (List.sublist_append_left _ _)).append
      (hs.reads_read.sublist (List.drop_sublist _ _)) fun reading hreading other hother ↦ ?_
    exact (hres.before reading hreading).trans
      (hs.reads_since other (List.mem_of_mem_drop hother))
  cells := hres.cells
  since := hres.since
  since_le := hres.since_le.trans hs.since_le
  before reading hreading :=
    (hres.before reading hreading).trans (Nat.le_sub_one_of_lt hs.start_lt)
  complete := hres.complete

/-- An answer copies the next flag. -/
theorem Answering.assignFlag (hres : Answering history newvals newvalsSince start res)
    (hs : Sweeping history newvals reads newvalsSince start) {reading : Reading State}
    (hreading : newvals[res.flags.length]? = some reading) :
    Answering history newvals newvalsSince start { res with flags := res.flags ++ [reading] } := by
  obtain ⟨hlt, hget⟩ := List.getElem?_eq_some_iff.mp hreading
  have hmem : reading ∈ newvals := List.mem_of_getElem? hreading
  have hcell : listedStates[res.flags.length]? = some reading.cell := by
    rw [← hs.newvals_cells, List.getElem?_map, hreading]
    rfl
  have hdrop : newvals.drop res.flags.length = reading :: newvals.drop (res.flags.length + 1) := by
    rw [List.drop_eq_getElem_cons hlt, hget]
  constructor
  · have hread := hres.read
    rw [hdrop] at hread
    simpa using hread
  · rw [List.map_append, hres.cells, List.length_append, List.length_singleton, List.take_add_one,
      hcell]
    rfl
  · intro other hother
    rcases List.mem_append.mp hother with hbefore | hnow
    · exact hres.since other hbefore
    · rw [List.mem_singleton.mp hnow]
      exact hres.since_le.trans (hs.newvals_since reading hmem)
  · exact hres.since_le
  · intro other hother
    rcases List.mem_append.mp hother with hbefore | hnow
    · exact hres.before other hbefore
    · rw [List.mem_singleton.mp hnow]
      exact hs.newvals_before reading hmem
  · intro htimes
    have hlength := congrArg List.length hs.newvals_cells
    rw [List.length_map, ← hres.complete htimes] at hlength
    exact absurd hlt (Nat.not_lt.mpr hlength.le)

end Steps

/-! ### The run of the listener -/

/-- The lists of the listener, the answer under way and those given were read in turn. -/
structure InTurn (s : PlcListener) : Prop where
  sweeping : Sweeping s.history s.newvals s.reads s.newvalsSince s.sweepStart
  answering : ∀ res ∈ s.answering, Answering s.history s.newvals s.newvalsSince s.sweepStart res
  answered : ∀ res ∈ s.responses, Answered s.history res

section Runs

variable {s t : PlcListener}

theorem inTurn_start (flags : State → Bool) : InTurn (.start flags) where
  sweeping :=
    { newvals_cells := rfl
      newvals_read := by
        refine ⟨fun reading hreading ↦ ?_, ?_⟩
        · obtain ⟨state, -, rfl⟩ := List.mem_map.mp hreading
          rfl
        · exact List.pairwise_map.mpr (List.pairwise_of_forall fun _ _ ↦ le_rfl)
      newvals_since := fun _ _ ↦ Nat.zero_le _
      newvals_before := by
        intro reading hreading
        obtain ⟨state, -, rfl⟩ := List.mem_map.mp hreading
        exact Nat.zero_le _
      since_le := Nat.zero_le _
      reads_cells := rfl
      reads_read := .nil
      reads_since := fun _ hreading ↦ absurd hreading List.not_mem_nil
      start_lt := Nat.one_lt_two }
  answering _ hres := by cases hres
  answered _ hres := absurd hres List.not_mem_nil

/-- The PLC writes its flags; this does not change where the sweep under way began. -/
theorem inTurn_plcWrites (hs : InTurn s) (flags : State → Bool) :
    InTurn { s with history := s.history ++ [flags] } := by
  obtain ⟨history, event, stage, newvals, newvalsSince, time, sweeps, answering, responses⟩ := s
  obtain ⟨hsweeping, hanswering, hanswered⟩ := hs
  have hlength : (history ++ [flags]).length = history.length + 1 := by simp
  cases stage with
  | reading since values =>
    refine ⟨hsweeping.write le_rfl ?_ hsweeping.reads_since,
      fun res hres ↦ (hanswering res hres).write le_rfl, fun res hres ↦ (hanswered res hres).write⟩
    rw [hlength]
    exact hsweeping.start_lt.trans (Nat.lt_succ_self _)
  | looping | counting _ | ended =>
    have hnow : history.length - 1 ≤ (history ++ [flags]).length - 1 := by
      rw [hlength]
      omega
    exact ⟨hsweeping.write hnow (Nat.sub_lt (hlength ▸ Nat.succ_pos _) Nat.one_pos)
        fun _ hreading ↦ absurd hreading List.not_mem_nil,
      fun res hres ↦ (hanswering res hres).write hnow, fun res hres ↦ (hanswered res hres).write⟩

theorem inTurn_step (hs : InTurn s) {action : ListenerAction}
    (hnext : plcListener.next s action = some t) : InTurn t := by
  obtain ⟨hsweeping, hanswering, hanswered⟩ := hs
  cases action with
  | plcWrites flags =>
    obtain rfl := Option.some.inj hnext
    exact inTurn_plcWrites ⟨hsweeping, hanswering, hanswered⟩ flags
  | setEvent =>
    obtain rfl := Option.some.inj hnext
    exact ⟨hsweeping, hanswering, hanswered⟩
  | loop =>
    obtain ⟨hstage, rfl⟩ := PlcListener.loop_spec hnext
    rw [PlcListener.sweepStart, hstage] at hsweeping hanswering
    cases hevent : s.event with
    | true => exact ⟨hsweeping.begin le_rfl hsweeping.start_lt, hanswering, hanswered⟩
    | false => exact ⟨hsweeping.begin le_rfl hsweeping.start_lt, hanswering, hanswered⟩
  | getValue =>
    obtain ⟨since, values, state, flags, hstage, hstate, hflags, rfl⟩ :=
      PlcListener.getValue_spec hnext
    rw [PlcListener.sweepStart, hstage] at hsweeping hanswering
    rw [PlcListener.reads, hstage] at hsweeping
    exact ⟨hsweeping.getValue hstate hflags, hanswering, hanswered⟩
  | getValueFails =>
    obtain ⟨since, values, hstage, rfl⟩ := PlcListener.getValueFails_spec hnext
    rw [PlcListener.sweepStart, hstage] at hsweeping hanswering
    have hnow : since ≤ s.now := Nat.le_sub_one_of_lt hsweeping.start_lt
    exact ⟨hsweeping.begin hnow (PlcListener.now_lt hsweeping.start_lt),
      fun res hres ↦ (hanswering res hres).begin hnow, hanswered⟩
  | assignNewvals =>
    obtain ⟨since, values, hstage, hlength, rfl⟩ := PlcListener.assignNewvals_spec hnext
    rw [PlcListener.sweepStart, hstage] at hsweeping hanswering
    rw [PlcListener.reads, hstage] at hsweeping
    exact ⟨hsweeping.assignNewvals hlength,
      fun res hres ↦ (hanswering res hres).assignNewvals hsweeping, hanswered⟩
  | count =>
    obtain ⟨index, hstage, ⟨state, reading, -, -, rfl⟩ | ⟨-, rfl⟩⟩ := PlcListener.count_spec hnext
    · rw [PlcListener.sweepStart, hstage] at hsweeping hanswering
      rw [PlcListener.reads, hstage] at hsweeping
      exact ⟨hsweeping, hanswering, hanswered⟩
    · rw [PlcListener.sweepStart, hstage] at hsweeping hanswering
      rw [PlcListener.reads, hstage] at hsweeping
      exact ⟨hsweeping, hanswering, hanswered⟩
  | request =>
    obtain ⟨hnone, rfl⟩ := PlcListener.request_spec hnext
    refine ⟨hsweeping, fun res hres ↦ ?_, hanswered⟩
    obtain rfl := Option.some.inj hres
    exact ⟨hsweeping.newvals_read, rfl, fun _ hreading ↦ absurd hreading List.not_mem_nil, le_rfl,
      fun _ hreading ↦ absurd hreading List.not_mem_nil, fun htimes ↦ absurd rfl htimes⟩
  | assignFlag =>
    obtain ⟨res, reading, hres, hreading, rfl⟩ := PlcListener.assignFlag_spec hnext
    refine ⟨hsweeping, fun assigned hassigned ↦ ?_, hanswered⟩
    obtain rfl := Option.some.inj hassigned
    exact (hanswering res hres).assignFlag hsweeping hreading
  | assignTime =>
    obtain ⟨res, state, hres, hlength, -, rfl⟩ := PlcListener.assignTime_spec hnext
    refine ⟨hsweeping, fun assigned hassigned ↦ ?_, hanswered⟩
    obtain rfl := Option.some.inj hassigned
    exact { hanswering res hres with complete := fun _ ↦ hlength }
  | answer =>
    obtain ⟨res, hres, hlength, rfl⟩ := PlcListener.answer_spec hnext
    refine ⟨hsweeping, fun _ hnone ↦ (by cases hnone), fun answered hmem ↦ ?_⟩
    rcases List.mem_append.mp hmem with hbefore | hnow
    · exact hanswered answered hbefore
    · obtain rfl := List.mem_singleton.mp hnow
      obtain ⟨hread, hcells, hsince, -, -, hcomplete⟩ := hanswering answered hres
      have htimes : answered.times ≠ [] := by
        intro hempty
        rw [hempty] at hlength
        cases hlength
      refine ⟨hread.sublist (List.sublist_append_left _ _), ?_, hsince⟩
      rw [hcells, hcomplete htimes, List.take_length]

theorem inTurn_of_reachable (hrun : plcListener.Reachable s) : InTurn s := by
  refine hrun.invariant ?_ fun s action t hs hnext ↦ inTurn_step hs hnext
  rintro s ⟨flags, rfl⟩
  exact inTurn_start flags

/-- When the PLC has shown at most one state at each moment since the sweep began that was over last
before the request, the states that an answer shows were those of the PLC one after the other, in
this order, since then; so there is at most one more than the PLC has changed. And when it has not
changed, the answer shows what the PLC shows. -/
theorem shown_in_order (hrun : plcListener.Reachable s) {res : SendData} (hres : res ∈ s.responses)
    (hone : ∀ flags ∈ s.history.drop res.since, AtMostOne flags) :
    List.SublistForall₂ (fun state flags ↦ flags state = true) (shown res.flags)
        (s.history.drop res.since) ∧
      (shown res.flags).length ≤ s.history.length - res.since ∧
      ∀ flags, s.history.drop res.since = [flags] →
        shown res.flags = listedStates.filter flags := by
  obtain ⟨hread, hcells, hsince⟩ := (inTurn_of_reachable hrun).answered res hres
  have hnodup : (res.flags.map (·.cell)).Nodup := by
    rw [hcells]
    decide
  refine ⟨hread.shown_sublist hnodup hone hsince, hread.length_shown_le hnodup hone hsince,
    fun flags hsame ↦ ?_⟩
  have hlength := congrArg List.length hsame
  rw [List.length_drop, List.length_singleton] at hlength
  have hflags : s.history[res.since]? = some flags := by
    rw [← List.head?_drop, hsame]
    rfl
  rw [hread.shown_of_unchanged hflags fun reading hreading ↦ ?_, hcells]
  have hlt := hread.moment_lt hreading
  have hle := hsince reading hreading
  omega

end Runs

/-! ### A run -/

/-- An answer from its request to its return. -/
def answerRun : List ListenerAction :=
  .request :: List.replicate 17 .assignFlag ++ List.replicate 17 .assignTime ++ [.answer]

/-- A sweep in which the PLC goes on to STARTING when two flags have been read. -/
def startingMeanwhile : List ListenerAction :=
  [.loop, .getValue, .getValue, .plcWrites (stateFlags .starting)] ++ List.replicate 15 .getValue ++
    [.assignNewvals]

/-- The answer shows IDLE and STARTING, and the PLC has been in IDLE and then in STARTING. -/
theorem shown_in_order_startingMeanwhile :
    ∃ s, plcListener.runFrom (.start (stateFlags .idle)) (startingMeanwhile ++ answerRun) = some s ∧
      ∃ res ∈ s.responses, shown res.flags = [.idle, .starting] ∧
        List.SublistForall₂ (fun state flags ↦ flags state = true) (shown res.flags)
          (s.history.drop res.since) := by
  have hend : (plcListener.runFrom (.start (stateFlags .idle)) (startingMeanwhile ++ answerRun)).map
      (fun s ↦ (s.history, s.responses.map fun res ↦ shown res.flags)) =
      some ([fun _ ↦ false, stateFlags .idle, stateFlags .starting], [[.idle, .starting]]) := rfl
  obtain ⟨s, hrun, hs⟩ := Option.map_eq_some_iff.mp hend
  obtain ⟨hhistory, hresponses⟩ := Prod.mk.inj hs
  obtain ⟨res, hres, hshown⟩ := List.mem_map.mp (hresponses ▸ List.mem_singleton_self _)
  have hone : ∀ flags ∈ s.history.drop res.since, AtMostOne flags := by
    intro flags hflags
    have hmem := List.mem_of_mem_drop hflags
    rw [hhistory] at hmem
    simp only [List.mem_cons, List.not_mem_nil, or_false] at hmem
    rcases hmem with rfl | rfl | rfl
    · exact atMostOne_none
    · exact atMostOne_stateFlags _
    · exact atMostOne_stateFlags _
  have hinitial : plcListener.initial (.start (stateFlags .idle)) := ⟨_, rfl⟩
  have hreachable := TransitionSystem.reachable_of_runFrom (.initial hinitial) _ hrun
  exact ⟨s, hrun, res, hres, hshown, (shown_in_order hreachable hres hone).1⟩

end PackML
