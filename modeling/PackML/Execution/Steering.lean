import PackML.Execution.AbortingTrap
import PackML.Execution.RestMachine

/-!
# Every state can be driven to

A plan for the machine between two events is a list of moves, and the running machine realises
every plan. ABORT and the processing of the queue lead to ABORTED with nothing left (`gathers`),
from where `route` leads to each state. `drives_everywhere_iff` is the result: outside of the trap
in ABORTING, and only there, a machine with a mode can be driven to every state by commands and
successful operations. COMPLETING and COMPLETE belong to the single cycle and to the modes that have
COMPLETING.
-/

set_option autoImplicit false
set_option relaxedAutoImplicit false

namespace PackML

/-! ### Plans -/

/-- Moves lead to a machine between events with this property. -/
abbrev Plans (cycle : Cycle) (completing : Bool) (goal : RestState → Prop) : RestState → Prop :=
  (restMachine cycle completing).CanReach (fun _ ↦ True) goal

/-- ABORTED, with nothing left. -/
def IsAborted (m : RestState) : Prop :=
  m = ⟨.aborted, [], false⟩

section Plans

variable {cycle : Cycle} {completing busy : Bool} {goal : RestState → Prop} {state : State}
  {events : List PackmlEvent} {event : PackmlEvent}

theorem plans_post (cmd : TransitionCmd)
    (hplan : Plans cycle completing goal ⟨state, events ++ [.cmdEvent cmd], busy⟩) :
    Plans cycle completing goal ⟨state, events, busy⟩ := by
  have hnext : (restMachine cycle completing).next ⟨state, events, busy⟩ (.post cmd) =
      some ⟨state, events ++ [.cmdEvent cmd], busy⟩ := rfl
  exact .of_step hnext trivial hplan

theorem plans_succeed
    (hplan : Plans cycle completing goal ⟨state, events ++ [.stateCompleteEvent], false⟩) :
    Plans cycle completing goal ⟨state, events, true⟩ := by
  have hnext : (restMachine cycle completing).next ⟨state, events, true⟩ .succeed =
      some ⟨state, events ++ [.stateCompleteEvent], false⟩ := rfl
  exact .of_step hnext trivial hplan

/-- The first event is dropped when it has no target but COMPLETING, and otherwise leads to it. -/
theorem plans_take
    (hdrop : (∀ target, flatTarget cycle state event = some target → target = .completing) →
      Plans cycle completing goal ⟨state, events, busy⟩)
    (hmove : ∀ target, flatTarget cycle state event = some target →
      Plans cycle completing goal ⟨target, events ++ completionOf busy, target.acting⟩) :
    Plans cycle completing goal ⟨state, event :: events, busy⟩ := by
  cases hmoves : (flatTarget cycle state event).filter (hasState completing) with
  | none =>
    have htake : (restMachine cycle completing).next ⟨state, event :: events, busy⟩ .take =
        some ⟨state, events, busy⟩ := by
      simp only [restMachine, RestState.take, hmoves]
    refine .of_step htake trivial (hdrop fun target hflat ↦ ?_)
    have hmissing := Option.filter_eq_none_iff.mp hmoves target hflat
    by_contra hcompleting
    simp [hasState, hcompleting] at hmissing
  | some target =>
    have htake : (restMachine cycle completing).next ⟨state, event :: events, busy⟩ .take =
        some ⟨target, events ++ completionOf busy, target.acting⟩ := by
      simp only [restMachine, RestState.take, hmoves]
    exact .of_step htake trivial (hmove target (Option.filter_eq_some_iff.mp hmoves).1)

/-- In ABORTED completions are dropped. -/
theorem plans_aborted (count : ℕ) :
    Plans cycle completing IsAborted
      ⟨.aborted, List.replicate count .stateCompleteEvent, false⟩ := by
  induction count with
  | zero => exact .here rfl
  | succ count ih => exact plans_take (fun _ ↦ ih) fun target hflat ↦ by cases hflat

/-- A completion leads from ABORTING to ABORTED. -/
theorem plans_aborting {count : ℕ} (hlive : busy = true ∨ 0 < count) :
    Plans cycle completing IsAborted
      ⟨.aborting, List.replicate count .stateCompleteEvent, busy⟩ := by
  have htaken : ∀ count, Plans cycle completing IsAborted
      ⟨.aborting, List.replicate (count + 1) .stateCompleteEvent, false⟩ := by
    intro count
    refine plans_take (fun hdrop ↦ by cases hdrop .aborted rfl) fun target hflat ↦ ?_
    obtain rfl : State.aborted = target := Option.some.inj hflat
    rw [show completionOf false = [] from rfl, List.append_nil]
    exact plans_aborted count
  cases busy with
  | true =>
    refine plans_succeed ?_
    rw [← List.replicate_succ']
    exact htaken count
  | false =>
    obtain ⟨rest, rfl⟩ := Nat.exists_eq_succ_of_ne_zero
      (Nat.ne_of_gt (hlive.resolve_left Bool.false_ne_true))
    exact htaken rest

/-- ABORT, with completions behind it, leads to ABORTING or is not needed. -/
theorem plans_abort {count : ℕ} (hdefined : state ≠ .undefined)
    (hlive : state = .aborting → busy = true ∨ 0 < count) :
    Plans cycle completing IsAborted
      ⟨state, .cmdEvent .abort :: List.replicate count .stateCompleteEvent, busy⟩ := by
  by_cases habortable : state ∈ notAbortableStates
  · refine plans_take (fun _ ↦ ?_) fun target hflat ↦ ?_
    · simp only [notAbortableStates, List.mem_cons, List.not_mem_nil, or_false] at habortable
      rcases habortable with rfl | rfl | rfl
      · exact absurd rfl hdefined
      · exact plans_aborting (hlive rfl)
      · cases busy with
        | true =>
          refine plans_succeed ?_
          rw [← List.replicate_succ']
          exact plans_aborted _
        | false => exact plans_aborted _
    · simp [flatTarget, flatCommand, habortable] at hflat
  · refine plans_take (fun hdrop ↦ ?_) fun target hflat ↦ ?_
    · cases hdrop .aborting (by simp [flatTarget, flatCommand, habortable])
    · obtain rfl : State.aborting = target := by
        simpa [flatTarget, flatCommand, habortable] using hflat
      rw [replicate_append_completionOf]
      exact plans_aborting (Or.inl rfl)

/-- The queue is processed up to an ABORT behind it. -/
theorem plans_queue (events : List PackmlEvent) (state : State) (busy : Bool) (count : ℕ)
    (hdefined : state ≠ .undefined)
    (hlive : state = .aborting → busy = true ∨ .stateCompleteEvent ∈ events ∨ 0 < count) :
    Plans cycle completing IsAborted
      ⟨state, events ++ .cmdEvent .abort :: List.replicate count .stateCompleteEvent, busy⟩ := by
  induction events generalizing state busy count with
  | nil => exact plans_abort hdefined fun hstate ↦ by simpa using hlive hstate
  | cons event rest ih =>
    refine plans_take (fun hdrop ↦ ih state busy count hdefined fun hstate ↦ ?_)
      fun target hflat ↦ ?_
    · -- a completion is not dropped in ABORTING
      subst hstate
      refine (hlive rfl).imp_right (Or.imp_left fun hmem ↦ ?_)
      refine (List.mem_cons.mp hmem).resolve_left ?_
      rintro rfl
      cases hdrop .aborted rfl
    · rw [List.append_eq, List.append_assoc, List.cons_append, replicate_append_completionOf]
      exact ih target target.acting _ (flatTarget_ne_undefined hflat) fun hstate ↦
        Or.inl (hstate ▸ rfl)

/-- Unless the machine is stuck in ABORTING, ABORT leads to ABORTED with nothing left. -/
theorem gathers {m : RestState} (hdefined : m.state ≠ .undefined)
    (hlive : m.state = .aborting → m.busy = true ∨ .stateCompleteEvent ∈ m.events) :
    Plans cycle completing IsAborted m :=
  plans_post .abort <| plans_queue m.events m.state m.busy 0 hdefined fun hstate ↦
    (hlive hstate).imp_right Or.inl

end Plans

/-! ### Routes -/

/-- From ABORTED to STOPPED. -/
def toStopped : List RestMove :=
  [.post .clear, .take, .succeed, .take]

/-- From ABORTED to IDLE. -/
def toIdle : List RestMove :=
  toStopped ++ [.post .reset, .take, .succeed, .take]

/-- From ABORTED to EXECUTE. -/
def toExecute : List RestMove :=
  toIdle ++ [.post .start, .take, .succeed, .take]

/-- The moves from ABORTED to a state. HOLD and SUSPEND wait for the operation of EXECUTE, whose
completion is then the event that HOLDING and SUSPENDING take; theirs is dropped in HELD and
SUSPENDED. -/
def route : State → List RestMove
  | .undefined | .aborted => []
  | .clearing => [.post .clear, .take]
  | .stopped => toStopped
  | .aborting => toStopped ++ [.post .abort, .take]
  | .resetting => toStopped ++ [.post .reset, .take]
  | .idle => toIdle
  | .starting => toIdle ++ [.post .start, .take]
  | .stopping => toIdle ++ [.post .stop, .take]
  | .execute => toExecute
  | .holding => toExecute ++ [.post .hold, .take]
  | .held => toExecute ++ [.post .hold, .take, .take]
  | .unholding => toExecute ++ [.post .hold, .take, .take, .post .unhold, .take, .take]
  | .suspending => toExecute ++ [.post .suspend, .take]
  | .suspended => toExecute ++ [.post .suspend, .take, .take]
  | .unsuspending => toExecute ++ [.post .suspend, .take, .take, .post .unsuspend, .take, .take]
  | .completing => toExecute ++ [.succeed, .take]
  | .complete => toExecute ++ [.succeed, .take, .succeed, .take]

/-- The states that a machine of this cycle has in a mode. -/
def Offers (cycle : Cycle) (completing : Bool) (target : State) : Prop :=
  target ≠ .undefined ∧
    (target = .completing ∨ target = .complete → cycle = .singleCycle ∧ completing = true)

theorem route_state {cycle : Cycle} {completing : Bool} {target : State}
    (hoffers : Offers cycle completing target) :
    ((restMachine cycle completing).runFrom ⟨.aborted, [], false⟩ (route target)).map
      RestState.state = some target := by
  obtain ⟨hdefined, hcompletes⟩ := hoffers
  cases target with
  | undefined => exact absurd rfl hdefined
  | completing =>
    obtain ⟨rfl, rfl⟩ := hcompletes (Or.inl rfl)
    rfl
  | complete =>
    obtain ⟨rfl, rfl⟩ := hcompletes (Or.inr rfl)
    rfl
  | _ => cases cycle <;> cases completing <;> rfl

/-! ### The result -/

section

variable {cycle : Cycle} {completing : Bool} {s : Execution} {target : State}

/-- Unless the machine between events is stuck in ABORTING, it has a plan for every state. -/
theorem plans_everywhere {m : RestState} (hdefined : m.state ≠ .undefined)
    (hlive : m.state = .aborting → m.busy = true ∨ .stateCompleteEvent ∈ m.events)
    (hoffers : Offers cycle completing target) :
    Plans cycle completing (·.state = target) m := by
  refine (gathers hdefined hlive).trans ?_
  rintro _ rfl
  obtain ⟨n, hrun, hstate⟩ := Option.map_eq_some_iff.mp (route_state hoffers)
  exact ⟨route target, n, fun _ _ ↦ trivial, hrun, hstate⟩

/-- A machine between two events is in the state that it shows. -/
theorem Rests.inState {gen : StatesGenerator} {m : RestState} (hs : Rests cycle gen s m)
    (hstate : m.state = target) : InState target s := by
  obtain ⟨hdriven, hphase, rfl⟩ := hs
  have hlocated := located_stateValue hdriven.reachable
  have hvalue : s.stateValue = target := by simpa [Execution.restState, hphase] using hstate
  rw [InState, hlocated.configuration_eq (by simp [hphase]), chart_activeLeaves_path, hvalue]

/-- Outside of the trap, the machine will not be stuck in ABORTING when its transition is over. -/
theorem restState_live (hs : ¬ Wedged s)
    (hstate : s.restState.state = .aborting) :
    s.restState.busy = true ∨ .stateCompleteEvent ∈ s.restState.events := by
  cases hphase : s.phase with
  | idle =>
    simp only [Execution.restState, hphase] at hstate ⊢
    by_contra hstuck
    rw [not_or] at hstuck
    refine hs ⟨hphase, hstate, by simpa using hstuck.1, ?_⟩
    refine List.filter_eq_nil_iff.mpr fun posted hposted hcompletion ↦ hstuck.2 ?_
    exact List.mem_map.mpr ⟨posted, hposted, of_decide_eq_true hcompletion⟩
  | _ =>
    simp only [Execution.restState, hphase] at hstate ⊢
    exact Or.inl (hstate ▸ rfl)

/-- A running machine is in a PackML state or on its way to one. -/
theorem restState_defined (hrun : (execution cycle).Reachable s) :
    s.restState.state ≠ .undefined := by
  have hlocated := located_stateValue hrun
  have hdefined := hlocated.defined
  have hstanding := hlocated.standing
  generalize hphase : s.phase = phase at hstanding
  generalize s.configuration = configuration at hstanding
  cases hstanding with
  | idle => simpa [Execution.restState, hphase] using hdefined
  | leaving htransfer | entering htransfer =>
    have htarget := flatTarget_ne_undefined htransfer.flat
    simpa [Execution.restState, Execution.destination, Phase.pendingTarget, hphase,
      htransfer.enteredState_eq] using htarget
  | notifying =>
    simpa [Execution.restState, Execution.destination, Phase.pendingTarget, hphase] using hdefined

/-- Outside of the trap a machine with a mode can be driven to every state that it has. -/
theorem drives_of_not_wedged (hrun : (execution cycle).Reachable s) (hmoded : Moded s)
    (hs : ¬ Wedged s) (hoffers : Offers cycle (s.gen.isAvailable .completing) target) :
    (execution cycle).CanReach Succeeds (InState target) s := by
  refine (settles ⟨hrun, hmoded, rfl⟩).trans fun t ht ↦ ?_
  exact .realised (Rests cycle s.gen) (fun _ _ _ _ hrests hnext ↦ realises_move hrests hnext)
    (fun _ _ hrests hstate ↦ hrests.inState hstate) ht
    (plans_everywhere (restState_defined hrun) (restState_live hs) hoffers)

theorem Succeeds.continues (action : Action) (hsucceeds : Succeeds action) : Continues action := by
  cases action <;> first | exact hsucceeds | trivial

/-- In every run, a machine with a mode can be driven by commands and successful operations to
every state of its cycle and mode exactly when no operation of ABORTING failed in ABORTING without a
completion in the queue. -/
theorem drives_everywhere_iff {actions : List Action}
    (hrun : (execution cycle).runFrom .activated actions = some s)
    (hmode : s.gen.currentMode.name ≠ "") :
    (∀ target, Offers cycle (s.gen.isAvailable .completing) target →
        (execution cycle).CanReach Succeeds (InState target) s) ↔
      (execution cycle).AllowedAlong AbortingCompletes actions .activated := by
  have hreachable : (execution cycle).Reachable s :=
    TransitionSystem.reachable_of_runFrom (.initial rfl) actions hrun
  have hmoded : Moded s := moded_of_name hreachable hmode
  rw [← not_wedged_iff hrun]
  constructor
  · intro hdrives hwedged
    have hidle := hdrives .idle ⟨by decide, by simp⟩
    exact hwedged.not_canReach hreachable (by decide) (hidle.mono Succeeds.continues)
  · exact fun hs target hoffers ↦ drives_of_not_wedged hreachable hmoded hs hoffers

end

/-! ### A run -/

/-- In MAINTENANCE a machine that starts up is held and aborted before it has left EXECUTE. -/
def heldWhileExecutingRun : List Action :=
  [.changeMode .maintenance, .modeSwitched, .notified, .post .clear, .select, .leave, .enter,
    .notified, .finish ⟨.clearing, 0⟩ 0, .post .reset, .select, .leave, .enter, .notified, .select,
    .leave, .enter, .notified, .finish ⟨.resetting, 1⟩ 0, .select, .leave, .enter, .notified,
    .post .start, .select, .leave, .enter, .notified, .finish ⟨.starting, 2⟩ 0, .select, .leave,
    .enter, .notified, .post .hold, .post .abort, .select]

theorem drives_everywhere_iff_heldWhileExecutingRun :
    ∃ s, (execution .singleCycle).runFrom .activated heldWhileExecutingRun = some s ∧
      s.gen.isAvailable .completing = false ∧
      ∀ target, Offers .singleCycle false target →
        (execution .singleCycle).CanReach Succeeds (InState target) s := by
  have hend : ((execution .singleCycle).runFrom .activated heldWhileExecutingRun).map
      (fun s ↦ (s.gen.currentMode.name, s.gen.isAvailable .completing)) =
        some ("MAINTENANCE", false) := rfl
  obtain ⟨s, hrun, hs⟩ := Option.map_eq_some_iff.mp hend
  obtain ⟨hname, hcompleting⟩ := Prod.mk.injEq .. ▸ hs
  have hallowed : (execution .singleCycle).AllowedAlong AbortingCompletes heldWhileExecutingRun
      .activated := by
    decide +kernel
  have hdrives := (drives_everywhere_iff hrun (by simp [hname])).mpr hallowed
  rw [hcompleting] at hdrives
  exact ⟨s, hrun, hcompleting, hdrives⟩

end PackML
