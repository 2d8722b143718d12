import PackML.Library.History
import PackML.Execution.Operations

/-!
# Operations are serialised and accounted for

What a step starts, posts, returns and enters is read off the states around it (`started`,
`posted`, `returned`, `entered`), and what a run has done is read off its recorded steps.

`OperationsAccounted` says that at most one operation runs, that it is the one of the active leaf,
that none runs while a wait state is active, that every entry of an acting state starts one
operation, and that every operation started either runs and has posted nothing, or has returned one
code and posted one event, the one for that code. While the machine is between two leaves none
runs, so the event of a leaf stands in the queue before the next leaf is entered.

`Accounts` is the invariant of the record. A step other than the start and the end of an operation
adds only commands to the queue (`quiet_step`) and keeps the accounts (`Accounts.frame`); a start
opens the account of a new activation (`Accounts.start`) and an end closes it (`Accounts.finish`).
By `Accounts.operationsAccounted` the invariant gives `OperationsAccounted`.
-/

set_option autoImplicit false
set_option relaxedAutoImplicit false

namespace PackML

/-! ### What a step does -/

/-- A step of an execution. -/
abbrev ExecutionStep := TransitionSystem.Step Execution Action

namespace ExecutionStep

variable (step : ExecutionStep)

/-- The activations whose operations begin to run. -/
def started : List Activation :=
  step.after.running.filter fun activation ↦ decide (activation ∉ step.before.running)

/-- The events added to the end of the queue. -/
def posted : List PostedEvent :=
  step.after.queue.drop step.before.queue.length

/-- The code that the function of an activation returns. -/
def returned (activation : Activation) : Option Int :=
  match step.action with
  | .finish finished code => if finished = activation then some code else none
  | _ => none

/-- The acting states entered. -/
def entered : List State :=
  match step.action with
  | .enter =>
    ((chart.activeLeaves step.after.configuration).map PackmlState.state).filter State.acting
  | _ => []

end ExecutionStep

/-- The acting state that was entered last, when its operation has not been started yet. -/
def Phase.pendingEntry : Phase → List State
  | .notifying state => if state.acting then [state] else []
  | _ => []

/-! ### What a run has done -/

section Record

variable (activation : Activation) (steps : List ExecutionStep)

/-- The activations started, newest first. -/
def activationsOf : List Activation :=
  steps.flatMap ExecutionStep.started

/-- The acting states entered, newest first. -/
def entriesOf : List State :=
  steps.flatMap ExecutionStep.entered

/-- The events posted by the operation of an activation. -/
def eventsOf : List PostedEvent :=
  (steps.flatMap ExecutionStep.posted).filter fun posted ↦
    decide (posted.origin = .operation activation)

/-- The codes returned by the function of an activation. -/
def codesOf : List Int :=
  steps.filterMap fun step ↦ ExecutionStep.returned step activation

end Record

/-- An operation that runs has returned nothing and posted nothing; one that does not run has
returned one code and posted one event, an `ErrorEvent` if the code is nonzero and a
`StateCompleteEvent` otherwise. -/
def PostedOnce (r : TransitionSystem.Recorded Execution Action) (activation : Activation) : Prop :=
  if activation ∈ r.current.running then
    codesOf activation r.steps = [] ∧ eventsOf activation r.steps = []
  else
    ∃ code, codesOf activation r.steps = [code] ∧
      (code ≠ 0 → eventsOf activation r.steps = [⟨.errorEvent code, .operation activation⟩]) ∧
      (code = 0 → eventsOf activation r.steps = [⟨.stateCompleteEvent, .operation activation⟩])

/-- The operations of a run are serialised and accounted for. -/
structure OperationsAccounted (r : TransitionSystem.Recorded Execution Action) : Prop where
  serialised : ∀ activation ∈ r.current.running, r.current.running = [activation] ∧
    chart.activeLeaves r.current.configuration = [activation.state.generated]
  waiting : ∀ state : State, state.generated ∈ chart.activeLeaves r.current.configuration →
    state.acting = false → r.current.running = []
  entered : entriesOf r.steps =
    r.current.phase.pendingEntry ++ (activationsOf r.steps).map Activation.state
  distinct : (activationsOf r.steps).Nodup
  posted : ∀ activation ∈ activationsOf r.steps, PostedOnce r activation
  settled : ∀ event selection, r.current.phase = .entering event selection →
    r.current.running = []

/-- The invariant of the record: what `OperationsAccounted` says of the activations, that the
operations that run were started, and that an activation without a start has done nothing. -/
structure Accounts (r : TransitionSystem.Recorded Execution Action) : Prop where
  entered : entriesOf r.steps =
    r.current.phase.pendingEntry ++ (activationsOf r.steps).map Activation.state
  distinct : (activationsOf r.steps).Nodup
  numbered : ∀ activation ∈ activationsOf r.steps, activation.number < r.current.activations
  running : ∀ activation ∈ r.current.running, activation ∈ activationsOf r.steps
  unstarted : ∀ activation, activation ∉ activationsOf r.steps →
    codesOf activation r.steps = [] ∧ eventsOf activation r.steps = []
  posted : ∀ activation ∈ activationsOf r.steps, PostedOnce r activation

section

variable {cycle : Cycle} {s t : Execution} {r : TransitionSystem.Recorded Execution Action}

/-! ### One step -/

theorem eventsOf_cons (activation : Activation) (step : ExecutionStep)
    (steps : List ExecutionStep) :
    eventsOf activation (step :: steps) =
      (step.posted.filter fun posted ↦ decide (posted.origin = .operation activation)) ++
        eventsOf activation steps := by
  simp [eventsOf]

/-- A step that is no start or end of an operation leaves the operations and posts commands
only. -/
theorem quiet_step (hs : Located cycle s s.stateValue) {action : Action}
    (hfinish : ∀ activation code, action ≠ .finish activation code)
    (hstart : action = .notified → s.stateValue.acting = false)
    (hnext : (execution cycle).next s action = some t) :
    t.running = s.running ∧ t.activations = s.activations ∧
      ∀ posted ∈ ExecutionStep.posted ⟨s, action, t⟩,
        ∃ number, posted.origin = .command number := by
  have hframe := stepFrame hs hnext
  obtain ⟨hrunning, hactivations⟩ := hframe.operations hfinish hstart
  refine ⟨hrunning, hactivations, ?_⟩
  cases action with
  | post cmd =>
    obtain rfl := Option.some.inj hnext
    simp [ExecutionStep.posted, Execution.post]
  | finish activation code => exact absurd rfl (hfinish activation code)
  | select =>
    obtain ⟨event, rest, -, hqueue, hnext⟩ := select_spec hs hnext
    have hnone : rest.drop (rest.length + 1) = [] := List.drop_eq_nil_of_le (Nat.le_succ _)
    rcases hnext with ⟨-, rfl⟩ | ⟨source, transition, -, rfl⟩
    · simp [ExecutionStep.posted, hqueue, hnone]
    · simp [ExecutionStep.posted, hqueue, hnone]
  | leave | enter | notified | changeMode | modeSwitched =>
    simp [ExecutionStep.posted, hframe.queue (by simp) (by simp) (by simp)]

/-- An entry of an acting state is pending until its operation starts. -/
theorem entered_step (hs : Located cycle s s.stateValue) {action : Action}
    (hstart : action = .notified → s.stateValue.acting = false)
    (hnext : (execution cycle).next s action = some t) :
    ExecutionStep.entered ⟨s, action, t⟩ ++ s.phase.pendingEntry = t.phase.pendingEntry := by
  cases action with
  | select =>
    obtain ⟨event, rest, hphase, -, ⟨-, rfl⟩ | ⟨source, transition, -, rfl⟩⟩ :=
      select_spec hs hnext
    · rfl
    · simp [ExecutionStep.entered, hphase, Phase.pendingEntry]
  | leave =>
    obtain ⟨event, source, transition, target, hphase, -, -, rfl⟩ := leave_spec hs hnext
    simp [ExecutionStep.entered, hphase, Phase.pendingEntry]
  | enter =>
    obtain ⟨event, source, transition, target, hphase, -, rfl⟩ := enter_spec hs hnext
    simp [ExecutionStep.entered, hphase, Phase.pendingEntry, List.filter_singleton,
      PackmlState.state]
  | notified =>
    obtain ⟨hphase, ⟨hacting, -⟩ | ⟨hacting, rfl⟩⟩ := notified_spec hs hnext
    · simp [hstart rfl] at hacting
    · simp [ExecutionStep.entered, hphase, Phase.pendingEntry, hacting]
  | post cmd => rw [(phase_step hnext (by simp)).1]; rfl
  | finish activation code => rw [(phase_step hnext (by simp)).1]; rfl
  | changeMode mode => rw [(phase_step hnext (by simp)).1]; rfl
  | modeSwitched => rw [(phase_step hnext (by simp)).1]; rfl

/-! ### The accounts of a run -/

theorem codesOf_cons (activation : Activation) (step : ExecutionStep)
    (steps : List ExecutionStep) :
    codesOf activation (step :: steps) =
      (step.returned activation).toList ++ codesOf activation steps := by
  cases hreturned : step.returned activation with
  | none => simp [codesOf, hreturned]
  | some code => simp [codesOf, hreturned]

/-- A step that starts and ends no operation keeps the accounts. -/
theorem Accounts.frame (hs : Accounts r) {action : Action}
    (hrunning : t.running = r.current.running)
    (hactivations : t.activations = r.current.activations)
    (hcommands : ∀ posted ∈ ExecutionStep.posted ⟨r.current, action, t⟩,
      ∃ number, posted.origin = .command number)
    (hreturned : ∀ activation code, action ≠ .finish activation code)
    (hentered : ExecutionStep.entered ⟨r.current, action, t⟩ ++ r.current.phase.pendingEntry =
      t.phase.pendingEntry) : Accounts (r.push action t) := by
  have hstarted : activationsOf (r.push action t).steps = activationsOf r.steps := by
    simp [activationsOf, TransitionSystem.Recorded.push, ExecutionStep.started, hrunning]
  have hcodes : ∀ activation,
      codesOf activation (r.push action t).steps = codesOf activation r.steps := by
    intro activation
    have hnone : ExecutionStep.returned ⟨r.current, action, t⟩ activation = none := by
      unfold ExecutionStep.returned
      split
      · rename_i finished code heq
        exact absurd heq (hreturned finished code)
      · rfl
    rw [TransitionSystem.Recorded.push, codesOf_cons, hnone]
    rfl
  have hevents : ∀ activation,
      eventsOf activation (r.push action t).steps = eventsOf activation r.steps := by
    intro activation
    rw [TransitionSystem.Recorded.push, eventsOf_cons, List.append_left_eq_self,
      List.filter_eq_nil_iff]
    intro posted hposted
    obtain ⟨number, horigin⟩ := hcommands posted hposted
    simp [horigin]
  constructor
  case entered =>
    rw [hstarted]
    simp only [TransitionSystem.Recorded.push, entriesOf, List.flatMap_cons]
    rw [show r.steps.flatMap ExecutionStep.entered = _ from hs.entered, ← List.append_assoc,
      hentered]
  case distinct => exact hstarted ▸ hs.distinct
  case numbered =>
    rw [hstarted]
    exact fun activation hmem ↦ hactivations ▸ hs.numbered activation hmem
  case running =>
    rw [hstarted]
    exact fun activation hmem ↦ hs.running activation (hrunning ▸ hmem)
  case unstarted =>
    intro activation hmem
    rw [hcodes, hevents]
    exact hs.unstarted activation (hstarted ▸ hmem)
  case posted =>
    intro activation hmem
    have hposted := hs.posted activation (hstarted ▸ hmem)
    unfold PostedOnce at hposted ⊢
    rwa [hcodes, hevents, show (r.push action t).current.running = _ from hrunning]

/-- The start of an operation opens the account of a new activation. -/
theorem Accounts.start (hs : Accounts r)
    (hphase : r.current.phase = .notifying r.current.stateValue)
    (hacting : r.current.stateValue.acting = true) (hnone : r.current.running = [])
    (ht : t = { r.current with
      phase := .idle
      running := r.current.running ++ [⟨r.current.stateValue, r.current.activations⟩]
      functionState := Function.update r.current.functionState r.current.stateValue
        (some ⟨r.current.stateValue, r.current.activations⟩)
      activations := r.current.activations + 1 }) : Accounts (r.push .notified t) := by
  have hrunning : t.running = [⟨r.current.stateValue, r.current.activations⟩] := by
    simp [ht, hnone]
  have hstarted : activationsOf (r.push .notified t).steps =
      ⟨r.current.stateValue, r.current.activations⟩ :: activationsOf r.steps := by
    simp [activationsOf, TransitionSystem.Recorded.push, ExecutionStep.started, hrunning, hnone]
  have hnew : (⟨r.current.stateValue, r.current.activations⟩ : Activation) ∉
      activationsOf r.steps := fun hmem ↦ Nat.lt_irrefl _ (hs.numbered _ hmem)
  have hrecords : ∀ activation,
      codesOf activation (r.push .notified t).steps = codesOf activation r.steps ∧
        eventsOf activation (r.push .notified t).steps = eventsOf activation r.steps := by
    intro activation
    constructor
    · rw [TransitionSystem.Recorded.push, codesOf_cons]
      rfl
    · rw [TransitionSystem.Recorded.push, eventsOf_cons]
      simp [ExecutionStep.posted, ht]
  constructor
  case entered =>
    have hentered := hs.entered
    rw [hphase, Phase.pendingEntry, if_pos hacting] at hentered
    have hidle : (r.push .notified t).current.phase = .idle := by
      simp [TransitionSystem.Recorded.push, ht]
    rw [hstarted, hidle]
    exact hentered
  case distinct =>
    rw [hstarted]
    exact List.nodup_cons.mpr ⟨hnew, hs.distinct⟩
  case numbered =>
    rw [hstarted]
    have hcount : (r.push .notified t).current.activations = r.current.activations + 1 := by
      simp [TransitionSystem.Recorded.push, ht]
    intro activation hmem
    rw [hcount]
    rcases List.mem_cons.mp hmem with rfl | hold
    · exact Nat.lt_succ_self _
    · exact Nat.lt_succ_of_lt (hs.numbered _ hold)
  case running =>
    rw [hstarted]
    intro activation hmem
    rw [show (r.push .notified t).current.running = _ from hrunning] at hmem
    exact List.mem_singleton.mp hmem ▸ List.mem_cons_self
  case unstarted =>
    intro activation hmem
    rw [hstarted, List.mem_cons, not_or] at hmem
    rw [(hrecords activation).1, (hrecords activation).2]
    exact hs.unstarted activation hmem.2
  case posted =>
    intro activation hmem
    unfold PostedOnce
    rw [(hrecords activation).1, (hrecords activation).2,
      show (r.push .notified t).current.running = _ from hrunning]
    rcases List.mem_cons.mp (hstarted ▸ hmem) with rfl | hold
    · rw [if_pos (List.mem_singleton_self _)]
      exact hs.unstarted _ hnew
    · have hposted := hs.posted activation hold
      have hne : activation ∉ [(⟨r.current.stateValue, r.current.activations⟩ : Activation)] :=
        fun h ↦ hnew (List.mem_singleton.mp h ▸ hold)
      rw [PostedOnce, hnone, if_neg (List.not_mem_nil)] at hposted
      rwa [if_neg hne]

/-- The end of an operation closes the account of its activation. -/
theorem Accounts.finish (hs : Accounts r) {activation : Activation} {code : Int}
    (hrunning : r.current.running = [activation])
    (ht : t = { r.current with
      running := r.current.running.erase activation
      queue := r.current.queue ++ [⟨operationEvent code, .operation activation⟩] }) :
    Accounts (r.push (.finish activation code) t) := by
  have hnone : t.running = [] := by simp [ht, hrunning]
  have hstarted : activationsOf (r.push (.finish activation code) t).steps =
      activationsOf r.steps := by
    simp [activationsOf, TransitionSystem.Recorded.push, ExecutionStep.started, hnone]
  have hrecords : ∀ other,
      codesOf other (r.push (.finish activation code) t).steps =
          (if activation = other then [code] else []) ++ codesOf other r.steps ∧
        eventsOf other (r.push (.finish activation code) t).steps =
          (if activation = other then [⟨operationEvent code, .operation activation⟩] else []) ++
            eventsOf other r.steps := by
    intro other
    rw [TransitionSystem.Recorded.push, codesOf_cons, eventsOf_cons]
    by_cases hother : activation = other
    · simp [ExecutionStep.returned, ExecutionStep.posted, ht, hother]
    · simp [ExecutionStep.returned, ExecutionStep.posted, ht, hother]
  have hmem : activation ∈ activationsOf r.steps := hs.running activation (by simp [hrunning])
  constructor
  case entered =>
    have hphase : (r.push (.finish activation code) t).current.phase = r.current.phase := by
      simp [TransitionSystem.Recorded.push, ht]
    rw [hstarted, hphase]
    exact hs.entered
  case distinct => exact hstarted ▸ hs.distinct
  case numbered =>
    rw [hstarted]
    have hcount : (r.push (.finish activation code) t).current.activations =
        r.current.activations := by
      simp [TransitionSystem.Recorded.push, ht]
    exact fun other hother ↦ hcount ▸ hs.numbered other hother
  case running =>
    intro other hother
    rw [show (r.push (.finish activation code) t).current.running = _ from hnone] at hother
    cases hother
  case unstarted =>
    intro other hother
    rw [hstarted] at hother
    have hne : activation ≠ other := fun h ↦ hother (h ▸ hmem)
    rw [(hrecords other).1, (hrecords other).2, if_neg hne, if_neg hne]
    exact hs.unstarted other hother
  case posted =>
    intro other hother
    have hposted := hs.posted other (hstarted ▸ hother)
    unfold PostedOnce at hposted ⊢
    rw [(hrecords other).1, (hrecords other).2,
      show (r.push (.finish activation code) t).current.running = _ from hnone,
      if_neg List.not_mem_nil]
    rw [hrunning] at hposted
    by_cases hsame : activation = other
    · subst hsame
      rw [if_pos (List.mem_singleton_self _)] at hposted
      refine ⟨code, by simp [hposted.1], ?_, ?_⟩
      · intro hcode
        simp [hposted.2, operationEvent, hcode]
      · rintro rfl
        simp [hposted.2, operationEvent]
    · rw [if_neg (fun h ↦ hsame (List.mem_singleton.mp h).symm)] at hposted
      simpa [hsame] using hposted

theorem accounts_step (hlocated : Located cycle r.current r.current.stateValue)
    (hsingle : SingleOperation r.current) (hs : Accounts r) {action : Action}
    (hnext : (execution cycle).next r.current action = some t) : Accounts (r.push action t) := by
  have hquiet : (∀ activation code, action ≠ .finish activation code) →
      (action = .notified → r.current.stateValue.acting = false) → Accounts (r.push action t) := by
    intro hfinish hstart
    obtain ⟨hrunning, hactivations, hcommands⟩ := quiet_step hlocated hfinish hstart hnext
    exact hs.frame hrunning hactivations hcommands hfinish (entered_step hlocated hstart hnext)
  cases action with
  | finish activation code =>
    obtain ⟨hmem, ht⟩ := finish_spec hnext
    exact hs.finish (hsingle.of_mem hmem).1 ht
  | notified =>
    obtain ⟨hphase, ⟨hacting, ht⟩ | ⟨hacting, -⟩⟩ := notified_spec hlocated hnext
    · have hnone := hsingle.running_eq_nil_of_phase (by simp [hphase, Phase.inState])
      exact hs.start hphase hacting hnone ht
    · exact hquiet (by simp) fun _ ↦ hacting
  | _ => exact hquiet (by simp) (by simp)

/-- A machine that enters its initial state with no operation running has no accounts. -/
theorem accounts_start (hphase : s.phase = .notifying .aborted) (hrunning : s.running = []) :
    Accounts ⟨s, []⟩ := by
  constructor
  case entered =>
    show [] = s.phase.pendingEntry ++ []
    rw [hphase]
    rfl
  case distinct => exact List.nodup_nil
  case numbered => simp [activationsOf]
  case running => simp [hrunning]
  case unstarted => exact fun _ _ ↦ ⟨rfl, rfl⟩
  case posted => simp [activationsOf]

/-! ### The result -/

/-- While the Qt thread stands in a state and one operation runs at most, the accounts say that
operations are serialised and accounted for. -/
theorem Accounts.operationsAccounted (hs : Accounts r)
    (hlocated : Located cycle r.current r.current.stateValue)
    (hsingle : SingleOperation r.current) : OperationsAccounted r := by
  have hleaf : ∀ activation ∈ r.current.running, r.current.running = [activation] ∧
      activation.state = r.current.stateValue ∧ activation.state.acting = true ∧
        r.current.configuration = chart.path r.current.stateValue.generated := by
    intro activation hmem
    obtain ⟨hrunning, hfuture, hphase⟩ := hsingle.of_mem hmem
    obtain ⟨hstate, hacting, -⟩ := hsingle.future _ _ hfuture
    refine ⟨hrunning, hstate, hstate ▸ hacting, hlocated.configuration_eq ?_⟩
    intro event selection hentering
    simp [hentering, Phase.inState] at hphase
  refine ⟨?_, ?_, hs.entered, hs.distinct, hs.posted, ?_⟩
  · intro activation hmem
    obtain ⟨hrunning, hstate, -, hconfiguration⟩ := hleaf activation hmem
    exact ⟨hrunning, by rw [hconfiguration, chart_activeLeaves_path, hstate]⟩
  · intro state hactive hwait
    refine List.eq_nil_iff_forall_not_mem.mpr fun activation hmem ↦ ?_
    obtain ⟨-, hstate, hacting, hconfiguration⟩ := hleaf activation hmem
    rw [hconfiguration, chart_activeLeaves_path, List.mem_singleton] at hactive
    obtain rfl : state = r.current.stateValue := (PackmlState.simpleState.inj hactive).2
    rw [hstate, hwait] at hacting
    cases hacting
  · intro event selection hphase
    exact hsingle.running_eq_nil_of_phase (by simp [hphase, Phase.inState])

end

end PackML
