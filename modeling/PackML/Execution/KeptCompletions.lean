import PackML.Library.History
import PackML.Execution.InstalledMode
import PackML.Execution.Operations

/-!
# No completion is lost

`CompletionKept` lists where the event of the current activation of an acting leaf can be: the
operation has not been started or has not finished, its event is in the queue, the machine is
leaving the state for this event, or the event was a completion that a recorded step consumed while
the target of the completion transition was disabled by the mode.

Only EXECUTE and RESETTING are allowed to fail (`OnlyExecuteAndResettingFail`). Then every error in
the queue is that of one of these two (`PermittedErrors`), and an error always finds a transition,
because both are abortable and every mode makes ABORTING available; so what is consumed without a
transition is a completion. `completionKept_step` follows the event through one step, and
`no_completion_lost` is the result for every run.
-/

set_option autoImplicit false
set_option relaxedAutoImplicit false

namespace PackML

/-! ### Statements -/

/-- The functions of EXECUTE and RESETTING may return any code, the others return 0. -/
def OnlyExecuteAndResettingFail : Action → Prop
  | .finish activation code => code = 0 ∨ activation.state ∈ [.execute, .resetting]
  | _ => True

instance : DecidablePred OnlyExecuteAndResettingFail
  | .finish activation code =>
    inferInstanceAs (Decidable (code = 0 ∨ activation.state ∈ [.execute, .resetting]))
  | .post _ | .select | .leave | .enter | .notified | .changeMode _ | .modeSwitched =>
    inferInstanceAs (Decidable True)

/-- A step takes the completion of an activation from the queue while the target of the completion
transition of the state is disabled by the mode. -/
def ConsumedUnavailable (cycle : Cycle) (state : State) (activation : Activation)
    (step : TransitionSystem.Step Execution Action) : Prop :=
  step.action = .select ∧
    step.before.queue.head? = some ⟨.stateCompleteEvent, .operation activation⟩ ∧
    ∃ target : State,
      ⟨.stateCompleteTransition, target.generated⟩ ∈ cycle.transitions state.generated ∧
        step.before.gen.currentMode.availableStates.lookup target = some false

/-- Where the event of the current activation of an acting leaf is. -/
inductive CompletionKept (cycle : Cycle) (r : TransitionSystem.Recorded Execution Action)
    (state : State) : Prop
  | notStarted (hphase : r.current.phase = .notifying state)
  | unfinished {activation : Activation}
      (hcurrent : r.current.functionState state = some activation)
      (hrunning : activation ∈ r.current.running)
  | queued {activation : Activation} {event : PackmlEvent}
      (hcurrent : r.current.functionState state = some activation)
      (hqueued : ⟨event, .operation activation⟩ ∈ r.current.queue)
  | leaving {activation : Activation} {event : PackmlEvent} {selection : Selection}
      (hcurrent : r.current.functionState state = some activation)
      (hphase : r.current.phase = .leaving ⟨event, .operation activation⟩ selection)
  | consumed {activation : Activation} {step : TransitionSystem.Step Execution Action}
      (hcurrent : r.current.functionState state = some activation) (hstep : step ∈ r.steps)
      (hconsumed : ConsumedUnavailable cycle state activation step)

/-- The events that operations have posted are completions, and errors of EXECUTE or RESETTING. -/
def PermittedErrors (s : Execution) : Prop :=
  ∀ posted ∈ s.queue, ∀ activation, posted.origin = .operation activation →
    posted.event = .stateCompleteEvent ∨
      ∃ code, posted.event = .errorEvent code ∧ activation.state ∈ [.execute, .resetting]

section

variable {cycle : Cycle} {s t : Execution} {r : TransitionSystem.Recorded Execution Action}

/-! ### The events in the queue -/

/-- A step other than the posts leaves in the queue only what stood there. -/
theorem queue_subset (hlocated : Located cycle s s.stateValue) {action : Action}
    (hpost : ∀ cmd, action ≠ .post cmd)
    (hfinish : ∀ activation code, action ≠ .finish activation code)
    (hnext : (execution cycle).next s action = some t) : t.queue ⊆ s.queue := by
  by_cases hselect : action = .select
  · subst hselect
    obtain ⟨event, rest, -, hqueue, ⟨-, rfl⟩ | ⟨source, transition, -, rfl⟩⟩ :=
      select_spec hlocated hnext
    · exact hqueue ▸ List.subset_cons_self event rest
    · exact hqueue ▸ List.subset_cons_self event rest
  · rw [(stepFrame hlocated hnext).queue hpost hfinish hselect]
    exact List.Subset.refl _

theorem permittedErrors_step (hlocated : Located cycle s s.stateValue) (hs : PermittedErrors s)
    {action : Action} (hallowed : OnlyExecuteAndResettingFail action)
    (hnext : (execution cycle).next s action = some t) : PermittedErrors t := by
  have hkeep : (∀ cmd, action ≠ .post cmd) →
      (∀ activation code, action ≠ .finish activation code) → PermittedErrors t := by
    intro hpost hfinish posted hposted
    exact hs posted (queue_subset hlocated hpost hfinish hnext hposted)
  cases action with
  | post cmd =>
    obtain rfl := Option.some.inj hnext
    intro posted hposted activation horigin
    rcases List.mem_append.mp hposted with hold | hnew
    · exact hs posted hold activation horigin
    · obtain rfl := List.mem_singleton.mp hnew
      cases horigin
  | finish activation code =>
    obtain ⟨-, rfl⟩ := finish_spec hnext
    intro posted hposted other horigin
    rcases List.mem_append.mp hposted with hold | hnew
    · exact hs posted hold other horigin
    · obtain rfl := List.mem_singleton.mp hnew
      obtain rfl : activation = other := by simpa using horigin
      by_cases hcode : code = 0
      · exact Or.inl (by simp [operationEvent, hcode])
      · exact Or.inr ⟨code, by simp [operationEvent, hcode], hallowed.resolve_left hcode⟩
  | _ => exact hkeep (by simp) (by simp)

/-! ### What is consumed without a transition -/

/-- Every acting state has a completion transition, into a PackML state. -/
theorem completion_transition (cycle : Cycle) {state : State} (hacting : state.acting = true) :
    ∃ target : State, flatTarget cycle state .stateCompleteEvent = some target ∧
      ⟨.stateCompleteTransition, target.generated⟩ ∈ cycle.transitions state.generated := by
  rw [transitions_generated]
  cases state with
  | execute => exact ⟨cycle.executeTarget, rfl, by simp⟩
  | undefined | aborted | stopped | idle | held | suspended | complete => cases hacting
  | _ => exact ⟨_, rfl, List.mem_singleton_self _⟩

/-- A machine without a mode is in no acting state. -/
theorem moded_of_acting (hmoded : Unmoded s ∨ Moded s) (hacting : s.stateValue.acting = true) :
    Moded s := by
  refine hmoded.resolve_left fun hunmoded ↦ ?_
  rw [hunmoded.stateValue] at hacting
  cases hacting

/-- A completion for which nothing is selected finds the target of the completion transition
disabled by the mode. -/
theorem unavailable_of_completion (hmoded : Moded s) (hacting : s.stateValue.acting = true)
    (hnone : selected cycle s.gen.available s.stateValue .stateCompleteEvent = none) :
    ∃ target : State,
      ⟨.stateCompleteTransition, target.generated⟩ ∈ cycle.transitions s.stateValue.generated ∧
        s.gen.currentMode.availableStates.lookup target = some false := by
  obtain ⟨target, hflat, htransition⟩ := completion_transition cycle hacting
  have hunavailable := (selected_none_iff _ _ _ _).mp hnone target hflat
  exact ⟨target, htransition, hmoded.lookup (flatTarget_ne_undefined hflat) hunavailable⟩

/-- An error in EXECUTE or RESETTING is never consumed without a transition. -/
theorem selected_error (hmoded : Moded s) (hstate : s.stateValue ∈ [.execute, .resetting])
    (code : Int) : selected cycle s.gen.available s.stateValue (.errorEvent code) ≠ none := by
  intro hnone
  have hflat : flatTarget cycle s.stateValue (.errorEvent code) = some .aborting := by
    rcases List.mem_cons.mp hstate with hexecute | hresetting
    · rw [hexecute]
      rfl
    · rw [List.mem_singleton.mp hresetting]
      rfl
  have hunavailable := (selected_none_iff _ _ _ _).mp hnone _ hflat
  rw [hmoded.toBool (by decide) (by decide)] at hunavailable
  cases hunavailable

/-! ### One step -/

/-- A step that keeps the phase, the futures, the operations that run and the events in the queue
keeps every event where it is. -/
theorem CompletionKept.frame {state : State} (hs : CompletionKept cycle r state) {action : Action}
    (hphase : t.phase = r.current.phase) (hfuture : t.functionState = r.current.functionState)
    (hrunning : t.running = r.current.running) (hqueue : r.current.queue ⊆ t.queue) :
    CompletionKept cycle (r.push action t) state := by
  cases hs with
  | notStarted hnotifying => exact .notStarted (hphase.trans hnotifying)
  | unfinished hcurrent hruns =>
    exact .unfinished ((congrFun hfuture state).trans hcurrent) (hrunning ▸ hruns)
  | queued hcurrent hqueued =>
    exact .queued ((congrFun hfuture state).trans hcurrent) (hqueue hqueued)
  | leaving hcurrent hleaving =>
    exact .leaving ((congrFun hfuture state).trans hcurrent) (hphase.trans hleaving)
  | consumed hcurrent hstep hconsumed =>
    exact .consumed ((congrFun hfuture state).trans hcurrent) (List.mem_cons_of_mem _ hstep)
      hconsumed

/-- The end of an operation puts its event into the queue. -/
theorem CompletionKept.finish (hsingle : SingleOperation r.current)
    (hs : CompletionKept cycle r r.current.stateValue) {activation : Activation} {code : Int}
    (hmem : activation ∈ r.current.running)
    (ht : t = { r.current with
      running := r.current.running.erase activation
      queue := r.current.queue ++ [⟨operationEvent code, .operation activation⟩] }) :
    CompletionKept cycle (r.push (.finish activation code) t) r.current.stateValue := by
  subst ht
  cases hs with
  | notStarted hphase => exact .notStarted hphase
  | unfinished hcurrent hrunning =>
    obtain ⟨-, hfuture, -⟩ := hsingle.of_mem hmem
    exact .queued hfuture (List.mem_append_right _ (List.mem_singleton_self _))
  | queued hcurrent hqueued => exact .queued hcurrent (List.mem_append_left _ hqueued)
  | leaving hcurrent hphase => exact .leaving hcurrent hphase
  | consumed hcurrent hstep hconsumed =>
    exact .consumed hcurrent (List.mem_cons_of_mem _ hstep) hconsumed

/-- The selection step takes the event of the leaf only to leave the leaf for it, or because the
mode disables the target of its completion. -/
theorem CompletionKept.select (hlocated : Located cycle r.current r.current.stateValue)
    (hsingle : SingleOperation r.current) (hmoded : Moded r.current)
    (hpermitted : PermittedErrors r.current) (hacting : r.current.stateValue.acting = true)
    (hs : CompletionKept cycle r r.current.stateValue) (hnext : r.current.select cycle = some t) :
    CompletionKept cycle (r.push .select t) r.current.stateValue := by
  obtain ⟨event, rest, hidle, hqueue, hselect⟩ := select_spec hlocated hnext
  have hfuture : t.functionState = r.current.functionState := by
    rcases hselect with ⟨-, rfl⟩ | ⟨source, transition, -, rfl⟩ <;> rfl
  cases hs with
  | notStarted hphase => simp [hidle] at hphase
  | leaving hcurrent hphase => simp [hidle] at hphase
  | consumed hcurrent hstep hconsumed =>
    exact .consumed ((congrFun hfuture _).trans hcurrent) (List.mem_cons_of_mem _ hstep) hconsumed
  | unfinished hcurrent hrunning =>
    have hsame : t.running = r.current.running := by
      rcases hselect with ⟨-, rfl⟩ | ⟨source, transition, -, rfl⟩ <;> rfl
    exact .unfinished ((congrFun hfuture _).trans hcurrent) (hsame ▸ hrunning)
  | @queued activation posted hcurrent hqueued =>
    have hcurrent' := (congrFun hfuture r.current.stateValue).trans hcurrent
    rcases List.mem_cons.mp (hqueue ▸ hqueued) with rfl | hrest
    · rcases hselect with ⟨hnone, rfl⟩ | ⟨source, transition, -, rfl⟩
      · -- nothing is selected, so it is no error, and the target of the completion is disabled
        rcases hpermitted _ hqueued activation rfl with hcompletion | ⟨code, herror, hstate⟩
        · obtain rfl : posted = .stateCompleteEvent := hcompletion
          exact .consumed hcurrent' List.mem_cons_self
            ⟨rfl, by simp [hqueue], unavailable_of_completion hmoded hacting hnone⟩
        · obtain rfl : posted = .errorEvent code := herror
          rw [(hsingle.future _ _ hcurrent).1] at hstate
          exact absurd hnone (selected_error hmoded hstate code)
      · exact .leaving hcurrent' rfl
    · have hsame : t.queue = rest := by
        rcases hselect with ⟨-, rfl⟩ | ⟨source, transition, -, rfl⟩ <;> rfl
      exact .queued hcurrent' (hsame ▸ hrest)

/-- What is known of every state in the runs considered. -/
structure KeptBase (cycle : Cycle) (s : Execution) : Prop where
  located : Located cycle s s.stateValue
  single : SingleOperation s
  moded : Unmoded s ∨ Moded s
  permitted : PermittedErrors s

/-- In an acting state that has not been left, the event of the activation is kept. -/
def KeptInLeaf (cycle : Cycle) (r : TransitionSystem.Recorded Execution Action) : Prop :=
  r.current.stateValue.acting = true →
    (∀ event selection, r.current.phase ≠ .entering event selection) →
      CompletionKept cycle r r.current.stateValue

theorem completionKept_step (hbase : KeptBase cycle r.current) (hs : KeptInLeaf cycle r)
    {action : Action} (hnext : (execution cycle).next r.current action = some t) :
    KeptInLeaf cycle (r.push action t) := by
  intro hacting hphase
  cases action with
  | post cmd =>
    obtain rfl := Option.some.inj hnext
    exact (hs hacting hphase).frame rfl rfl rfl (List.subset_append_left _ _)
  | finish activation code =>
    obtain ⟨hmem, rfl⟩ := finish_spec hnext
    exact (hs hacting hphase).finish hbase.single hmem rfl
  | select =>
    obtain ⟨event, rest, hidle, -, hselect⟩ := select_spec hbase.located hnext
    have hvalue : t.stateValue = r.current.stateValue := by
      rcases hselect with ⟨-, rfl⟩ | ⟨source, transition, -, rfl⟩ <;> rfl
    have hacting' : r.current.stateValue.acting = true := hvalue ▸ hacting
    show CompletionKept cycle (r.push .select t) t.stateValue
    rw [hvalue]
    exact (hs hacting' (by simp [hidle])).select hbase.located hbase.single
      (moded_of_acting hbase.moded hacting') hbase.permitted hacting' hnext
  | leave =>
    obtain ⟨event, source, transition, target, -, -, -, rfl⟩ := leave_spec hbase.located hnext
    exact absurd rfl (hphase _ _)
  | enter =>
    obtain ⟨event, source, transition, target, -, -, rfl⟩ := enter_spec hbase.located hnext
    exact .notStarted rfl
  | notified =>
    obtain ⟨-, ⟨-, rfl⟩ | ⟨hwait, rfl⟩⟩ := notified_spec hbase.located hnext
    · exact .unfinished (Function.update_self ..)
        (List.mem_append_right _ (List.mem_singleton_self _))
    · exact absurd (hwait.symm.trans hacting) Bool.false_ne_true
  | changeMode mode =>
    obtain ⟨-, ⟨-, rfl⟩ | ⟨-, rfl⟩⟩ := changeMode_spec hnext
    · exact (hs hacting hphase).frame rfl rfl rfl (List.Subset.refl _)
    · exact (hs hacting hphase).frame rfl rfl rfl (List.Subset.refl _)
  | modeSwitched =>
    obtain ⟨mode, -, rfl⟩ := modeSwitched_spec hnext
    exact (hs hacting hphase).frame rfl rfl rfl (List.Subset.refl _)

/-! ### The result -/

theorem keptBase_of_reachableBy
    (hrun : (execution cycle).ReachableBy (fun _ action ↦ OnlyExecuteAndResettingFail action) s) :
    KeptBase cycle s := by
  have hpermitted : PermittedErrors s := by
    refine TransitionSystem.ReachableBy.invariant_of_reachable
      (fun s hs ↦ located_stateValue hs) ?_ ?_ hrun
    · rintro s rfl posted hposted
      cases hposted
    · intro s action t hlocated hs hallowed hnext
      exact permittedErrors_step hlocated hs hallowed hnext
  exact ⟨located_stateValue hrun.reachable, singleOperation_of_reachable hrun.reachable,
    moded_of_reachable hrun.reachable, hpermitted⟩

/-- An active leaf is the stored state, which has not been left. -/
theorem Located.of_activeLeaf (hs : Located cycle s s.stateValue) {state : State}
    (hactive : state.generated ∈ chart.activeLeaves s.configuration) :
    state = s.stateValue ∧ ∀ event selection, s.phase ≠ .entering event selection := by
  obtain ⟨-, -, hstanding⟩ := hs
  generalize s.phase = phase at hstanding
  generalize s.configuration = configuration at hstanding hactive
  have hpath : state.generated ∈ chart.path s.stateValue.generated → state = s.stateValue := by
    intro hmem
    rcases owner_of_mem_path hmem with ⟨superState, hsuper⟩ | hsimple
    · cases hsuper
    · exact (PackmlState.simpleState.inj hsimple).2
  have hmem := (List.mem_filter.mp hactive).1
  cases hstanding with
  | idle => exact ⟨hpath hmem, by simp⟩
  | leaving htransfer => exact ⟨hpath hmem, by simp⟩
  | entering htransfer =>
    have hstate := hpath (List.mem_filter.mp hmem).1
    exact absurd (hstate ▸ hmem) (chart.not_mem_exitStates_of_atomic htransfer.source_mem)
  | notifying => exact ⟨hpath hmem, by simp⟩

/-- No completion is lost. -/
theorem no_completion_lost
    (hrun : (execution cycle).recorded.ReachableBy
      (fun _ action ↦ OnlyExecuteAndResettingFail action) r) {state : State}
    (hactive : state.generated ∈ chart.activeLeaves r.current.configuration)
    (hacting : state.acting = true) : CompletionKept cycle r state := by
  have hkept : KeptInLeaf cycle r := by
    refine TransitionSystem.ReachableBy.recorded_invariant
      (fun s hs ↦ keptBase_of_reachableBy hs) ?_ ?_ hrun
    · rintro s rfl hacting
      cases hacting
    · intro r action t hbase hs _ hnext
      exact completionKept_step hbase hs hnext
  obtain ⟨rfl, hphase⟩ := (keptBase_of_reachableBy hrun.current).located.of_activeLeaf hactive
  exact hkept hacting hphase

end

/-! ### A run -/

/-- The machine is taken to EXECUTE in MAINTENANCE, where its completion is consumed. -/
def maintenanceExecuteRun : List Action :=
  [.changeMode .maintenance, .modeSwitched, .notified, .post .clear, .select, .leave, .enter,
    .notified, .finish ⟨.clearing, 0⟩ 0, .select, .leave, .enter, .notified, .post .reset, .select,
    .leave, .enter, .notified, .finish ⟨.resetting, 1⟩ 0, .select, .leave, .enter, .notified,
    .post .start, .select, .leave, .enter, .notified, .finish ⟨.starting, 2⟩ 0, .select, .leave,
    .enter, .notified, .finish ⟨.execute, 3⟩ 0, .select]

theorem no_completion_lost_maintenanceExecuteRun :
    ∃ r, (execution .singleCycle).recorded.runFrom ⟨.activated, []⟩ maintenanceExecuteRun =
        some r ∧
      r.current.stateValue = .execute ∧ r.current.queue = [] ∧
        CompletionKept .singleCycle r .execute := by
  have hend : ((execution .singleCycle).recorded.runFrom ⟨.activated, []⟩
      maintenanceExecuteRun).map
        (fun r ↦ (r.current.stateValue, r.current.queue,
          chart.activeLeaves r.current.configuration)) =
      some (.execute, [], [State.execute.generated]) := rfl
  obtain ⟨r, hrun, hr⟩ := Option.map_eq_some_iff.mp hend
  simp only [Prod.mk.injEq] at hr
  obtain ⟨hvalue, hqueue, hactive⟩ := hr
  have hinitial : (execution .singleCycle).recorded.initial ⟨.activated, []⟩ := ⟨rfl, rfl⟩
  have hallowed : (execution .singleCycle).recorded.AllowedAlong
      (fun _ action ↦ OnlyExecuteAndResettingFail action) maintenanceExecuteRun
        ⟨.activated, []⟩ := by
    decide +kernel
  refine ⟨r, hrun, hvalue, hqueue, no_completion_lost
    (TransitionSystem.reachableBy_of_runFrom (.initial hinitial) _ hallowed hrun) ?_ rfl⟩
  rw [hactive]
  exact List.mem_singleton_self _

end PackML
