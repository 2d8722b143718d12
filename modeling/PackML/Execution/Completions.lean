import PackML.Execution.Operations

/-!
# Which activation a completion belongs to

A `StateCompleteEvent` carries no origin, so a completion transition fires for whatever completion
comes first in the queue. `CompletionAttributed` says that it fires only for the completion that
the current activation of the source has posted. The machine does not guarantee this: a state that
is left by a command or an error while its completion is queued, or while its operation still runs
and returns 0 afterwards, leaves a completion behind that fires in the next acting state
(`stale_completion`).

`CompletesBeforeLeaving` excludes exactly these two steps. Along runs that meet it,
`CompletionsCurrent` is an invariant: the queue holds at most one completion, and then the machine
is idle in the state whose activation posted it. `completions_attributed` follows. The runs begin
with the first activation of a machine and end with its deactivation.
-/

set_option autoImplicit false
set_option relaxedAutoImplicit false

namespace PackML

/-- The completion events in the queue. -/
def Execution.completions (s : Execution) : List PostedEvent :=
  s.queue.filter fun posted ↦ posted.event = .stateCompleteEvent

/-- When the first event of the queue fires a completion transition, it was posted by the
operation of the current activation of the state that the transition leaves. -/
def CompletionAttributed (cycle : Cycle) (s : Execution) : Prop :=
  ∀ event rest source transition, s.phase = .idle → s.queue = event :: rest →
    (source, transition) ∈
      (selectTransitions cycle s.gen.available s.configuration event.event).1 →
    transition.kind = .stateCompleteTransition →
      ∃ (state : State) (activation : Activation), source = state.generated ∧
        state.generated ∈ chart.activeLeaves s.configuration ∧
        s.functionState state = some activation ∧ event.origin = .operation activation

/-- A step that leaves no completion behind: the machine does not begin to leave a state by a
command or an error while the completion of its activation is queued, and an operation that the
machine waits for in order to leave its state does not return 0. -/
def CompletesBeforeLeaving (cycle : Cycle) (s : Execution) : Action → Prop
  | .select =>
    ∀ event rest source transition, s.phase = .idle → s.queue = event :: rest →
      (source, transition) ∈
        (selectTransitions cycle s.gen.available s.configuration event.event).1 →
      transition.kind ≠ .stateCompleteTransition →
        ∀ activation, s.functionState s.stateValue = some activation →
          ∀ posted ∈ rest, posted.event = .stateCompleteEvent →
            posted.origin ≠ .operation activation
  | .finish _ code => (∃ event selection, s.phase = .leaving event selection) → code ≠ 0
  | _ => True

/-- The queue holds no completion, or the machine is idle in a state whose operation has finished
and the only completion is that of its current activation. -/
def CompletionsCurrent (s : Execution) : Prop :=
  s.completions = [] ∨ s.phase = .idle ∧ s.running = [] ∧
    ∃ activation, s.completions = [⟨.stateCompleteEvent, .operation activation⟩] ∧
      s.functionState s.stateValue = some activation

section

variable {cycle : Cycle} {s t : Execution}

/-- Only the state itself has a completion transition, not the super states around it. -/
theorem source_of_completion {state : State} {source : PackmlState}
    {transition : PackmlTransition} (hmem : (source, transition) ∈ candidates cycle state)
    (hkind : transition.kind = .stateCompleteTransition) : source = state.generated := by
  rw [candidates_eq] at hmem
  simp only [List.mem_append, List.mem_map, Prod.mk.injEq] at hmem
  rcases hmem with (⟨other, -, hsource, -⟩ | hmem) | hmem
  · exact hsource.symm
  · split_ifs at hmem
    · obtain ⟨-, rfl⟩ := Prod.mk.injEq .. ▸ List.mem_singleton.mp hmem
      cases hkind
    · cases hmem
  · split_ifs at hmem
    · cases hmem
    · rcases List.mem_cons.mp hmem with heq | hmem
      · obtain ⟨-, rfl⟩ := Prod.mk.injEq .. ▸ heq
        cases hkind
      · obtain ⟨-, rfl⟩ := Prod.mk.injEq .. ▸ List.mem_singleton.mp hmem
        cases hkind

/-- A completion transition is for completions, and other transitions are not. -/
theorem TransitionKind.isFor_stateComplete {kind : TransitionKind} {event : PackmlEvent}
    (hfor : kind.isFor event = true) :
    kind = .stateCompleteTransition ↔ event = .stateCompleteEvent := by
  cases kind <;> cases event <;> simp_all [TransitionKind.isFor]

theorem completionsCurrent_select (hs : Located cycle s s.stateValue)
    (hcurrent : CompletionsCurrent s) (hallowed : CompletesBeforeLeaving cycle s .select)
    (hnext : s.select cycle = some t) : CompletionsCurrent t := by
  obtain ⟨event, rest, hphase, hqueue, hnext⟩ := select_spec hs hnext
  have hcompletions : s.completions =
      (if event.event = .stateCompleteEvent then [event] else []) ++
        rest.filter fun posted ↦ posted.event = .stateCompleteEvent := by
    rw [Execution.completions, hqueue, List.filter_cons]
    split_ifs <;> simp_all
  by_cases hcompletion : event.event = .stateCompleteEvent
  · -- the completion is consumed, and it was the only one
    rw [if_pos hcompletion] at hcompletions
    have hrest : rest.filter (fun posted ↦ posted.event = .stateCompleteEvent) = [] := by
      rcases hcurrent with hnone | ⟨-, -, activation, hsingle, -⟩
      · simp [hcompletions] at hnone
      · simp [hcompletions] at hsingle
        simpa using hsingle.2
    rcases hnext with ⟨-, rfl⟩ | ⟨source, transition, -, rfl⟩
    · exact Or.inl hrest
    · exact Or.inl hrest
  · rw [if_neg hcompletion, List.nil_append] at hcompletions
    rcases hnext with ⟨-, rfl⟩ | ⟨source, transition, hselected, rfl⟩
    · rcases hcurrent with hnone | ⟨-, hrunning, activation, hsingle, hfuture⟩
      · exact Or.inl (hcompletions.symm.trans hnone)
      · exact Or.inr ⟨hphase, hrunning, activation, hcompletions.symm.trans hsingle, hfuture⟩
    · -- a command or an error leaves the state, so its completion is not in the queue
      refine Or.inl ?_
      rcases hcurrent with hnone | ⟨-, -, activation, hsingle, hfuture⟩
      · exact hcompletions.symm.trans hnone
      · have hmem : (⟨.stateCompleteEvent, .operation activation⟩ : PostedEvent) ∈ rest := by
          have : (⟨.stateCompleteEvent, .operation activation⟩ : PostedEvent) ∈ s.completions := by
            simp [hsingle]
          rw [hcompletions] at this
          exact (List.mem_filter.mp this).1
        have hselection : (source, transition) ∈
            (selectTransitions cycle s.gen.available s.configuration event.event).1 := by
          rw [hs.configuration_eq (by simp [hphase]), selectTransitions_path, hselected]
          exact List.mem_singleton_self _
        have hkind : transition.kind ≠ .stateCompleteTransition := fun hkind ↦
          hcompletion ((TransitionKind.isFor_stateComplete (selected_some hselected).2.1).mp hkind)
        exact absurd rfl (hallowed event rest source transition hphase hqueue hselection hkind
          activation hfuture _ hmem rfl)

theorem completionsCurrent_step (hs : Located cycle s s.stateValue) (hsingle : SingleOperation s)
    (hcurrent : CompletionsCurrent s) {action : Action}
    (hallowed : CompletesBeforeLeaving cycle s action)
    (hnext : (execution cycle).next s action = some t) : CompletionsCurrent t := by
  cases action with
  | post cmd =>
    obtain rfl := Option.some.inj hnext
    have hsame : (s.post cmd).completions = s.completions := by
      simp [Execution.completions, Execution.post]
    unfold CompletionsCurrent
    rw [hsame]
    exact hcurrent
  | finish activation code =>
    obtain ⟨hmem, rfl⟩ := finish_spec hnext
    obtain ⟨hrunning, hfuture, hphase⟩ := hsingle.of_mem hmem
    have hnone : s.completions = [] := by
      refine hcurrent.resolve_right ?_
      rintro ⟨-, hempty, -⟩
      simp [hempty] at hrunning
    by_cases hcode : code = 0
    · have hidle : s.phase = .idle := by
        cases hcase : s.phase with
        | idle => rfl
        | leaving event selection => exact absurd hcode (hallowed ⟨event, selection, hcase⟩)
        | entering event selection => simp [hcase, Phase.inState] at hphase
        | notifying state => simp [hcase, Phase.inState] at hphase
      refine Or.inr ⟨hidle, by simp [hrunning], activation, ?_, hfuture⟩
      simpa [Execution.completions, operationEvent, hcode] using hnone
    · refine Or.inl ?_
      simpa [Execution.completions, operationEvent, hcode] using hnone
  | select => exact completionsCurrent_select hs hcurrent hallowed hnext
  | leave =>
    obtain ⟨event, source, transition, target, hphase, -, -, rfl⟩ := leave_spec hs hnext
    exact Or.inl (hcurrent.resolve_right (by simp [hphase]))
  | enter =>
    obtain ⟨event, source, transition, target, hphase, -, rfl⟩ := enter_spec hs hnext
    exact Or.inl (hcurrent.resolve_right (by simp [hphase]))
  | notified =>
    obtain ⟨hphase, hnext⟩ := notified_spec hs hnext
    have hnone : s.completions = [] := hcurrent.resolve_right (by simp [hphase])
    rcases hnext with ⟨-, rfl⟩ | ⟨-, rfl⟩
    · exact Or.inl hnone
    · exact Or.inl hnone
  | changeMode mode =>
    obtain ⟨-, ⟨-, rfl⟩ | ⟨-, rfl⟩⟩ := changeMode_spec hnext
    · exact hcurrent
    · exact hcurrent
  | modeSwitched =>
    obtain ⟨mode, -, rfl⟩ := modeSwitched_spec hnext
    exact hcurrent

theorem completionsCurrent_of_reachableBy
    (hrun : (execution cycle).ReachableBy (CompletesBeforeLeaving cycle) s) :
    CompletionsCurrent s := by
  refine TransitionSystem.ReachableBy.invariant_of_reachable
    (fun s hs ↦ And.intro (located_stateValue hs) (singleOperation_of_reachable hs)) ?_ ?_ hrun
  · rintro s rfl
    exact Or.inl rfl
  · intro s action t hbase hcurrent hallowed hnext
    exact completionsCurrent_step hbase.1 hbase.2 hcurrent hallowed hnext

/-- Completion events are not misattributed along the runs in which no step leaves a completion
behind. -/
theorem completions_attributed
    (hrun : (execution cycle).ReachableBy (CompletesBeforeLeaving cycle) s) :
    CompletionAttributed cycle s := by
  intro event rest source transition hphase hqueue hselection hkind
  have hs := located_stateValue hrun.reachable
  have hconfiguration := hs.configuration_eq (by simp [hphase])
  rw [hconfiguration, selectTransitions_path, Option.mem_toList] at hselection
  have hevent := (TransitionKind.isFor_stateComplete (selected_some hselection).2.1).mp hkind
  have hmem : event ∈ s.completions := by
    simp [Execution.completions, hqueue, hevent]
  rcases completionsCurrent_of_reachableBy hrun with hnone | ⟨-, -, activation, hsingle, hfuture⟩
  · simp [hnone] at hmem
  · obtain rfl := List.mem_singleton.mp (hsingle ▸ hmem)
    refine ⟨s.stateValue, activation, ?_, ?_, hfuture, rfl⟩
    · exact source_of_completion (List.mem_of_find?_eq_some hselection) hkind
    · rw [hconfiguration, chart_activeLeaves_path]
      exact List.mem_singleton_self _

end

/-- CLEARING is entered and its operation completes. -/
def clearingRun : List Action :=
  [.changeMode .manual, .modeSwitched, .notified, .post .clear, .select, .leave, .enter,
    .notified, .finish ⟨.clearing, 0⟩ 0]

theorem completions_attributed_clearingRun :
    ∃ s, (execution .singleCycle).runFrom .activated clearingRun = some s ∧
      CompletionAttributed .singleCycle s := by
  have hsome : ((execution .singleCycle).runFrom .activated clearingRun).isSome = true := rfl
  obtain ⟨s, hrun⟩ := Option.isSome_iff_exists.mp hsome
  have hallowed : (execution .singleCycle).AllowedAlong (CompletesBeforeLeaving .singleCycle)
      clearingRun .activated := by
    refine ⟨trivial, trivial, trivial, trivial, ?_, trivial, trivial, trivial, ?_, trivial⟩
    · -- no operation was started before CLEARING
      intro event rest source transition hphase hqueue hselection hkind activation hfuture
      cases hfuture
    · rintro ⟨event, selection, hphase⟩
      cases hphase
  exact ⟨s, hrun, completions_attributed <|
    TransitionSystem.reachableBy_of_runFrom (.initial rfl) clearingRun hallowed hrun⟩

/-- CLEARING is left by ABORT while its operation runs, which then returns 0. -/
def abortedClearingRun : List Action :=
  [.changeMode .manual, .modeSwitched, .notified, .post .clear, .select, .leave, .enter,
    .notified, .post .abort, .select, .finish ⟨.clearing, 0⟩ 0, .leave, .enter, .notified]

/-- The completion of the operation of CLEARING fires the completion transition of ABORTING, whose
own operation has not finished. -/
theorem stale_completion :
    ∃ s, (execution .singleCycle).runFrom .activated abortedClearingRun = some s ∧
      (execution .singleCycle).Reachable s ∧ ¬ CompletionAttributed .singleCycle s := by
  have hend : ((execution .singleCycle).runFrom .activated abortedClearingRun).map
      (fun s ↦ (s.phase, s.queue,
        (selectTransitions .singleCycle s.gen.available s.configuration .stateCompleteEvent).1,
        s.functionState .aborting)) =
      some (.idle, [⟨.stateCompleteEvent, .operation ⟨.clearing, 0⟩⟩],
        [(State.aborting.generated, ⟨.stateCompleteTransition, State.aborted.generated⟩)],
        some ⟨.aborting, 1⟩) := rfl
  obtain ⟨s, hrun, hs⟩ := Option.map_eq_some_iff.mp hend
  simp only [Prod.mk.injEq] at hs
  obtain ⟨hphase, hqueue, hselection, hfuture⟩ := hs
  refine ⟨s, hrun, TransitionSystem.reachable_of_runFrom (.initial rfl) _ hrun, ?_⟩
  intro hattributed
  obtain ⟨state, activation, hsource, -, hactivation, horigin⟩ :=
    hattributed _ _ _ _ hphase hqueue (hselection ▸ List.mem_singleton_self _) rfl
  obtain rfl := (PackmlState.simpleState.inj hsource).2
  rw [hfuture] at hactivation
  obtain rfl := Option.some.inj hactivation
  cases horigin

end PackML
