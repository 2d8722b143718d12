import PackML.Execution.Operations
import PackML.Execution.TruthfulVerdicts

/-!
# The call of a single caller returns

Every event that is in front of the event of a call leaves the queue: the Qt thread finishes the
transition it is carrying out, which may wait for an operation (`comes_to_rest`), and then takes the
first event. The events posted meanwhile go to the end of the queue, so that an induction on the
events in front shows that the call gets its verdict (`becomes_ready`). `call_can_return` is the
result: a call of a machine that runs returns by its own statements, steps of the Qt thread and the
ends of operations, in every run of a single caller.
-/

set_option autoImplicit false
set_option relaxedAutoImplicit false

namespace PackML

/-! ### The Qt thread comes to rest -/

/-- The steps that end a transition: those of the Qt thread, and ends of operations. -/
def Settles : Action → Prop
  | .finish _ _ | .leave | .enter | .notified => True
  | .post _ | .select | .changeMode _ | .modeSwitched => False

/-- The Qt thread can become idle with these events at the beginning of its queue. -/
abbrev ComesToRest (cycle : Cycle) (events : List PostedEvent) : Execution → Prop :=
  (execution cycle).CanReach Settles fun t ↦ t.phase = .idle ∧ events <+: t.queue

section Rest

variable {cycle : Cycle} {s : Execution} {events : List PostedEvent}

theorem comesToRest_of_notifying {state : State} (hphase : s.phase = .notifying state)
    (hqueue : events <+: s.queue) : ComesToRest cycle events s := by
  obtain ⟨t, hnext⟩ := exists_notified hphase
  have hstep : (execution cycle).next s .notified = some t := hnext
  refine .of_step hstep trivial (.here ?_)
  unfold Execution.notified at hnext
  rw [hphase] at hnext
  dsimp only at hnext
  split at hnext
  · obtain rfl := Option.some.inj hnext
    exact ⟨rfl, hqueue⟩
  · obtain rfl := Option.some.inj hnext
    exact ⟨rfl, hqueue⟩

theorem comesToRest_of_entering (hrun : (execution cycle).Reachable s) {event : PostedEvent}
    {selection : Selection} (hphase : s.phase = .entering event selection)
    (hqueue : events <+: s.queue) : ComesToRest cycle events s := by
  obtain ⟨t, hnext⟩ := exists_enter hphase
  have hstep : (execution cycle).next s .enter = some t := hnext
  refine .of_step hstep trivial ?_
  obtain ⟨_, _, _, target, _, _, rfl⟩ := enter_spec (located_stateValue hrun) hnext
  exact comesToRest_of_notifying rfl hqueue

/-- A state is left once its operation has returned. -/
theorem comesToRest_of_leaving (hrun : (execution cycle).Reachable s) {event : PostedEvent}
    {selection : Selection} (hphase : s.phase = .leaving event selection)
    (hnone : s.running = []) (hqueue : events <+: s.queue) : ComesToRest cycle events s := by
  obtain ⟨t, hnext⟩ := exists_leave hphase hnone
  have hstep : (execution cycle).next s .leave = some t := hnext
  refine .of_step hstep trivial ?_
  have ht := hrun.step hstep
  obtain ⟨_, _, _, _, _, _, _, rfl⟩ := leave_spec (located_stateValue hrun) hnext
  exact comesToRest_of_entering ht rfl hqueue

/-- The Qt thread can become idle without taking an event from the queue. -/
theorem comes_to_rest (hrun : (execution cycle).Reachable s) : ComesToRest cycle s.queue s := by
  cases hphase : s.phase with
  | idle => exact .here ⟨hphase, List.prefix_rfl⟩
  | notifying state => exact comesToRest_of_notifying hphase List.prefix_rfl
  | entering event selection => exact comesToRest_of_entering hrun hphase List.prefix_rfl
  | leaving event selection =>
    by_cases hnone : s.running = []
    · exact comesToRest_of_leaving hrun hphase hnone List.prefix_rfl
    · obtain ⟨activation, hmem⟩ := List.exists_mem_of_ne_nil _ hnone
      obtain ⟨hrunning, -, -⟩ := (singleOperation_of_reachable hrun).of_mem hmem
      obtain ⟨t, hnext⟩ := exists_finish hmem 0
      have hstep : (execution cycle).next s (.finish activation 0) = some t := hnext
      refine .of_step hstep trivial ?_
      have ht := hrun.step hstep
      obtain ⟨-, rfl⟩ := finish_spec hnext
      exact comesToRest_of_leaving ht hphase (by simp [hrunning]) (List.prefix_append _ _)

end Rest

/-! ### The call gets its verdict -/

/-- The steps that serve a call: its own statements, steps of the Qt thread and ends of
operations. -/
def Serves : CallAction Unit → Prop
  | .post _ | .takeFuture _ | .wait _ => True
  | .machine action => Settles action ∨ action = .select
  | .assign _ _ => False

/-- The call has returned. -/
def CommandCalls.Returned (s : CommandCalls Unit) : Prop :=
  ∃ cmd number verdict, s.threads () = .returned cmd number verdict

section Calls

variable {cycle : Cycle} {s : CommandCalls Unit}

theorem callInvariant_of_single (hrun : (commandCalls cycle Unit).Reachable s) :
    ∃ active, CallInvariant s active :=
  callInvariant_of_reachableBy <| hrun.mono fun s action _ ↦
    settledBeforeAssign_of_subsingleton s action

/-- The Qt thread comes to rest and leaves the call where it is. -/
theorem machine_comes_to_rest (hrun : (commandCalls cycle Unit).Reachable s) :
    (commandCalls cycle Unit).CanReach Serves
      (fun t ↦ ∃ machine, t = { s with machine := machine } ∧ machine.phase = .idle ∧
        s.machine.queue <+: machine.queue) s := by
  obtain ⟨active, hcalls⟩ := callInvariant_of_single hrun
  refine TransitionSystem.CanReach.lift CommandCalls.machine
    (fun t ↦ ∃ machine, t = { s with machine := machine }) ?_ ?_ ⟨s.machine, rfl⟩
    (comes_to_rest (machine_reachable hrun))
  · rintro t action machine ⟨before, rfl⟩ hsettles hnext
    refine ⟨.machine action, { s with machine := machine }, Or.inl hsettles, ?_, rfl, machine, rfl⟩
    refine (if_neg (by simp [hcalls.notTerminated])).trans ?_
    cases action with
    | finish activation code => exact Option.map_eq_some_iff.mpr ⟨machine, hnext, rfl⟩
    | leave => exact Option.map_eq_some_iff.mpr ⟨machine, hnext, rfl⟩
    | enter => exact Option.map_eq_some_iff.mpr ⟨machine, hnext, rfl⟩
    | notified => exact Option.map_eq_some_iff.mpr ⟨machine, hnext, rfl⟩
    | post cmd => exact hsettles.elim
    | select => exact hsettles.elim
    | changeMode mode => exact hsettles.elim
    | modeSwitched => exact hsettles.elim
  · rintro t ⟨machine, rfl⟩ ⟨hidle, hprefix⟩
    exact ⟨machine, rfl, hidle, hprefix⟩

/-- A statement of the caller that has a result is a step. -/
theorem next_of_statement (cycle : Cycle) {t : CommandCalls Unit}
    (hterminated : s.terminated = none) :
    (s.post () = some t → (commandCalls cycle Unit).next s (.post ()) = some t) ∧
      (s.takeFuture () = some t → (commandCalls cycle Unit).next s (.takeFuture ()) = some t) ∧
      (s.wait () = some t → (commandCalls cycle Unit).next s (.wait ()) = some t) := by
  have hnot : ¬ s.terminated.isSome := by simp [hterminated]
  exact ⟨(if_neg hnot).trans, (if_neg hnot).trans, (if_neg hnot).trans⟩

/-- The call waits for a promise that has been satisfied. -/
def CommandCalls.Ready (s : CommandCalls Unit) : Prop :=
  ∃ cmd number future, s.threads () = .waiting cmd number future ∧ s.prom.get future ≠ none

/-- The selection step for the event of a call that waits gives it its verdict. -/
theorem ready_of_select {cmd : TransitionCmd} {number : ℕ} {machine : Execution}
    {rest : List PostedEvent} (hphase : s.threads () = .waiting cmd number s.prom.current)
    (hunprocessed : s.Unprocessed cmd number)
    (hqueue : s.machine.queue = ⟨.cmdEvent cmd, .command number⟩ :: rest) :
    ({ s.endSelectTransitions cycle with machine := machine } : CommandCalls Unit).Ready := by
  refine ⟨cmd, number, s.prom.current, ?_, ?_⟩
  · exact (congrFun (endSelectTransitions_threads cycle s) ()).trans hphase
  · rw [endSelectTransitions_of_unprocessed hunprocessed hqueue]
    simp [PromiseVariable.get]

/-- A call that waits gets its verdict, whatever is in the queue in front of its event. -/
theorem becomes_ready {cmd : TransitionCmd} {number future : ℕ} (before : List PostedEvent) :
    ∀ s : CommandCalls Unit, (commandCalls cycle Unit).Reachable s →
      s.threads () = .waiting cmd number future → before <+: s.machine.queue →
        ⟨.cmdEvent cmd, .command number⟩ ∈ before →
          (commandCalls cycle Unit).CanReach Serves CommandCalls.Ready s := by
  induction before with
  | nil => simp
  | cons head before ih =>
    intro s hrun hphase hprefix hmem
    refine ((machine_comes_to_rest hrun).and_reachable hrun).trans ?_
    rintro t ⟨hrest, machine, rfl, hidle, hqueue⟩
    generalize ht : ({ s with machine := machine } : CommandCalls Unit) = t at hrest ⊢
    have hthread : t.threads () = .waiting cmd number future := ht ▸ hphase
    by_cases hready : t.prom.get future = none
    · obtain ⟨active, hcalls⟩ := callInvariant_of_single hrest
      obtain ⟨rfl, hunprocessed⟩ := hcalls.unprocessed_of_pending hthread hready
      obtain ⟨behind, hbehind⟩ := hprefix.trans hqueue
      have hfirst : t.machine.queue = head :: (before ++ behind) := ht ▸ hbehind.symm
      obtain ⟨after, hselect⟩ := exists_select cycle (ht ▸ hidle : t.machine.phase = .idle) hfirst
      have hstep : (commandCalls cycle Unit).next t (.machine .select) =
          some { t.endSelectTransitions cycle with machine := after } :=
        (if_neg (by simp [hcalls.notTerminated])).trans <|
          Option.map_eq_some_iff.mpr ⟨after, hselect, rfl⟩
      refine .of_step hstep (Or.inr rfl) ?_
      rcases List.mem_cons.mp hmem with rfl | hlater
      · exact .here (ready_of_select hthread hunprocessed hfirst)
      · obtain ⟨_, _, -, hqueue', hrest', -⟩ := select_queue hselect
        obtain ⟨rfl, rfl⟩ := List.cons.inj (hfirst.symm.trans hqueue')
        refine ih _ (hrest.step hstep) ?_ (hrest' ▸ List.prefix_append _ _) hlater
        exact (congrFun (endSelectTransitions_threads cycle t) ()).trans hthread
    · exact .here ⟨cmd, number, future, hthread, hready⟩

/-! ### The call returns -/

theorem returns_of_ready (hrun : (commandCalls cycle Unit).Reachable s) (hready : s.Ready) :
    (commandCalls cycle Unit).CanReach Serves CommandCalls.Returned s := by
  obtain ⟨cmd, number, future, hphase, hget⟩ := hready
  obtain ⟨active, hcalls⟩ := callInvariant_of_single hrun
  obtain ⟨outcome, hget⟩ := Option.ne_none_iff_exists'.mp hget
  cases outcome with
  | ok verdict =>
    have hwait : s.wait () = some { s with
        threads := Function.update s.threads () (.returned cmd number verdict) } := by
      simp only [CommandCalls.wait, hphase, hget]
    refine .of_step ((next_of_statement cycle hcalls.notTerminated).2.2 hwait) trivial (.here ?_)
    exact ⟨cmd, number, verdict, by simp⟩
  | error error =>
    have hwait : s.wait () = some { s with
        threads := Function.update s.threads () (.failed cmd error) } := by
      simp only [CommandCalls.wait, hphase, hget]
    obtain ⟨active', hfailed⟩ := callInvariant_of_single
      (hrun.step ((next_of_statement cycle hcalls.notTerminated).2.2 hwait))
    have hthread : Function.update s.threads () (.failed cmd error) () = .failed cmd error :=
      Function.update_self () _ _
    exact (hfailed.not_failed () cmd error hthread).elim

theorem returns_of_waiting (hrun : (commandCalls cycle Unit).Reachable s) {cmd : TransitionCmd}
    {number future : ℕ} (hphase : s.threads () = .waiting cmd number future) :
    (commandCalls cycle Unit).CanReach Serves CommandCalls.Returned s := by
  by_cases hready : s.prom.get future = none
  · obtain ⟨active, hcalls⟩ := callInvariant_of_single hrun
    obtain ⟨-, hunprocessed⟩ := hcalls.unprocessed_of_pending hphase hready
    refine ((becomes_ready _ s hrun hphase List.prefix_rfl hunprocessed.mem_queue).and_reachable
      hrun).trans ?_
    rintro t ⟨ht, hready⟩
    exact returns_of_ready ht hready
  · exact returns_of_ready hrun ⟨cmd, number, future, hphase, hready⟩

theorem returns_of_posted (hrun : (commandCalls cycle Unit).Reachable s) {cmd : TransitionCmd}
    {number : ℕ} (hphase : s.threads () = .posted cmd number) :
    (commandCalls cycle Unit).CanReach Serves CommandCalls.Returned s := by
  obtain ⟨active, hcalls⟩ := callInvariant_of_single hrun
  obtain rfl := hcalls.active_eq () (by simp [CommandCalls.Settled, hphase])
  have hturn := hcalls.turn
  simp only [CommandCalls.Turn, hphase] at hturn
  have htake : s.takeFuture () = some { s with
      prom := { s.prom with shared := Function.update s.prom.shared s.prom.current
                              { s.prom.shared s.prom.current with retrieved := true } }
      threads := Function.update s.threads () (.waiting cmd number s.prom.current) } := by
    simp only [CommandCalls.takeFuture, hphase,
      PromiseVariable.getFuture_of_not_retrieved hturn.1]
  have hstep := (next_of_statement cycle hcalls.notTerminated).2.1 htake
  have hthread : Function.update s.threads () (.waiting cmd number s.prom.current) () =
      .waiting cmd number s.prom.current := Function.update_self () _ _
  exact .of_step hstep trivial (returns_of_waiting (hrun.step hstep) hthread)

/-- A call of a machine that runs can return, without further calls and mode changes. -/
theorem call_can_return (hrun : (commandCalls cycle Unit).Reachable s)
    (hcall : s.threads () ≠ .idle) :
    (commandCalls cycle Unit).CanReach Serves CommandCalls.Returned s := by
  obtain ⟨active, hcalls⟩ := callInvariant_of_single hrun
  cases hphase : s.threads () with
  | idle => exact absurd hphase hcall
  | assigned cmd =>
    have hpost : s.post () = some { s with
        machine := s.machine.post cmd
        threads := Function.update s.threads () (.posted cmd s.machine.commands) } := by
      simp only [CommandCalls.post, hphase]
    have hstep := (next_of_statement cycle hcalls.notTerminated).1 hpost
    have hthread : Function.update s.threads () (.posted cmd s.machine.commands) () =
        .posted cmd s.machine.commands := Function.update_self () _ _
    exact .of_step hstep trivial (returns_of_posted (hrun.step hstep) hthread)
  | posted cmd number => exact returns_of_posted hrun hphase
  | waiting cmd number future => exact returns_of_waiting hrun hphase
  | returned cmd number verdict => exact .here ⟨cmd, number, verdict, hphase⟩
  | failed cmd error => exact absurd hphase (hcalls.not_failed () cmd error)

end Calls

end PackML
