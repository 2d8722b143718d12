import PackML.Manager.ThroughTransition

/-!
# The command services agree while nothing is accepted through ~/changeState

A handler owes an answer once a command was accepted through `~/changeState` (`owed_step`), and then
it owes it for ever, since nobody satisfies `changed_prom_` (`Owing.step`). A handler of
`~/transition` can always answer, because its call returns (`answers_through_transition`).

`command_services_agree_iff` is the result for every schedule of requests, completions and steps of
the machine. `clear_through_changeState` is the shortest run in which the services differ.
-/

set_option autoImplicit false
set_option relaxedAutoImplicit false

namespace PackML

/-! ### What the node owes -/

section Owing

variable {cycle : Cycle} {s t r : CommandServer}

/-- The node comes to owe an answer exactly when a command is accepted through `~/changeState`, and
it does not wait for `changed_prom_` before. -/
theorem owed_step (hbase : ServerBase cycle s) {action : CommandAction}
    (hnext : (commandServices cycle).next s action = some t) :
    t.handler.owed = [] ↔ s.handler.owed = [] ∧
      (ChangeStateRefused cycle s action ∧ action.isCommon = true) := by
  cases action with
  | request service command =>
    obtain ⟨hhandler, -, ⟨response, rfl⟩ | ⟨-, rfl⟩⟩ := server_request_spec hnext
    · simp [CommandServer.answer, hhandler, ServerPhase.owed, ChangeStateRefused,
        CommandAction.isCommon]
    · simp [hhandler, ServerPhase.owed, ChangeStateRefused, CommandAction.isCommon]
  | call action =>
    obtain ⟨-, calls, -, rfl⟩ := server_call_spec hnext
    simp [ChangeStateRefused, CommandAction.isCommon]
  | returned =>
    obtain ⟨service, command, cmd, called, number, verdict, hhandler, hthread, hreturned⟩ :=
      server_returned_spec hbase hnext
    have hcondition : ChangeStateRefused cycle s .returned ↔
        (service = .changeState → verdict = false) := by
      cases service with
      | transition => simp [ChangeStateRefused, CommandServer.changeStateReturned, hhandler]
      | changeState =>
        simp only [ChangeStateRefused, CommandServer.changeStateReturned, hhandler, hthread,
          Option.mem_some_iff, forall_eq', forall_const]
        exact refused_iff hbase.calls hthread
    rw [hcondition]
    rcases hreturned with ⟨rfl, rfl, rfl⟩ | ⟨hrefused, response, rfl⟩
    · simp [ServerPhase.owed]
    · simpa [CommandServer.answer, hhandler, ServerPhase.owed, CommandAction.isCommon]
        using hrefused
  | takeChanged =>
    obtain ⟨command, htaking, ⟨future, prom, -, rfl⟩ | ⟨error, rfl⟩⟩ :=
      server_takeChanged_spec hnext
    · simp [htaking, ServerPhase.owed]
    · simp [htaking, ServerPhase.owed]
  | awaitChanged =>
    have hnext : s.awaitChanged = some t := hnext
    rw [awaitChanged_eq_none hbase.pending] at hnext
    cases hnext

/-- A node that owes nothing does not wait for `changed_prom_`. -/
theorem isCommon_of_owed (howed : s.handler.owed = []) {action : CommandAction}
    (hnext : (commandServices cycle).next s action = some t) : action.isCommon = true := by
  cases action with
  | takeChanged =>
    obtain ⟨command, htaking, -⟩ := server_takeChanged_spec hnext
    rw [htaking] at howed
    cases howed
  | awaitChanged =>
    obtain ⟨command, future, hwaiting⟩ := awaitChanged_enabled hnext
    rw [hwaiting] at howed
    cases howed
  | _ => rfl

/-- A run owes nothing exactly when all commands sent through `~/changeState` were refused; it has
not waited for `changed_prom_` then. -/
theorem owed_eq_nil_iff {actions : List CommandAction}
    (hrun : (commandServices cycle).runFrom .activated actions = some s) :
    s.handler.owed = [] ↔ (commandServices cycle).AllowedAlong
      (fun s action ↦ ChangeStateRefused cycle s action ∧ action.isCommon = true) actions
      .activated := by
  have hstep : ∀ s action t, (commandServices cycle).Reachable s →
      (commandServices cycle).next s action = some t →
        (t.handler.owed = [] ↔ s.handler.owed = [] ∧
          (ChangeStateRefused cycle s action ∧ action.isCommon = true)) :=
    fun s action t hs hnext ↦ owed_step (serverBase_of_reachable hs) hnext
  rw [TransitionSystem.iff_allowedAlong_of_runFrom hstep (.initial rfl) actions hrun]
  exact and_iff_right rfl

/-- The node owes an answer and has given these. -/
structure Owing (cycle : Cycle) (answers : List CommandAnswer) (s : CommandServer) : Prop where
  reachable : (commandServices cycle).Reachable s
  owed : s.handler.owed ≠ []
  answers : s.answers = answers

/-- A handler that owes an answer gives no answer any more. -/
theorem Owing.step {answers : List CommandAnswer} (hs : Owing cycle answers s)
    {action : CommandAction} (hhandles : action.Handles)
    (hnext : (commandServices cycle).next s action = some t) : Owing cycle answers t := by
  obtain ⟨hrun, howed, hanswers⟩ := hs
  have hbase := serverBase_of_reachable hrun
  refine ⟨hrun.step hnext, fun hnil ↦ howed ((owed_step hbase hnext).mp hnil).1, ?_⟩
  cases action with
  | request service command => exact hhandles.elim
  | call action =>
    obtain ⟨-, calls, -, rfl⟩ := server_call_spec hnext
    exact hanswers
  | returned =>
    obtain ⟨service, command, cmd, called, number, verdict, hhandler, -⟩ := returned_enabled hnext
    rw [hhandler] at howed
    exact absurd rfl howed
  | takeChanged =>
    obtain ⟨command, -, ⟨future, prom, -, rfl⟩ | ⟨error, rfl⟩⟩ := server_takeChanged_spec hnext
    · exact hanswers
    · exact hanswers
  | awaitChanged =>
    have hnext : s.awaitChanged = some t := hnext
    rw [awaitChanged_eq_none hbase.pending] at hnext
    cases hnext

/-- The node can still give all answers of the other one only if it owes nothing. -/
theorem not_canReach_answers (hrun : (commandServices cycle).Reachable s) (hs : Follows s r)
    (howed : s.handler.owed ≠ []) :
    ¬ (commandServices cycle).CanReach CommandAction.Handles
      (fun t ↦ t.answers.map CommandAnswer.outcome = r.answers.map CommandAnswer.outcome) s := by
  have hstep : ∀ t action u, Owing cycle s.answers t → action.Handles →
      (commandServices cycle).next t action = some u → Owing cycle s.answers u :=
    fun t action u ht hhandles hnext ↦ ht.step hhandles hnext
  refine TransitionSystem.not_canReach hstep (fun t ht hsame ↦ ?_) ⟨hrun, howed, rfl⟩
  rw [ht.answers, hs.answers, List.self_eq_append_right] at hsame
  exact howed hsame

/-- A node that owes an answer is not ready for another request any more. -/
theorem not_canReach_idle (hrun : (commandServices cycle).Reachable s)
    (howed : s.handler.owed ≠ []) :
    ¬ (commandServices cycle).CanReach CommandAction.Handles (fun t ↦ t.handler = .idle) s := by
  have hstep : ∀ t action u, Owing cycle s.answers t → action.Handles →
      (commandServices cycle).next t action = some u → Owing cycle s.answers u :=
    fun t action u ht hhandles hnext ↦ ht.step hhandles hnext
  refine TransitionSystem.not_canReach hstep (fun t ht hidle ↦ ?_) ⟨hrun, howed, rfl⟩
  exact ht.owed (by rw [hidle]; rfl)

theorem agreesWith_iff (hrun : (commandServices cycle).Reachable s) (hs : Follows s r) :
    AgreesWith cycle s r ↔ s.handler.owed = [] := by
  constructor
  · rintro ⟨-, hanswers⟩
    by_contra howed
    exact not_canReach_answers hrun hs howed hanswers
  · intro howed
    exact ⟨congrArg CommandCalls.machine hs.calls.symm, .here (hs.answers_eq howed).symm⟩

end Owing

/-! ### Requests through ~/transition are answered -/

section Answering

variable {cycle : Cycle} {s : CommandServer} {command : Int8} {cmd : TransitionCmd}

/-- The statements of the call and the steps that serve it are steps of the node. -/
theorem serve_step {action : CallAction Unit} {calls : CommandCalls Unit} (hserves : Serves action)
    (hnext : (commandCalls cycle Unit).next s.calls action = some calls) :
    (CommandAction.call action).Handles ∧
      (commandServices cycle).next s (.call action) = some { s with calls := calls } := by
  have hnode : s.handler.permits action = true →
      s.handler.after action = s.handler →
        (commandServices cycle).next s (.call action) = some { s with calls := calls } := by
    intro hpermits hhandler
    refine (if_pos hpermits).trans ?_
    rw [hnext, hhandler]
    rfl
  cases action with
  | assign thread cmd => exact hserves.elim
  | post thread => exact ⟨trivial, hnode rfl rfl⟩
  | takeFuture thread => exact ⟨trivial, hnode rfl rfl⟩
  | wait thread => exact ⟨trivial, hnode rfl rfl⟩
  | machine step =>
    cases step with
    | changeMode mode => rcases hserves with hsettles | hselect <;> contradiction
    | modeSwitched => rcases hserves with hsettles | hselect <;> contradiction
    | _ => exact ⟨trivial, hnode rfl rfl⟩

/-- A handler of `~/transition` whose command method is being called can answer. -/
theorem answers_of_calling (hrun : (commandServices cycle).Reachable s)
    (hhandler : s.handler = .calling .transition command cmd) :
    (commandServices cycle).CanReach CommandAction.Handles (fun t ↦ t.handler = .idle) s := by
  have hbase := serverBase_of_reachable hrun
  have hcmd := hbase.cmd_ne (show s.handler.cmd = some cmd by rw [hhandler]; rfl)
  have hcall := call_can_return hbase.calls (hbase.called (by rw [hhandler]; rfl))
  have hreturns : (commandServices cycle).CanReach CommandAction.Handles
      (fun t ↦ t.handler = .calling .transition command cmd ∧ t.calls.Returned) s := by
    refine TransitionSystem.CanReach.lift CommandServer.calls
      (fun t ↦ t.handler = .calling .transition command cmd) ?_ ?_ hhandler hcall
    · intro t action calls ht hserves hnext
      obtain ⟨hhandles, hstep⟩ := serve_step hserves hnext
      exact ⟨.call action, _, hhandles, hstep, rfl, ht⟩
    · exact fun t ht hreturned ↦ ⟨ht, hreturned⟩
  refine hreturns.trans ?_
  rintro t ⟨ht, called, number, verdict, hthread⟩
  obtain ⟨-, response, -, hreturned⟩ :=
    (returned_eq ht hcmd hthread).resolve_left fun h ↦ nomatch h.1
  have hstep : (commandServices cycle).next t .returned =
      some (t.answer .transition command response) := hreturned
  exact .of_step hstep trivial (.here rfl)

/-- Every request through `~/transition` can be answered by handling it. -/
theorem answers_through_transition (hrun : (commandServices cycle).Reachable s)
    (hvia : s.handler.viaTransition = s.handler) :
    (commandServices cycle).CanReach CommandAction.Handles (fun t ↦ t.handler = .idle) s := by
  have hbase := serverBase_of_reachable hrun
  cases hhandler : s.handler with
  | idle => exact .here hhandler
  | calling service command cmd =>
    rw [hhandler] at hvia
    obtain ⟨rfl, -, -⟩ := ServerPhase.calling.inj hvia
    exact answers_of_calling hrun hhandler
  | starting service command cmd =>
    rw [hhandler] at hvia
    obtain ⟨rfl, -, -⟩ := ServerPhase.starting.inj hvia
    have hcmd := hbase.cmd_ne (show s.handler.cmd = some cmd by rw [hhandler]; rfl)
    have hresting := hbase.resting (by rw [hhandler]; rfl)
    obtain ⟨active, hcalls⟩ := callInvariant_of_single hbase.calls
    have hassign : (commandCalls cycle Unit).next s.calls (.assign () cmd) = some { s.calls with
        prom := s.calls.prom.replace
        threads := Function.update s.calls.threads () (.assigned cmd) } :=
      (if_neg (by simp [hcalls.notTerminated])).trans (if_pos ⟨hresting, hcmd⟩)
    have hstep : (commandServices cycle).next s (.call (.assign () cmd)) = some { s with
        calls := { s.calls with
          prom := s.calls.prom.replace
          threads := Function.update s.calls.threads () (.assigned cmd) }
        handler := .calling .transition command cmd } := by
      refine (if_pos (by rw [hhandler]; exact decide_eq_true rfl)).trans ?_
      rw [hassign, hhandler]
      rfl
    exact .of_step hstep trivial (answers_of_calling (hrun.step hstep) rfl)
  | taking command =>
    rw [hhandler] at hvia
    cases hvia
  | waiting command future =>
    rw [hhandler] at hvia
    cases hvia
  | threw command error =>
    rw [hhandler] at hvia
    cases hvia

/-- A node all of whose requests go through `~/transition` handles such requests only. -/
theorem viaTransition_of_runFrom {actions : List CommandAction}
    (hrun : (commandServices cycle).runFrom .activated
      (actions.map CommandAction.viaTransition) = some s) :
    (commandServices cycle).Reachable s ∧ s.handler.viaTransition = s.handler := by
  have hallowed : (commandServices cycle).AllowedAlong
      (fun _ action ↦ action.viaTransition = action) (actions.map CommandAction.viaTransition)
      .activated := by
    refine TransitionSystem.allowedAlong_of_forall_mem (fun action hmem _ ↦ ?_) _
    obtain ⟨original, -, rfl⟩ := List.mem_map.mp hmem
    cases original <;> rfl
  have hguarded := TransitionSystem.reachableBy_of_runFrom (.initial rfl) _ hallowed hrun
  refine ⟨hguarded.reachable, ?_⟩
  clear hrun
  refine hguarded.invariant ?_ ?_
  · rintro s rfl
    rfl
  · intro s action t hs hvia hnext
    cases action with
    | request service command =>
      obtain ⟨rfl, -⟩ := CommandAction.request.inj hvia
      have hnext : s.request .transition command = some t := hnext
      obtain ⟨-, -, ⟨response, rfl⟩ | ⟨-, rfl⟩⟩ := server_request_spec hnext
      · rfl
      · rfl
    | call action =>
      obtain ⟨-, calls, -, rfl⟩ := server_call_spec hnext
      rw [ServerPhase.viaTransition_after, hs]
    | returned =>
      have hnext : s.returned = some t := hnext
      obtain ⟨service, command, cmd, called, number, verdict, hhandler, hthread⟩ :=
        returned_enabled hnext
      rw [hhandler] at hs
      obtain ⟨rfl, -, -⟩ := ServerPhase.calling.inj hs
      simp only [CommandServer.returned, hhandler, hthread] at hnext
      obtain rfl := Option.some.inj hnext
      rfl
    | takeChanged =>
      obtain ⟨command, htaking, -⟩ := server_takeChanged_spec hnext
      exact absurd (hs.trans htaking) (s.handler.viaTransition_ne_wait command).1
    | awaitChanged =>
      obtain ⟨command, future, hwaiting⟩ := awaitChanged_enabled hnext
      exact absurd (hs.trans hwaiting) ((s.handler.viaTransition_ne_wait command).2 future)

end Answering

/-! ### The result -/

section Result

variable {cycle : Cycle} {actions mixed : List CommandAction} {s reference : CommandServer}

theorem follows_activated : Follows .activated .activated :=
  ⟨rfl, rfl, rfl⟩

/-- Every run is followed by that of the same requests sent through `~/transition`. -/
theorem exists_follows (hrun : (commandServices cycle).runFrom .activated mixed = some s) :
    ∃ r, (commandServices cycle).runFrom .activated
        ((mixed.filter CommandAction.isCommon).map CommandAction.viaTransition) = some r ∧
      Follows s r := by
  refine (TransitionSystem.exists_runFrom_of_visible
    (fun s r ↦ (commandServices cycle).Reachable s ∧ Follows s r) CommandAction.viaTransition
    CommandAction.isCommon ?_ ?_ ⟨.initial rfl, follows_activated⟩ mixed hrun).imp
      fun r hr ↦ ⟨hr.1, hr.2.2⟩
  · rintro s action t r ⟨hs, hfollows⟩ hcommon hnext
    obtain ⟨v, hnext', hfollows'⟩ :=
      follows_step (serverBase_of_reachable hs) hfollows hcommon hnext
    exact ⟨v, hnext', hs.step hnext, hfollows'⟩
  · rintro s action t r ⟨hs, hfollows⟩ hhidden hnext
    exact ⟨hs.step hnext, follows_hidden (serverBase_of_reachable hs) hfollows hhidden hnext⟩

/-- A run through `~/transition` is followed back while every command that is sent through
`~/changeState` is refused. -/
theorem exists_followed
    (hreference : (commandServices cycle).runFrom .activated
      (actions.map CommandAction.viaTransition) = some reference)
    (hallowed : (commandServices cycle).AllowedAlong (ChangeStateRefused cycle) actions
      .activated) :
    ∃ s, (commandServices cycle).runFrom .activated actions = some s ∧ s.handler.owed = [] ∧
      Follows s reference := by
  refine (TransitionSystem.exists_runFrom_of_allowedAlong
    (fun s r ↦ (commandServices cycle).Reachable s ∧ s.handler.owed = [] ∧ Follows s r)
    CommandAction.viaTransition ?_ ⟨.initial rfl, rfl, follows_activated⟩ actions hallowed
      hreference).imp fun s hs ↦ ⟨hs.1, hs.2.2⟩
  rintro s action r v ⟨hs, howed, hfollows⟩ hrefused hnext
  have hbase := serverBase_of_reachable hs
  obtain ⟨t, hnext', hfollows'⟩ := followed_step hbase hfollows howed hnext
  have hcommon := isCommon_of_owed howed hnext'
  exact ⟨t, hnext', hs.step hnext', (owed_step hbase hnext').mpr ⟨howed, hrefused, hcommon⟩,
    hfollows'⟩

/-- The same requests, sent through the services as given, lead to a node that agrees with the
reference if and only if every command that is sent through `~/changeState` is refused. -/
theorem exists_agreesWith_iff
    (hreference : (commandServices cycle).runFrom .activated
      (actions.map CommandAction.viaTransition) = some reference) :
    (∃ mixed s, mixed.filter CommandAction.isCommon = actions ∧
        (commandServices cycle).runFrom .activated mixed = some s ∧
          AgreesWith cycle s reference) ↔
      (commandServices cycle).AllowedAlong (ChangeStateRefused cycle) actions .activated := by
  constructor
  · rintro ⟨mixed, s, rfl, hrun, hagrees⟩
    obtain ⟨r, hr, hfollows⟩ := exists_follows hrun
    obtain rfl := Option.some.inj (hr.symm.trans hreference)
    have hreachable := TransitionSystem.reachable_of_runFrom (.initial rfl) mixed hrun
    have hallowed := (owed_eq_nil_iff hrun).mp ((agreesWith_iff hreachable hfollows).mp hagrees)
    have hcommon := hallowed.forall_mem (fun _ _ h ↦ h.2) hrun
    rw [List.filter_eq_self.mpr hcommon]
    exact hallowed.mono fun _ _ h ↦ h.1
  · intro hallowed
    obtain ⟨s, hrun, howed, hfollows⟩ := exists_followed hreference hallowed
    have hreachable := TransitionSystem.reachable_of_runFrom (.initial rfl) actions hrun
    have hcommon := ((owed_eq_nil_iff hrun).mp howed).forall_mem (fun _ _ h ↦ h.2) hrun
    exact ⟨actions, s, List.filter_eq_self.mpr hcommon, hrun,
      (agreesWith_iff hreachable hfollows).mpr howed⟩

/-- In every run through `~/transition` alone every request can be answered. The same requests sent
through both services in any mix lead to the same states and get the same answers if and only if no
command that is sent through `~/changeState` is accepted. -/
theorem command_services_agree_iff
    (hreference : (commandServices cycle).runFrom .activated
      (actions.map CommandAction.viaTransition) = some reference) :
    (commandServices cycle).CanReach CommandAction.Handles (fun t ↦ t.handler = .idle) reference ∧
      ((∃ mixed s, mixed.filter CommandAction.isCommon = actions ∧
          (commandServices cycle).runFrom .activated mixed = some s ∧
            AgreesWith cycle s reference) ↔
        (commandServices cycle).AllowedAlong (ChangeStateRefused cycle) actions .activated) := by
  obtain ⟨hreachable, hvia⟩ := viaTransition_of_runFrom hreference
  exact ⟨answers_through_transition hreachable hvia, exists_agreesWith_iff hreference⟩

end Result

/-! ### Runs -/

/-- MANUAL is set in ABORTED. -/
def manualSet : List CommandAction :=
  [.call (.machine (.changeMode .manual)), .call (.machine .modeSwitched),
    .call (.machine .notified)]

/-- A request whose command is posted to an idle machine with an empty queue. -/
def servedRequest (service : CommandService) (command : Int8) : List CommandAction :=
  [.request service command, .call (.assign () (toTransitionCmd command.toInt)), .call (.post ()),
    .call (.takeFuture ()), .call (.machine .select), .call (.wait ()), .returned]

/-- The transition that was selected is carried out. -/
def carriedOut : List CommandAction :=
  [.call (.machine .leave), .call (.machine .enter), .call (.machine .notified)]

/-- START is refused in ABORTED, two numbers are no commands, CLEAR and RESET are accepted through
`~/transition`, CLEARING completes in between, and HOLD is refused in STOPPED. -/
def refusedRequests : List CommandAction :=
  manualSet ++ servedRequest .changeState 2 ++
    [.request .changeState (-7), .request .transition 77] ++
    servedRequest .transition 9 ++ carriedOut ++
    [.call (.machine (.finish ⟨.clearing, 0⟩ 0)), .call (.machine .select)] ++ carriedOut ++
    servedRequest .changeState 4 ++ servedRequest .transition 1

theorem command_services_agree_iff_refusedRequests :
    ∃ reference, (commandServices .singleCycle).runFrom .activated
        (refusedRequests.map CommandAction.viaTransition) = some reference ∧
      reference.answers.map CommandAnswer.outcome =
        [(2, false, -1), (-7, false, -2), (77, false, -2), (9, true, 1), (4, false, -1),
          (1, true, 1)] ∧
      ∃ mixed s, mixed.filter CommandAction.isCommon = refusedRequests ∧
        (commandServices .singleCycle).runFrom .activated mixed = some s ∧
          AgreesWith .singleCycle s reference := by
  have hend : ((commandServices .singleCycle).runFrom .activated
      (refusedRequests.map CommandAction.viaTransition)).map
        (fun s ↦ s.answers.map CommandAnswer.outcome) =
      some [(2, false, -1), (-7, false, -2), (77, false, -2), (9, true, 1), (4, false, -1),
        (1, true, 1)] := by
    decide +kernel
  obtain ⟨reference, hreference, hanswers⟩ := Option.map_eq_some_iff.mp hend
  have hallowed : (commandServices .singleCycle).AllowedAlong (ChangeStateRefused .singleCycle)
      refusedRequests .activated := by
    decide +kernel
  exact ⟨reference, hreference, hanswers, (command_services_agree_iff hreference).2.mpr hallowed⟩

/-- CLEAR is sent through `~/changeState` in ABORTED. -/
def clearThroughChangeState : List CommandAction :=
  manualSet ++ servedRequest .changeState 9

/-- `~/transition` answers with success, and no run of the node agrees with that: its machine
accepts the command, and the request is not answered, whatever happens then. -/
theorem clear_through_changeState :
    (∃ reference, (commandServices .singleCycle).runFrom .activated
        (clearThroughChangeState.map CommandAction.viaTransition) = some reference ∧
      reference.answers.map CommandAnswer.outcome = [(9, true, 1)] ∧
      ¬ ∃ mixed s, mixed.filter CommandAction.isCommon = clearThroughChangeState ∧
        (commandServices .singleCycle).runFrom .activated mixed = some s ∧
          AgreesWith .singleCycle s reference) ∧
      ∃ s, (commandServices .singleCycle).runFrom .activated
          (clearThroughChangeState ++ [.takeChanged]) = some s ∧
        s.handler = .waiting 9 0 ∧ s.answers = [] ∧
        ¬ (commandServices .singleCycle).CanReach CommandAction.Handles
          (fun t ↦ t.handler = .idle) s := by
  constructor
  · have hend : ((commandServices .singleCycle).runFrom .activated
        (clearThroughChangeState.map CommandAction.viaTransition)).map
          (fun s ↦ s.answers.map CommandAnswer.outcome) = some [(9, true, 1)] := by
      decide +kernel
    obtain ⟨reference, hreference, hanswers⟩ := Option.map_eq_some_iff.mp hend
    have hnot : ¬ (commandServices .singleCycle).AllowedAlong (ChangeStateRefused .singleCycle)
        clearThroughChangeState .activated := by
      decide +kernel
    exact ⟨reference, hreference, hanswers, mt (exists_agreesWith_iff hreference).mp hnot⟩
  · have hend : ((commandServices .singleCycle).runFrom .activated
        (clearThroughChangeState ++ [.takeChanged])).map (fun s ↦ (s.handler, s.answers)) =
          some (.waiting 9 0, []) := by
      decide +kernel
    obtain ⟨s, hrun, hs⟩ := Option.map_eq_some_iff.mp hend
    obtain ⟨hwaiting, hanswers⟩ := Prod.mk.injEq .. ▸ hs
    refine ⟨s, hrun, hwaiting, hanswers, not_canReach_idle ?_ ?_⟩
    · exact TransitionSystem.reachable_of_runFrom (.initial rfl) _ hrun
    · rw [hwaiting]
      exact List.cons_ne_nil _ _

end PackML
