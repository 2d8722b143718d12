import PackML.Manager.ThroughTransition
import PackML.Plugin.PackmlWidget

/-!
# The panel and the node that it operates

The RViz panel asks `SMNode` for its status every 200 ms. `timerEvent` sends a request and waits for
the answer, for 100 ms at most; answers to earlier requests are dropped. `SMNode` has two servers of
the name `~/allStatus`, `statusRequest` and the `on_all_status` of the manager interface, so that
each request is answered twice, in any order. Meanwhile the slots of the buttons send their commands
to `~/transition`; they do not look at the answers. The node has other clients too.

`recent` are the states that the machine has had since the last `timerEvent`, and `answered` the
commands of the panel that the node has answered, each with the panel as it was when the button was
pressed; the code has neither record.

`panel_display` is the result on what the panel shows: a state that the machine had while the last
`timerEvent` that got an answer was waiting, or nothing. `DisplayInvariant` carries it.
-/

set_option autoImplicit false
set_option relaxedAutoImplicit false

namespace PackML

/-! ### The system -/

/-- A button was pressed on this panel. -/
structure Press where
  cmd : TransitionCmd
  panel : PackmlPanel

/-- The node has answered a command of the panel: its verdict, and what the machine did with it. -/
structure AnsweredPress where
  press : Press
  verdict : Bool
  record : Option ProcessedCommand

/-- The panel, the node and what is under way between them. `awaited` is the request that
`timerEvent` waits for, `toStatusRequest` and `toOnAllStatus` are the requests that the two servers
have not handled, and `serving` is the press whose command the node is handling. -/
structure OperatorPanel where
  server : CommandServer
  times : State → ℚ
  panel : PackmlPanel
  awaited : Option ℕ
  requests : ℕ
  toStatusRequest : List ℕ
  toOnAllStatus : List ℕ
  responses : List (ℕ × AllStatusResponse)
  presses : List Press
  serving : Option Press
  recent : List State
  answered : List AnsweredPress

/-- `timerEvent` begins, gives up or gets a response; a button is pressed; a server handles the
first request to `~/allStatus`; the node takes the first command of the panel; another step of the
node, among them requests of its other clients. -/
inductive PanelAction
  | timerEvent
  | timedOut
  | received (index : ℕ)
  | pressed (cmd : TransitionCmd)
  | statusRequest
  | onAllStatus
  | transRequest
  | server (action : CommandAction)

/-- The ROS thread handles one request at a time. -/
def CommandServer.isFree (s : CommandServer) : Bool :=
  decide (s.handler = .idle ∧ s.machine.switching = none)

/-- The call in the handler that has returned. -/
def CommandServer.returnedCall (s : CommandServer) : Option (ℕ × Bool) :=
  match s.handler, s.calls.threads () with
  | .calling _ _ _, .returned _ number verdict => some (number, verdict)
  | _, _ => none

namespace OperatorPanel

variable (s : OperatorPanel)

def timerEvent : Option OperatorPanel :=
  if s.awaited = none then
    some { s with
      awaited := some s.requests
      requests := s.requests + 1
      toStatusRequest := s.toStatusRequest ++ [s.requests]
      toOnAllStatus := s.toOnAllStatus ++ [s.requests]
      recent := [s.server.machine.stateValue] }
  else none

/-- 100 ms have passed. -/
def timedOut : Option OperatorPanel :=
  if s.awaited = none then none else some { s with awaited := none }

/-- The client gets a response while `timerEvent` waits. -/
def received (index : ℕ) : Option OperatorPanel :=
  match s.awaited, s.responses[index]? with
  | some number, some response =>
    if response.1 = number then
      some { s with
        awaited := none
        panel := s.panel.update response.2
        responses := s.responses.eraseIdx index }
    else some { s with responses := s.responses.eraseIdx index }
  | _, _ => none

/-- The slot of a button, which must be enabled. -/
def pressed (cmd : TransitionCmd) : Option OperatorPanel :=
  if s.awaited = none ∧ s.panel.enabled cmd = true then
    some { s with presses := s.presses ++ [⟨cmd, s.panel⟩] }
  else none

/-- `statusRequest` handles a request. -/
def statusRequest : Option OperatorPanel :=
  match s.toStatusRequest with
  | number :: rest =>
    if s.server.isFree then
      let result := PackML.statusRequest s.times s.server.machine.stateValue
      some { s with
        times := result.1
        toStatusRequest := rest
        responses := s.responses ++ [(number, result.2)] }
    else none
  | [] => none

/-- `on_all_status` handles a request. -/
def onAllStatus : Option OperatorPanel :=
  match s.toOnAllStatus with
  | number :: rest =>
    if s.server.isFree then
      some { s with
        toOnAllStatus := rest
        responses := s.responses ++ [(number, PackML.onAllStatus)] }
    else none
  | [] => none

/-- The node takes the first command of the panel. -/
def transRequest : Option OperatorPanel :=
  match s.presses with
  | press :: rest =>
    (s.server.request .transition press.cmd.request).map fun server ↦
      { s with server := server, presses := rest, serving := some press }
  | [] => none

/-- What is recorded when the call of a command of the panel has returned. -/
def newlyAnswered : CommandAction → List AnsweredPress
  | .returned =>
    match s.serving, s.server.returnedCall with
    | some press, some call =>
      [⟨press, call.2, s.server.calls.processed (.command call.1)⟩]
    | _, _ => []
  | _ => []

/-- Another step of the node. -/
def serverStep (cycle : Cycle) (action : CommandAction) : Option OperatorPanel :=
  ((commandServices cycle).next s.server action).map fun server ↦
    { s with
      server := server
      serving := if action = .returned then none else s.serving
      recent := s.recent ++ [server.machine.stateValue]
      answered := s.answered ++ s.newlyAnswered action }

/-- The panel has been set up, and the node after its constructor. -/
def created : OperatorPanel where
  server := .activated
  times _ := 0
  panel := .setupUi
  awaited := none
  requests := 0
  toStatusRequest := []
  toOnAllStatus := []
  responses := []
  presses := []
  serving := none
  recent := []
  answered := []

end OperatorPanel

/-- The runs of the panel and the node. -/
def operatorPanel (cycle : Cycle) : TransitionSystem OperatorPanel PanelAction where
  initial s := s = .created
  next s
    | .timerEvent => s.timerEvent
    | .timedOut => s.timedOut
    | .received index => s.received index
    | .pressed cmd => s.pressed cmd
    | .statusRequest => s.statusRequest
    | .onAllStatus => s.onAllStatus
    | .transRequest => s.transRequest
    | .server action => s.serverStep cycle action

/-! ### What each step does -/

section Steps

variable {cycle : Cycle} {s t : OperatorPanel}

theorem timerEvent_spec (hnext : s.timerEvent = some t) :
    s.awaited = none ∧ t = { s with
      awaited := some s.requests
      requests := s.requests + 1
      toStatusRequest := s.toStatusRequest ++ [s.requests]
      toOnAllStatus := s.toOnAllStatus ++ [s.requests]
      recent := [s.server.machine.stateValue] } := by
  obtain ⟨hawaited, hnext⟩ := Option.ite_none_right_eq_some.mp hnext
  exact ⟨hawaited, (Option.some.inj hnext).symm⟩

theorem timedOut_spec (hnext : s.timedOut = some t) : t = { s with awaited := none } :=
  (Option.some.inj (Option.ite_none_left_eq_some.mp hnext).2).symm

/-- A response to the request that `timerEvent` waits for updates the panel; others are dropped. -/
theorem received_spec {index : ℕ} (hnext : s.received index = some t) :
    ∃ number response, s.awaited = some number ∧ response ∈ s.responses ∧
      ((response.1 = number ∧ t = { s with
          awaited := none
          panel := s.panel.update response.2
          responses := s.responses.eraseIdx index }) ∨
        t = { s with responses := s.responses.eraseIdx index }) := by
  unfold OperatorPanel.received at hnext
  split at hnext
  · rename_i number response hawaited hresponse
    refine ⟨number, response, hawaited, List.mem_of_getElem? hresponse, ?_⟩
    split at hnext
    · rename_i hnumber
      exact Or.inl ⟨hnumber, (Option.some.inj hnext).symm⟩
    · exact Or.inr (Option.some.inj hnext).symm
  · cases hnext

theorem pressed_spec {cmd : TransitionCmd} (hnext : s.pressed cmd = some t) :
    s.panel.enabled cmd = true ∧ t = { s with presses := s.presses ++ [⟨cmd, s.panel⟩] } := by
  obtain ⟨⟨-, henabled⟩, hnext⟩ := Option.ite_none_right_eq_some.mp hnext
  exact ⟨henabled, (Option.some.inj hnext).symm⟩

theorem statusRequest_spec (hnext : s.statusRequest = some t) :
    ∃ number rest, s.toStatusRequest = number :: rest ∧
      t = { s with
        times := (statusRequest s.times s.server.machine.stateValue).1
        toStatusRequest := rest
        responses := s.responses ++
          [(number, (statusRequest s.times s.server.machine.stateValue).2)] } := by
  unfold OperatorPanel.statusRequest at hnext
  split at hnext
  · rename_i number rest hrequests
    obtain ⟨-, hnext⟩ := Option.ite_none_right_eq_some.mp hnext
    exact ⟨number, rest, hrequests, (Option.some.inj hnext).symm⟩
  · cases hnext

theorem onAllStatus_spec (hnext : s.onAllStatus = some t) :
    ∃ number rest, s.toOnAllStatus = number :: rest ∧
      t = { s with
        toOnAllStatus := rest
        responses := s.responses ++ [(number, onAllStatus)] } := by
  unfold OperatorPanel.onAllStatus at hnext
  split at hnext
  · rename_i number rest hrequests
    obtain ⟨-, hnext⟩ := Option.ite_none_right_eq_some.mp hnext
    exact ⟨number, rest, hrequests, (Option.some.inj hnext).symm⟩
  · cases hnext

theorem transRequest_spec (hnext : s.transRequest = some t) :
    ∃ press rest server, s.presses = press :: rest ∧
      s.server.request .transition press.cmd.request = some server ∧
        t = { s with server := server, presses := rest, serving := some press } := by
  unfold OperatorPanel.transRequest at hnext
  split at hnext
  · rename_i press rest hpresses
    obtain ⟨server, hserver, rfl⟩ := Option.map_eq_some_iff.mp hnext
    exact ⟨press, rest, server, hpresses, hserver, rfl⟩
  · cases hnext

theorem serverStep_spec {action : CommandAction} (hnext : s.serverStep cycle action = some t) :
    ∃ server, (commandServices cycle).next s.server action = some server ∧
      t = { s with
        server := server
        serving := if action = .returned then none else s.serving
        recent := s.recent ++ [server.machine.stateValue]
        answered := s.answered ++ s.newlyAnswered action } := by
  obtain ⟨server, hserver, rfl⟩ := Option.map_eq_some_iff.mp hnext
  exact ⟨server, hserver, rfl⟩

/-- The node runs as it does without the panel. -/
theorem panelServer_reachable (hrun : (operatorPanel cycle).Reachable s) :
    (commandServices cycle).Reachable s.server := by
  refine hrun.project OperatorPanel.server ?_ ?_
  · rintro s rfl
    rfl
  · intro s action t hnext
    cases action with
    | timerEvent =>
      obtain ⟨-, rfl⟩ := timerEvent_spec hnext
      exact Or.inl rfl
    | timedOut =>
      obtain rfl := timedOut_spec hnext
      exact Or.inl rfl
    | received index =>
      obtain ⟨number, response, -, -, ⟨-, rfl⟩ | rfl⟩ := received_spec hnext
      · exact Or.inl rfl
      · exact Or.inl rfl
    | pressed cmd =>
      obtain ⟨-, rfl⟩ := pressed_spec hnext
      exact Or.inl rfl
    | statusRequest =>
      obtain ⟨number, rest, -, rfl⟩ := statusRequest_spec hnext
      exact Or.inl rfl
    | onAllStatus =>
      obtain ⟨number, rest, -, rfl⟩ := onAllStatus_spec hnext
      exact Or.inl rfl
    | transRequest =>
      obtain ⟨press, rest, server, -, hserver, rfl⟩ := transRequest_spec hnext
      exact Or.inr ⟨.request .transition press.cmd.request, hserver⟩
    | server action =>
      obtain ⟨server, hserver, rfl⟩ := serverStep_spec hnext
      exact Or.inr ⟨action, hserver⟩

/-- `getCurrentState` gives a PackML state. -/
theorem panelState_defined (hrun : (operatorPanel cycle).Reachable s) :
    s.server.machine.stateValue ≠ .undefined :=
  (located_stateValue (machine_reachable
    (serverBase_of_reachable (panelServer_reachable hrun)).calls)).defined

end Steps

/-! ### What the panel shows -/

/-- A response of one of the servers; if `timerEvent` waits for it, its state is a recent one. -/
structure Answers (s : OperatorPanel) (response : ℕ × AllStatusResponse) : Prop where
  number : response.1 < s.requests
  answer : response.2 = onAllStatus ∨ ∃ times state, state ≠ .undefined ∧
    response.2 = (statusRequest times state).2 ∧ (s.awaited = some response.1 → state ∈ s.recent)

/-- The panel is as it was set up, or blank, or shows a state; while `timerEvent` waits the state of
the machine is a recent one; requests and responses have numbers that were given. -/
structure DisplayInvariant (s : OperatorPanel) : Prop where
  panel : s.panel = .setupUi ∨ s.panel.IsBlank ∨
    ∃ state, state ≠ .undefined ∧ s.panel.Shows state
  current : s.awaited ≠ none → s.server.machine.stateValue ∈ s.recent
  requests : ∀ number ∈ s.toStatusRequest ++ s.toOnAllStatus, number < s.requests
  responses : ∀ response ∈ s.responses, Answers s response

section Display

variable {cycle : Cycle} {s t : OperatorPanel}

/-- A response stays what it is while nothing is forgotten. -/
theorem Answers.frame {response : ℕ × AllStatusResponse} (hs : Answers s response)
    (hrequests : s.requests ≤ t.requests)
    (hrecent : t.awaited = some response.1 → s.awaited = some response.1 ∧ s.recent ⊆ t.recent) :
    Answers t response := by
  refine ⟨Nat.lt_of_lt_of_le hs.number hrequests, hs.answer.imp_right ?_⟩
  rintro ⟨times, state, hstate, hresponse, hold⟩
  refine ⟨times, state, hstate, hresponse, fun hawaited ↦ ?_⟩
  obtain ⟨hbefore, hsubset⟩ := hrecent hawaited
  exact hsubset (hold hbefore)

/-- An answer that the panel accepts makes it blank, or makes it show a recent state. -/
theorem DisplayInvariant.update (hs : DisplayInvariant s) {response : ℕ × AllStatusResponse}
    (hmem : response ∈ s.responses) (hawaited : s.awaited = some response.1) :
    (s.panel.update response.2).IsBlank ∨ ∃ state ∈ s.recent, state ≠ .undefined ∧
      (s.panel.update response.2).Shows state := by
  rcases (hs.responses response hmem).answer with
    hblank | ⟨times, state, hstate, hresponse, hrecent⟩
  · rw [hblank]
    exact Or.inl (isBlank_update _ _ fun _ ↦ rfl)
  · rw [hresponse]
    exact Or.inr ⟨state, hrecent hawaited, hstate, shows_update _ hstate⟩

/-- A new request has a new number, and begins a new record. -/
theorem displayInvariant_timerEvent (hs : DisplayInvariant s) (hnext : s.timerEvent = some t) :
    DisplayInvariant t := by
  obtain ⟨-, rfl⟩ := timerEvent_spec hnext
  refine ⟨hs.panel, fun _ ↦ List.mem_singleton_self _, fun number hnumber ↦ ?_,
    fun response hresponse ↦ ?_⟩
  · simp only [List.mem_append, List.mem_singleton] at hnumber
    have hold := hs.requests number
    simp only [List.mem_append] at hold
    rcases hnumber with (hnumber | rfl) | hnumber | rfl
    · exact Nat.lt_succ_of_lt (hold (Or.inl hnumber))
    · exact Nat.lt_succ_self _
    · exact Nat.lt_succ_of_lt (hold (Or.inr hnumber))
    · exact Nat.lt_succ_self _
  · have hnumber := (hs.responses response hresponse).number
    refine (hs.responses response hresponse).frame (Nat.le_succ _) fun hawaited ↦ ?_
    have hsame : s.requests = response.1 := Option.some.inj hawaited
    omega

theorem displayInvariant_received (hs : DisplayInvariant s) {index : ℕ}
    (hnext : s.received index = some t) : DisplayInvariant t := by
  obtain ⟨number, response, hawaited, hmem, ⟨hnumber, rfl⟩ | rfl⟩ := received_spec hnext
  · refine ⟨?_, fun h ↦ absurd rfl h, hs.requests, fun other hother ↦ ?_⟩
    · rcases hs.update hmem (hnumber ▸ hawaited) with hblank | ⟨state, -, hstate, hshows⟩
      · exact Or.inr (Or.inl hblank)
      · exact Or.inr (Or.inr ⟨state, hstate, hshows⟩)
    · exact (hs.responses other (List.mem_of_mem_eraseIdx hother)).frame (Nat.le_refl _) nofun
  · exact ⟨hs.panel, hs.current, hs.requests, fun other hother ↦
      (hs.responses other (List.mem_of_mem_eraseIdx hother)).frame (Nat.le_refl _)
        fun h ↦ ⟨h, List.Subset.refl _⟩⟩

/-- A server answers a request with the state of the machine, or without flags. -/
theorem DisplayInvariant.answered (hs : DisplayInvariant s) {number : ℕ}
    {response : AllStatusResponse} {times : State → ℚ} {rest rest' : List ℕ}
    (hnumber : number < s.requests) (hrest : ∀ other ∈ rest ++ rest', other < s.requests)
    (hresponse : response = onAllStatus ∨ ∃ times,
      response = (statusRequest times s.server.machine.stateValue).2)
    (hstate : s.server.machine.stateValue ≠ .undefined) :
    DisplayInvariant { s with
      times := times
      toStatusRequest := rest
      toOnAllStatus := rest'
      responses := s.responses ++ [(number, response)] } := by
  refine ⟨hs.panel, hs.current, hrest, fun other hother ↦ ?_⟩
  rcases List.mem_append.mp hother with hold | hnew
  · exact (hs.responses other hold).frame (Nat.le_refl _) fun h ↦ ⟨h, List.Subset.refl _⟩
  · obtain rfl := List.mem_singleton.mp hnew
    refine ⟨hnumber, hresponse.imp_right ?_⟩
    rintro ⟨times, htimes⟩
    exact ⟨times, _, hstate, htimes,
      fun (hawaited : s.awaited = some number) ↦ hs.current (by simp [hawaited])⟩

/-- The beginning of a request leaves the machine. -/
theorem request_machine {server next : CommandServer} {service : CommandService} {command : Int8}
    (hnext : server.request service command = some next) : next.machine = server.machine := by
  obtain ⟨-, -, ⟨response, rfl⟩ | ⟨-, rfl⟩⟩ := server_request_spec hnext
  · rfl
  · rfl

theorem displayInvariant_step (hstate : s.server.machine.stateValue ≠ .undefined)
    (hs : DisplayInvariant s) {action : PanelAction}
    (hnext : (operatorPanel cycle).next s action = some t) : DisplayInvariant t := by
  cases action with
  | timerEvent => exact displayInvariant_timerEvent hs hnext
  | timedOut =>
    obtain rfl := timedOut_spec hnext
    exact ⟨hs.panel, fun h ↦ absurd rfl h, hs.requests, fun response hresponse ↦
      (hs.responses response hresponse).frame (Nat.le_refl _) nofun⟩
  | received index => exact displayInvariant_received hs hnext
  | pressed cmd =>
    obtain ⟨-, rfl⟩ := pressed_spec hnext
    exact ⟨hs.panel, hs.current, hs.requests, fun response hresponse ↦
      (hs.responses response hresponse).frame (Nat.le_refl _) fun h ↦ ⟨h, List.Subset.refl _⟩⟩
  | statusRequest =>
    obtain ⟨number, rest, hqueue, rfl⟩ := statusRequest_spec hnext
    have hrequests := hs.requests
    rw [hqueue] at hrequests
    exact hs.answered (hrequests number (by simp))
      (fun other hother ↦ hrequests other (List.mem_cons_of_mem _ hother)) (Or.inr ⟨_, rfl⟩) hstate
  | onAllStatus =>
    obtain ⟨number, rest, hqueue, rfl⟩ := onAllStatus_spec hnext
    have hrequests := hs.requests
    rw [hqueue] at hrequests
    refine hs.answered (hrequests number (by simp)) (fun other hother ↦ ?_) (Or.inl rfl) hstate
    rcases List.mem_append.mp hother with hother | hother
    · exact hrequests other (List.mem_append_left _ hother)
    · exact hrequests other (List.mem_append_right _ (List.mem_cons_of_mem _ hother))
  | transRequest =>
    obtain ⟨press, rest, server, -, hserver, rfl⟩ := transRequest_spec hnext
    have hmachine := request_machine hserver
    exact ⟨hs.panel, fun h ↦ hmachine ▸ hs.current h, hs.requests, fun response hresponse ↦
      (hs.responses response hresponse).frame (Nat.le_refl _) fun h ↦ ⟨h, List.Subset.refl _⟩⟩
  | server action =>
    obtain ⟨server, -, rfl⟩ := serverStep_spec hnext
    exact ⟨hs.panel, fun _ ↦ by simp, hs.requests, fun response hresponse ↦
      (hs.responses response hresponse).frame (Nat.le_refl _)
        fun h ↦ ⟨h, List.subset_append_left _ _⟩⟩

theorem displayInvariant_of_reachable (hrun : (operatorPanel cycle).Reachable s) :
    DisplayInvariant s := by
  refine TransitionSystem.ReachableBy.invariant_of_reachable
    (fun s hs ↦ panelState_defined hs) ?_ ?_ hrun
  · rintro s rfl
    exact ⟨Or.inl rfl, fun h ↦ absurd rfl h, nofun, nofun⟩
  · intro s action t hstate hs _ hnext
    exact displayInvariant_step hstate hs hnext

/-- In every run the panel is as it was set up, or blank, or shows one state, with the commands that
the flat table has for it; and a response that changes the panel makes it blank, or makes it show a
state that the machine has had since the `timerEvent` that waits for the response. -/
theorem panel_display (hrun : (operatorPanel cycle).Reachable s) :
    (s.panel = .setupUi ∨ s.panel.IsBlank ∨ ∃ state, state ≠ .undefined ∧ s.panel.Shows state) ∧
      ∀ index t, (operatorPanel cycle).next s (.received index) = some t →
        t.panel = s.panel ∨ t.panel.IsBlank ∨ ∃ state ∈ s.recent, t.panel.Shows state := by
  have hs := displayInvariant_of_reachable hrun
  refine ⟨hs.panel, fun index t hnext ↦ ?_⟩
  obtain ⟨number, response, hawaited, hmem, ⟨hnumber, rfl⟩ | rfl⟩ := received_spec hnext
  · right
    refine (hs.update hmem (hnumber ▸ hawaited)).imp_right ?_
    rintro ⟨state, hrecent, -, hshows⟩
    exact ⟨state, hrecent, hshows⟩
  · exact Or.inl rfl

end Display

/-! ### A run -/

/-- ABORTED is shown, and CLEAR is pressed and answered. -/
def clearPressed : List PanelAction :=
  [.server (.call (.machine (.changeMode .manual))), .server (.call (.machine .modeSwitched)),
    .server (.call (.machine .notified)), .timerEvent, .statusRequest, .received 0,
    .pressed .clear, .transRequest, .server (.call (.assign () .clear)),
    .server (.call (.post ())), .server (.call (.takeFuture ())),
    .server (.call (.machine .select)), .server (.call (.wait ())), .server .returned]

theorem panel_display_clearPressed :
    ∃ s t, (operatorPanel .singleCycle).runFrom .created (clearPressed.take 5) = some s ∧
      (operatorPanel .singleCycle).next s (.received 0) = some t ∧ s.recent = [.aborted] ∧
      (t.panel = s.panel ∨ t.panel.IsBlank ∨ ∃ state ∈ s.recent, t.panel.Shows state) := by
  have hend : ((operatorPanel .singleCycle).runFrom .created (clearPressed.take 5)).map
      (fun s ↦ (s.recent, ((operatorPanel .singleCycle).next s (.received 0)).isSome)) =
      some ([.aborted], true) := rfl
  obtain ⟨s, hrun, hs⟩ := Option.map_eq_some_iff.mp hend
  obtain ⟨hrecent, hsome⟩ := Prod.mk.injEq .. ▸ hs
  obtain ⟨t, hnext⟩ := Option.isSome_iff_exists.mp hsome
  exact ⟨s, t, hrun, hnext, hrecent, (panel_display
    (TransitionSystem.reachable_of_runFrom (.initial rfl) _ hrun)).2 0 t hnext⟩

end PackML
