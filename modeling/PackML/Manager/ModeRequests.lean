import PackML.Manager.NodeInterface
import PackML.Manager.PublishedStatus
import PackML.Manager.WaitAllFutures

/-!
# Requests for a mode change

`onChangeMode` is the whole of `on_change_mode`, from its first to its last statement, without a
step of the Qt thread in between. It commits the mode in the machine, whose callback stores and
publishes it, before it asks the clients, and it sends the error code 1, which is `SUCCESS`, when
the machine or a client refuses.

`LeavesNoTrace` is what a failure should be: an error code of its own, and the machine, the copy of
the mode and the publications as they were. `onChangeMode_response` says what is answered, and so
no failure is one: a request leaves no trace of a failure exactly when it does not fail
(`failed_mode_change_no_trace_iff`). A request that the machine refuses changes nothing else
(`onChangeMode_refused`); one that a client refuses leaves the mode committed and published
(`failed_mode_change_published`).
-/

set_option autoImplicit false
set_option relaxedAutoImplicit false

namespace PackML

/-! ### The handler -/

namespace SMNode

variable (s : SMNode)

/-- `on_change_mode`. `waited` is what `wait_all_futures` returns; while that does not return, the
handler does not answer. -/
def onChangeMode (mode : ModeType) (waited : Option Bool) : Option SMNode :=
  (s.modeRequest mode).bind fun requested ↦
    match requested.ros with
    | .changing =>
      (requested.install.bind recordMode).bind fun recorded ↦
        ((recorded.fillMode.bind publishMode).bind callMode).bind fun called ↦
          waited.bind fun approved ↦
            (called.modeRound approved).bind fun answered ↦
              match answered.ros with
              | .fillingAgain _ => answered.fillModeAgain.bind publishModeAgain
              | _ => some answered
    | _ => some requested

/-- What is left of a request that was answered: an error code that is not `SUCCESS`, and nothing
else. -/
structure LeavesNoTrace (t : SMNode) (response : ModeChangeResponse) : Prop where
  errorCode : response.errorCode ≠ ModeChangeResponse.successCode
  mode : t.machine.gen.currentMode = s.machine.gen.currentMode
  available : t.machine.gen.available = s.machine.gen.available
  currentMode : t.currentMode = s.currentMode
  published : t.published = s.published

end SMNode

/-- `handle_value` in `on_change_mode`. -/
def handleValue {Client : Type} (_ : Client) (value : TransitionResponse) : Bool := value.success

/-! ### What is answered -/

section Answers

variable {s t : SMNode} {mode : ModeType}

/-- The handler runs on the ROS thread, which handles one request at a time. -/
theorem onChangeMode_idle {waited : Option Bool} (hanswers : s.onChangeMode mode waited = some t) :
    s.ros = .idle ∧ s.machine.switching = none := by
  obtain ⟨requested, hrequest, -⟩ := Option.bind_eq_some_iff.mp hanswers
  unfold SMNode.modeRequest at hrequest
  split at hrequest
  · rename_i hros
    obtain ⟨machine, hmachine, -⟩ := Option.map_eq_some_iff.mp hrequest
    exact ⟨hros, (changeMode_spec hmachine).1⟩
  · cases hrequest

/-- A request that the machine refuses is answered, and changes nothing. -/
theorem onChangeMode_refused (hros : s.ros = .idle) (hswitching : s.machine.switching = none)
    (hswitch : s.machine.gen.canSwitch s.machine.stateValue = false) (waited : Option Bool) :
    s.onChangeMode mode waited = some { s with responses := s.responses ++
      [⟨false, ModeChangeResponse.successCode,
        "Cannot switch mode in state: " ++ s.machine.stateValue.toString⟩] } := by
  have hrequest : s.modeRequest mode = some (s.respond ⟨false, ModeChangeResponse.successCode,
      "Cannot switch mode in state: " ++ s.machine.stateValue.toString⟩) := by
    simp [SMNode.modeRequest, hros, Execution.changeMode, hswitching, hswitch,
      changeMode_refused hswitch]
  simp [SMNode.onChangeMode, hrequest, SMNode.respond, hros]

/-- The manager when it waits for the clients: the mode was installed, stored and published. -/
def SMNode.modeCalled (s : SMNode) (mode : ModeType) : SMNode :=
  { s with
    machine := { s.machine with gen := s.machine.gen.switch (modeOf mode), switching := none }
    currentMode := mode
    ros := .waiting mode
    accepted := mode
    published := s.published ++ [⟨⟨s.currentState, mode⟩, ⟨s.machine.stateValue, mode⟩⟩] }

/-- The answer to a request that the machine accepts depends on what the wait for the clients
returns. -/
theorem onChangeMode_accepted (hros : s.ros = .idle) (hswitching : s.machine.switching = none)
    (hswitch : s.machine.gen.canSwitch s.machine.stateValue = true) (waited : Option Bool) :
    s.onChangeMode mode waited = waited.bind fun approved ↦
      ((s.modeCalled mode).modeRound approved).bind fun answered ↦
        match answered.ros with
        | .fillingAgain _ => answered.fillModeAgain.bind SMNode.publishModeAgain
        | _ => some answered := by
  have hrequest : s.modeRequest mode =
      some { s with machine := { s.machine with switching := some mode }, ros := .changing } := by
    simp [SMNode.modeRequest, hros, Execution.changeMode, hswitching, hswitch,
      changeMode_accepted hswitch]
  simp only [SMNode.onChangeMode, hrequest, Option.bind_some]
  rfl

/-- Every request that is answered is answered with the error code of a success; it succeeds when
the machine has accepted it and the wait for the clients has returned true. -/
theorem onChangeMode_response {waited : Option Bool}
    (hanswers : s.onChangeMode mode waited = some t) :
    ∃ response, t.responses = s.responses ++ [response] ∧
      response.errorCode = ModeChangeResponse.successCode ∧
      (response.success = true ↔
        s.machine.gen.canSwitch s.machine.stateValue = true ∧ waited = some true) := by
  obtain ⟨hros, hswitching⟩ := onChangeMode_idle hanswers
  cases hswitch : s.machine.gen.canSwitch s.machine.stateValue with
  | false =>
    rw [onChangeMode_refused hros hswitching hswitch] at hanswers
    obtain rfl := Option.some.inj hanswers
    exact ⟨_, rfl, rfl, by simp⟩
  | true =>
    rw [onChangeMode_accepted hros hswitching hswitch] at hanswers
    obtain ⟨approved, rfl, hround⟩ := Option.bind_eq_some_iff.mp hanswers
    cases approved with
    | false =>
      obtain rfl := Option.some.inj hround
      exact ⟨_, rfl, rfl, by simp⟩
    | true =>
      obtain rfl := Option.some.inj hround
      exact ⟨_, rfl, rfl, by simp⟩

/-- Whatever fails, the failure leaves no trace exactly when the request does not fail: the state
allows the change, there are clients and all are available, and no sweep over them ends with a
refusal. -/
theorem failed_mode_change_no_trace_iff {Client : Type} {clientMap : List Client}
    {available : Client → Bool} {arrival : Client → Option ℕ}
    {responses : Client → TransitionResponse} {fuel : ℕ}
    (hanswers : s.onChangeMode mode
      (waitForAll clientMap available arrival responses handleValue fuel) = some t) :
    (∀ response, t.responses = s.responses ++ [response] → response.success = false →
        s.LeavesNoTrace t response) ↔
      s.machine.gen.canSwitch s.machine.stateValue = true ∧ clientMap ≠ [] ∧
        (∀ client ∈ clientMap, available client = true) ∧
          NoSweepRefused clientMap arrival fun client ↦ (responses client).success := by
  obtain ⟨response, hresponse, hcode, hsuccess⟩ := onChangeMode_response hanswers
  have hnever : (∀ response, t.responses = s.responses ++ [response] → response.success = false →
      s.LeavesNoTrace t response) ↔ response.success = true := by
    constructor
    · intro htrace
      by_contra hfailed
      exact (htrace response hresponse (Bool.eq_false_iff.mpr hfailed)).errorCode hcode
    · intro hgood other hother hfailed
      obtain rfl : response = other := by simpa [hresponse] using hother
      rw [hgood] at hfailed
      cases hfailed
  rw [hnever, hsuccess]
  refine and_congr_right fun hswitch ↦ ?_
  obtain ⟨hros, hswitching⟩ := onChangeMode_idle hanswers
  rw [onChangeMode_accepted hros hswitching hswitch] at hanswers
  obtain ⟨returned, hreturned, -⟩ := Option.bind_eq_some_iff.mp hanswers
  rw [hreturned, Option.some.injEq]
  exact waitForAll_eq_true_iff hreturned

end Answers

/-! ### Runs -/

/-- The response of a client that approves or refuses. -/
def transitionResponse (success : Bool) : TransitionResponse :=
  PackmlNodeInterface.response success "Node did not approve mode switch"

/-- A manager that is in IDLE in MANUAL, when every round so far was approved, is asked for
MAINTENANCE, and its only client approves. -/
theorem failed_mode_change_no_trace_iff_approved :
    ∃ s t, (smNode .singleCycle).runFrom .activated (enterIdleRun ++ approvedRound) = some s ∧
      s.onChangeMode .maintenance (some true) = some t ∧
        ∀ response, t.responses = s.responses ++ [response] → response.success = false →
          s.LeavesNoTrace t response := by
  have hend : ((smNode .singleCycle).runFrom .activated (enterIdleRun ++ approvedRound)).map
      (fun s ↦ (s.machine.gen.canSwitch s.machine.stateValue,
        (s.onChangeMode .maintenance (some true)).isSome)) = some (true, true) := rfl
  obtain ⟨s, hrun, hs⟩ := Option.map_eq_some_iff.mp hend
  obtain ⟨hswitch, hsome⟩ := Prod.mk.injEq .. ▸ hs
  obtain ⟨t, hanswers⟩ := Option.isSome_iff_exists.mp hsome
  have hwait : waitForAll [()] (fun _ ↦ true) (fun _ ↦ some 0) (fun _ ↦ transitionResponse true)
      handleValue 1 = some true := rfl
  have happroved : NoSweepRefused [()] (fun _ ↦ some 0) fun _ ↦ (transitionResponse true).success :=
    fun _ _ _ ↦ rfl
  exact ⟨s, t, hrun, hanswers,
    (failed_mode_change_no_trace_iff (hwait ▸ hanswers)).mpr ⟨hswitch, by simp, by simp, happroved⟩⟩

/-- The same request is refused by the client: the mode is committed, stored and published, and the
answer is a failure with the error code `SUCCESS`. -/
theorem failed_mode_change_published :
    ∃ s t, (smNode .singleCycle).runFrom .activated (enterIdleRun ++ approvedRound) = some s ∧
      s.onChangeMode .maintenance (waitForAll [()] (fun _ ↦ true) (fun _ ↦ some 0)
        (fun _ ↦ transitionResponse false) handleValue 1) = some t ∧
      s.responses = [] ∧
      t.responses = [⟨false, ModeChangeResponse.successCode,
        "Error in one of the packml clients"⟩] ∧
      (s.currentMode, t.currentMode) = (.manual, .maintenance) ∧
      (s.machine.gen.currentMode.name, t.machine.gen.currentMode.name) =
        ("MANUAL", "MAINTENANCE") ∧
      t.published.drop s.published.length =
        [⟨⟨.idle, .maintenance⟩, ⟨.idle, .maintenance⟩⟩] ∧
      ¬ ∀ response, t.responses = s.responses ++ [response] → response.success = false →
        s.LeavesNoTrace t response := by
  have hend : ((smNode .singleCycle).runFrom .activated (enterIdleRun ++ approvedRound)).bind
      (fun s ↦ (s.onChangeMode .maintenance (waitForAll [()] (fun _ ↦ true) (fun _ ↦ some 0)
        (fun _ ↦ transitionResponse false) handleValue 1)).map fun t ↦
          (s.responses, t.responses, (s.currentMode, t.currentMode),
            (s.machine.gen.currentMode.name, t.machine.gen.currentMode.name),
            t.published.drop s.published.length)) =
      some ([], [⟨false, ModeChangeResponse.successCode, "Error in one of the packml clients"⟩],
        (.manual, .maintenance), ("MANUAL", "MAINTENANCE"),
        [⟨⟨.idle, .maintenance⟩, ⟨.idle, .maintenance⟩⟩]) := rfl
  obtain ⟨s, hrun, hs⟩ := Option.bind_eq_some_iff.mp hend
  obtain ⟨t, hanswers, ht⟩ := Option.map_eq_some_iff.mp hs
  obtain ⟨hbefore, hs⟩ := Prod.mk.injEq .. ▸ ht
  obtain ⟨hafter, hs⟩ := Prod.mk.injEq .. ▸ hs
  obtain ⟨hcopies, hs⟩ := Prod.mk.injEq .. ▸ hs
  obtain ⟨hmodes, hpublished⟩ := Prod.mk.injEq .. ▸ hs
  refine ⟨s, t, hrun, hanswers, hbefore, hafter, hcopies, hmodes, hpublished, ?_⟩
  intro htrace
  have hleft := htrace _ (by rw [hbefore, hafter]; rfl) rfl
  exact hleft.errorCode rfl

end PackML
