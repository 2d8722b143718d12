import PackML.Manager.StateHistory

/-!
# Nodes see the same in the same order

What the calls of `on_status_changed` see is decided by the statuses that a node receives
(`produced_statusCalls`), also where a call sees a pair that no Status carried. Nodes answer
requests at different times and may refuse them, and the manager may publish outdated statuses; but
what it publishes goes to every node in the same order. So of what two nodes have seen one is a
beginning of the other as long as nothing is lost on the way to them, and both have seen the same
when nothing is under way (`nodes_see_alike`).
-/

set_option autoImplicit false
set_option relaxedAutoImplicit false

namespace PackML

open TransitionSystem

/-- What the calls of `on_status_changed` see in a step. -/
def statusCalls {Client : Type} [DecidableEq Client] (client : Client)
    (step : Step (Voting Client) (LossyAction Client)) : List Status :=
  (received client step).flatMap fun status ↦
    ((step.before.link client).node.onStatusChanged status).2

/-- What the calls see when a node that has a status receives others. -/
def callsFor (status : Status) : List Status → List Status
  | [] => []
  | message :: rest =>
    ((if status.state ≠ message.state then [⟨message.state, status.mode⟩] else []) ++
      (if status.mode ≠ message.mode then [message] else [])) ++ callsFor message rest

theorem callsFor_append (status : Status) (messages later : List Status) :
    callsFor status (messages ++ later) =
      callsFor status messages ++ callsFor (messages.getLast?.getD status) later := by
  induction messages generalizing status with
  | nil => rfl
  | cons message rest ih =>
    have hlast : (message :: rest).getLast?.getD status = rest.getLast?.getD message := by
      rw [List.getLast?_cons]
      rfl
    rw [List.cons_append, callsFor, callsFor, ih, hlast]
    simp only [List.append_assoc]

/-- Who receives more sees more, after the same beginning. -/
theorem callsFor_prefix_mono (status : Status) {messages more : List Status}
    (hbegins : messages <+: more) : callsFor status messages <+: callsFor status more := by
  obtain ⟨later, rfl⟩ := hbegins
  rw [callsFor_append]
  exact List.prefix_append _ _

section Runs

variable {Client : Type} [DecidableEq Client] {cycle : Cycle} {clients : List Client}
  {client first second : Client} {r : Recorded (Voting Client) (LossyAction Client)}

/-- What a node sees is decided by what it receives. -/
theorem produced_statusCalls (hclient : client ∈ clients)
    (hrun : (lossy cycle clients).recorded.Reachable r) :
    r.produced (statusCalls client) =
      callsFor ⟨.undefined, .undefined⟩ (r.produced (received client)) := by
  induction hrun with
  | @initial r h =>
    obtain ⟨current, steps⟩ := r
    obtain ⟨-, rfl⟩ := h
    rfl
  | @step r _ action hbefore _ hnext ih =>
    obtain ⟨t, ht, rfl⟩ := recorded_next hnext
    rw [Recorded.produced_push, Recorded.produced_push, callsFor_append, ih,
      ← (inOrder_of_reachable hclient hbefore).status]
    congr 1
    cases status_step hclient ht with
    | receives status hpublished hstatuses hnode hreceived =>
      rw [statusCalls, hreceived, List.flatMap_singleton, onStatusChanged_seen, callsFor, callsFor,
        List.append_nil]
      rfl
    | sends messages hpublished hstatuses hnode hreceived =>
      rw [statusCalls, hreceived, List.flatMap_nil, callsFor]
    | loses index haction hpublished hstatuses hnode hreceived =>
      rw [statusCalls, hreceived, List.flatMap_nil, callsFor]

/-- As long as nothing is lost on the way to two nodes, of what they have seen one is a beginning of
the other, and both have seen the same when nothing is under way to them. -/
theorem nodes_see_alike (hfirst : first ∈ clients) (hsecond : second ∈ clients)
    (hrun : (lossy cycle clients).recorded.ReachableBy
      (fun r action ↦ Keeps first r.current action ∧ Keeps second r.current action) r) :
    (r.produced (statusCalls first) <+: r.produced (statusCalls second) ∨
        r.produced (statusCalls second) <+: r.produced (statusCalls first)) ∧
      ((r.current.link first).statuses = [] → (r.current.link second).statuses = [] →
        r.produced (statusCalls first) = r.produced (statusCalls second)) := by
  have hreceivedFirst := received_append_statuses hfirst (hrun.mono fun _ _ hkeeps ↦ hkeeps.1)
  have hreceivedSecond := received_append_statuses hsecond (hrun.mono fun _ _ hkeeps ↦ hkeeps.2)
  rw [produced_statusCalls hfirst hrun.reachable, produced_statusCalls hsecond hrun.reachable]
  constructor
  · have hbegins : r.produced (received first) <+: r.current.publishedStatuses :=
      ⟨_, hreceivedFirst⟩
    have hbegins' : r.produced (received second) <+: r.current.publishedStatuses :=
      ⟨_, hreceivedSecond⟩
    rcases List.prefix_or_prefix_of_prefix hbegins hbegins' with hless | hmore
    · exact Or.inl (callsFor_prefix_mono _ hless)
    · exact Or.inr (callsFor_prefix_mono _ hmore)
  · intro hdelivered hdelivered'
    rw [hdelivered, List.append_nil] at hreceivedFirst
    rw [hdelivered', List.append_nil] at hreceivedSecond
    rw [hreceivedFirst, hreceivedSecond]

end Runs

/-! ### A run -/

/-- One node has seen ABORTED, the other nothing yet. -/
theorem nodes_see_alike_clearingReceived :
    ∃ r, (lossy .singleCycle [true, false]).recorded.runFrom ⟨.activated, []⟩
        clearingReceived = some r ∧
      r.produced (statusCalls true) =
          [⟨.undefined, .manual⟩, ⟨.aborted, .manual⟩] ∧
        ((r.produced (statusCalls true) <+: r.produced (statusCalls false) ∨
            r.produced (statusCalls false) <+: r.produced (statusCalls true)) ∧
          ((r.current.link true).statuses = [] → (r.current.link false).statuses = [] →
            r.produced (statusCalls true) = r.produced (statusCalls false))) := by
  have hend : ((lossy .singleCycle [true, false]).recorded.runFrom ⟨.activated, []⟩
      clearingReceived).map (fun r ↦ r.produced (statusCalls true)) =
        some [⟨.undefined, .manual⟩, ⟨.aborted, .manual⟩] := rfl
  obtain ⟨r, hrun, hseen⟩ := Option.map_eq_some_iff.mp hend
  have hinitial : (lossy .singleCycle [true, false]).recorded.initial ⟨.activated, []⟩ :=
    ⟨rfl, rfl⟩
  have hallowed : (lossy .singleCycle [true, false]).recorded.AllowedAlong
      (fun r action ↦ Keeps true r.current action ∧ Keeps false r.current action)
        clearingReceived ⟨.activated, []⟩ := by
    decide +kernel
  exact ⟨r, hrun, hseen, nodes_see_alike (by decide) (by decide)
    (reachableBy_of_runFrom (.initial hinitial) _ hallowed hrun)⟩

end PackML
