import PackML.Library.History
import PackML.Manager.FailedRounds
import PackML.Manager.StatusCallbacks

/-!
# Status messages that are lost

The manager publishes with the quality of service of sensor data, under which a Status may be lost
on its way to a node. In `lossy` any Status under way may be lost at any time.

What a node receives are nevertheless published statuses, in the order of their publication, so that
a node never goes back (`statuses_in_order`). It does not repair a loss by itself, but it needs no
more than the next publication: in every continuation in which something is published and nothing is
lost, a node that has received everything has the status published last, whatever it has missed
before (`catches_up`). `status_step` says once what a step does to the statuses of one node.
-/

set_option autoImplicit false
set_option relaxedAutoImplicit false

namespace PackML

/-! ### Losses -/

/-- The steps of a network in which Status messages are lost: those of the network, and the loss of
a Status under way to a node. -/
inductive LossyAction (Client : Type)
  | voting (action : VotingAction Client)
  | lose (client : Client) (index : ℕ)

namespace Voting

variable {Client : Type} (s : Voting Client)

/-- A Status under way to a node is lost. -/
def loseStatus (client : Client) (index : ℕ) : Option VotingLink :=
  let link := s.link client
  if index < link.statuses.length then
    some { link with statuses := link.statuses.eraseIdx index }
  else none

/-- The statuses published, oldest first; the constructor has published the first. -/
def publishedStatuses : List Status :=
  ⟨.undefined, .manual⟩ :: s.manager.published.map (·.status)

theorem lastStatus_eq :
    s.manager.lastStatus = s.publishedStatuses.getLast?.getD ⟨.undefined, .manual⟩ := by
  simp [SMNode.lastStatus, publishedStatuses, List.getLast?_cons, List.getLast?_map]

end Voting

section

variable {Client : Type} [DecidableEq Client]

/-- The runs of a network in which Status messages are lost. -/
def lossy (cycle : Cycle) (clients : List Client) :
    TransitionSystem (Voting Client) (LossyAction Client) where
  initial s := s = .activated
  next s
    | .voting action => (voting cycle clients).next s action
    | .lose client index => (s.loseStatus client index).map (s.update client)

/-- The Status that a step delivers to a node. -/
def received (client : Client)
    (step : TransitionSystem.Step (Voting Client) (LossyAction Client)) : List Status :=
  match step.action with
  | .voting (.handleStatus handled) =>
    if handled = client then (step.before.link client).statuses.head?.toList else []
  | _ => []

/-! ### What a step does -/

/-- What a step does to the statuses of a node: the manager sends it some, it receives one, or one
is lost. -/
inductive StatusStep (client : Client) (s : Voting Client) (action : LossyAction Client)
    (t : Voting Client) : Prop
  | sends (messages : List Status)
      (hpublished : t.publishedStatuses = s.publishedStatuses ++ messages)
      (hstatuses : (t.link client).statuses = (s.link client).statuses ++ messages)
      (hnode : (t.link client).node.status = (s.link client).node.status)
      (hreceived : received client ⟨s, action, t⟩ = []) : StatusStep client s action t
  | receives (status : Status) (hpublished : t.publishedStatuses = s.publishedStatuses)
      (hstatuses : (s.link client).statuses = status :: (t.link client).statuses)
      (hnode : (t.link client).node.status = status)
      (hreceived : received client ⟨s, action, t⟩ = [status]) : StatusStep client s action t
  | loses (index : ℕ) (haction : action = .lose client index)
      (hpublished : t.publishedStatuses = s.publishedStatuses)
      (hstatuses : (t.link client).statuses = (s.link client).statuses.eraseIdx index)
      (hnode : (t.link client).node.status = (s.link client).node.status)
      (hreceived : received client ⟨s, action, t⟩ = []) : StatusStep client s action t

variable {cycle : Cycle} {clients : List Client} {client : Client} {s t : Voting Client}

/-- A step of one node that leaves the statuses under way to another, or to itself, and the status
that it has. -/
theorem StatusStep.of_update {handled : Client} {link : VotingLink} {action : LossyAction Client}
    (hlink : handled = client → link.statuses = (s.link handled).statuses ∧
      link.node.status = (s.link handled).node.status)
    (hreceived : received client ⟨s, action, s.update handled link⟩ = []) :
    StatusStep client s action (s.update handled link) := by
  have hkept : ((s.update handled link).link client).statuses = (s.link client).statuses ∧
      ((s.update handled link).link client).node.status = (s.link client).node.status := by
    by_cases hsame : handled = client
    · subst hsame
      simpa [Voting.update] using hlink rfl
    · simp [Voting.update, Function.update_of_ne (Ne.symm hsame)]
  exact .sends [] (List.append_nil _).symm (hkept.1.trans (List.append_nil _).symm) hkept.2
    hreceived

theorem status_step (hclient : client ∈ clients) {action : LossyAction Client}
    (hnext : (lossy cycle clients).next s action = some t) : StatusStep client s action t := by
  cases action with
  | lose handled index =>
    obtain ⟨link, hlose, rfl⟩ := Option.map_eq_some_iff.mp hnext
    obtain ⟨-, hlose⟩ := Option.ite_none_right_eq_some.mp hlose
    obtain rfl := Option.some.inj hlose
    by_cases hsame : handled = client
    · subst hsame
      exact .loses index rfl rfl (by simp [Voting.update]) (by simp [Voting.update]) rfl
    · exact .of_update (fun h ↦ absurd h hsame) rfl
  | voting action =>
    cases action with
    | manager action available =>
      obtain ⟨-, hnext⟩ := Option.ite_none_right_eq_some.mp hnext
      obtain ⟨manager, hmanager, rfl⟩ := Option.map_eq_some_iff.mp hnext
      refine .sends (s.manager.statusSent action) ?_ (by simp [Voting.sent, hclient])
        (by simp [Voting.sent, hclient]) rfl
      simp [Voting.publishedStatuses, published_step hmanager, Function.comp_def]
    | handleState handled approved =>
      obtain ⟨link, hhandle, rfl⟩ := Option.map_eq_some_iff.mp hnext
      refine .of_update (fun _ ↦ ?_) rfl
      unfold Voting.handleState at hhandle
      split at hhandle
      · obtain rfl := Option.some.inj hhandle
        exact ⟨rfl, onStateTransReq_status _ _ approved⟩
      · cases hhandle
    | handleMode handled approved =>
      obtain ⟨link, hhandle, rfl⟩ := Option.map_eq_some_iff.mp hnext
      refine .of_update (fun _ ↦ ?_) rfl
      unfold Voting.handleMode at hhandle
      split at hhandle
      · obtain rfl := Option.some.inj hhandle
        exact ⟨rfl, onModeTransReq_status _ _ approved⟩
      · cases hhandle
    | handleStatus handled =>
      obtain ⟨link, hhandle, rfl⟩ := Option.map_eq_some_iff.mp hnext
      unfold Voting.handleStatus at hhandle
      split at hhandle
      · rename_i status rest hstatuses
        obtain rfl := Option.some.inj hhandle
        by_cases hsame : handled = client
        · subst hsame
          refine .receives status rfl (by simpa [Voting.update] using hstatuses) ?_
            (by simp [received, hstatuses])
          simpa [Voting.update] using PackmlNodeInterface.onStatusChanged_status _ status
        · exact .of_update (fun h ↦ absurd h hsame) (if_neg hsame)
      · cases hhandle

/-! ### What a node receives -/

/-- What a node has received, with what is under way to it, are published statuses in their order,
and the node has the last one that it received. -/
structure InOrder (client : Client)
    (r : TransitionSystem.Recorded (Voting Client) (LossyAction Client)) : Prop where
  order : (r.produced (received client) ++ (r.current.link client).statuses).Sublist
    r.current.publishedStatuses
  status : (r.current.link client).node.status =
    (r.produced (received client)).getLast?.getD ⟨.undefined, .undefined⟩

theorem inOrder_step (hclient : client ∈ clients)
    {r : TransitionSystem.Recorded (Voting Client) (LossyAction Client)}
    (hr : InOrder client r) {action : LossyAction Client}
    (hnext : (lossy cycle clients).next r.current action = some t) :
    InOrder client (r.push action t) := by
  obtain ⟨horder, hstatus⟩ := hr
  cases status_step hclient hnext with
  | sends messages hpublished hstatuses hnode hreceived =>
    constructor
    · simp only [TransitionSystem.Recorded.produced_push, TransitionSystem.Recorded.push_current,
        hreceived, hpublished, hstatuses, List.append_nil, ← List.append_assoc]
      exact horder.append_right messages
    · simp only [TransitionSystem.Recorded.produced_push, TransitionSystem.Recorded.push_current,
        hreceived, hnode, hstatus, List.append_nil]
  | receives status hpublished hstatuses hnode hreceived =>
    constructor
    · simp only [TransitionSystem.Recorded.produced_push, TransitionSystem.Recorded.push_current,
        hreceived, hpublished, List.append_assoc, List.singleton_append, ← hstatuses]
      exact horder
    · simp [hreceived, hnode]
  | loses index haction hpublished hstatuses hnode hreceived =>
    constructor
    · simp only [TransitionSystem.Recorded.produced_push, TransitionSystem.Recorded.push_current,
        hreceived, hpublished, hstatuses, List.append_nil]
      exact ((List.eraseIdx_sublist _ index).append_left _).trans horder
    · simp only [TransitionSystem.Recorded.produced_push, TransitionSystem.Recorded.push_current,
        hreceived, hnode, hstatus, List.append_nil]

theorem inOrder_of_reachable {r : TransitionSystem.Recorded (Voting Client) (LossyAction Client)}
    (hclient : client ∈ clients) (hrun : (lossy cycle clients).recorded.Reachable r) :
    InOrder client r := by
  refine TransitionSystem.Reachable.recorded_invariant (fun _ _ ↦ trivial) ?_ ?_ hrun
  · rintro s rfl
    exact ⟨List.Sublist.refl _, rfl⟩
  · intro r action t _ hr hnext
    exact inOrder_step hclient hr hnext

/-- In every run, whatever is lost, a node receives published statuses in the order of their
publication, and has the one that it received last. -/
theorem statuses_in_order {r : TransitionSystem.Recorded (Voting Client) (LossyAction Client)}
    (hclient : client ∈ clients) (hrun : (lossy cycle clients).recorded.Reachable r) :
    (r.produced (received client)).Sublist r.current.publishedStatuses ∧
      (r.current.link client).node.status =
        (r.produced (received client)).getLast?.getD ⟨.undefined, .undefined⟩ := by
  obtain ⟨horder, hstatus⟩ := inOrder_of_reachable hclient hrun
  exact ⟨(List.sublist_append_left _ _).trans horder, hstatus⟩

/-! ### Catching up -/

/-- Nothing is lost on the way to a node. -/
def Keeps (client : Client) (_ : Voting Client) : LossyAction Client → Prop
  | .lose other _ => other ≠ client
  | .voting _ => True

instance (client : Client) (s : Voting Client) : (action : LossyAction Client) →
    Decidable (Keeps client s action)
  | .lose other _ => inferInstanceAs (Decidable (other ≠ client))
  | .voting _ => inferInstanceAs (Decidable True)

/-- The status that a node will have when it has received everything is the one published last. -/
def CatchingUp (client : Client) (s : Voting Client) : Prop :=
  (s.link client).statuses.getLast?.getD (s.link client).node.status = s.manager.lastStatus

/-- A step that loses nothing on the way to a node keeps it catching up, and a publication lets it
begin. -/
theorem catchingUp_step (hclient : client ∈ clients) {action : LossyAction Client}
    (hkeeps : Keeps client s action) (hnext : (lossy cycle clients).next s action = some t)
    (hs : CatchingUp client s ∨ s.publishedStatuses.length < t.publishedStatuses.length) :
    CatchingUp client t := by
  unfold CatchingUp at hs ⊢
  rw [Voting.lastStatus_eq] at hs ⊢
  cases status_step hclient hnext with
  | sends messages hpublished hstatuses hnode _ =>
    rw [hpublished, hstatuses, hnode, List.getLast?_append, List.getLast?_append]
    cases hlast : messages.getLast? with
    | some status => rfl
    | none =>
      obtain rfl := List.getLast?_eq_none_iff.mp hlast
      simpa [hpublished] using hs
  | receives status hpublished hstatuses hnode _ =>
    have hbefore := hs.resolve_right (by simp [hpublished])
    rw [hstatuses, List.getLast?_cons] at hbefore
    rw [hpublished, ← hbefore, hnode]
    cases (t.link client).statuses.getLast? <;> rfl
  | loses index haction _ _ _ _ =>
    rw [haction] at hkeeps
    exact absurd rfl hkeeps

/-- A continuation that loses nothing on the way to a node, and publishes something unless the node
is catching up already. -/
theorem catchingUp_run (hclient : client ∈ clients) (actions : List (LossyAction Client))
    (hkeeps : (lossy cycle clients).AllowedAlong (Keeps client) actions s)
    (hrun : (lossy cycle clients).runFrom s actions = some t)
    (hs : CatchingUp client s ∨ s.publishedStatuses.length < t.publishedStatuses.length) :
    CatchingUp client t := by
  induction actions generalizing s with
  | nil =>
    obtain rfl := TransitionSystem.runFrom_nil_iff.mp hrun
    exact hs.resolve_right (Nat.lt_irrefl _)
  | cons action rest ih =>
    obtain ⟨middle, hfirst, hrest⟩ := TransitionSystem.runFrom_cons_iff.mp hrun
    obtain ⟨hnow, hlater⟩ := hkeeps
    rw [hfirst] at hlater
    refine ih hlater hrest ?_
    by_cases hmiddle : CatchingUp client middle
    · exact Or.inl hmiddle
    · -- nothing was published in this step
      have hbefore := mt (catchingUp_step hclient hnow hfirst) hmiddle
      rw [not_or, Nat.not_lt] at hbefore
      exact Or.inr (Nat.lt_of_le_of_lt hbefore.2 (hs.resolve_left hbefore.1))

/-- In every continuation in which something is published and nothing is lost on the way to a node,
the node has the status published last once nothing is under way to it, whatever was lost before. -/
theorem catches_up (hclient : client ∈ clients) {actions : List (LossyAction Client)}
    (hkeeps : (lossy cycle clients).AllowedAlong (Keeps client) actions s)
    (hrun : (lossy cycle clients).runFrom s actions = some t)
    (hpublished : s.manager.published.length < t.manager.published.length)
    (hreceived : (t.link client).statuses = []) :
    (t.link client).node.status = t.manager.lastStatus := by
  have hcatching : CatchingUp client t := catchingUp_run hclient actions hkeeps hrun
    (Or.inr (by simpa [Voting.publishedStatuses] using hpublished))
  simpa [CatchingUp, hreceived] using hcatching

end

/-! ### A run -/

/-- ABORTED is agreed and published, and one node receives it. -/
def abortedReceived : List (LossyAction Bool) :=
  agreedRound.map .voting ++ [.voting (.handleStatus true)]

/-- The first publication does not arrive at that node. -/
theorem statuses_in_order_abortedReceived :
    ∃ r, (lossy .singleCycle [true, false]).recorded.runFrom ⟨.activated, []⟩
        (.lose true 0 :: abortedReceived) = some r ∧
      r.produced (received true) = [⟨.aborted, .manual⟩] ∧
      [⟨.aborted, .manual⟩].Sublist r.current.publishedStatuses ∧
        (r.current.link true).node.status = ⟨.aborted, .manual⟩ := by
  have hend : ((lossy .singleCycle [true, false]).recorded.runFrom ⟨.activated, []⟩
      (.lose true 0 :: abortedReceived)).map (fun r ↦ r.produced (received true)) =
      some [⟨.aborted, .manual⟩] := rfl
  obtain ⟨r, hrun, hreceived⟩ := Option.map_eq_some_iff.mp hend
  have hinitial : (lossy .singleCycle [true, false]).recorded.initial ⟨.activated, []⟩ :=
    ⟨rfl, rfl⟩
  have hreachable := TransitionSystem.reachable_of_runFrom (.initial hinitial) _ hrun
  have hordered := statuses_in_order (show true ∈ [true, false] by decide) hreachable
  rw [hreceived] at hordered
  exact ⟨r, hrun, hreceived, hordered⟩

theorem catches_up_abortedReceived :
    ∃ s t, (lossy .singleCycle [true, false]).next .activated (.lose true 0) = some s ∧
      (lossy .singleCycle [true, false]).runFrom s abortedReceived = some t ∧
        (t.link true).node.status = t.manager.lastStatus := by
  have hend : ((lossy .singleCycle [true, false]).next .activated (.lose true 0)).bind
      (fun s ↦ ((lossy .singleCycle [true, false]).runFrom s abortedReceived).map fun t ↦
        (s.manager.published.length, t.manager.published.length, (t.link true).statuses)) =
      some (0, 1, []) := rfl
  obtain ⟨s, hlost, hs⟩ := Option.bind_eq_some_iff.mp hend
  obtain ⟨t, hrun, ht⟩ := Option.map_eq_some_iff.mp hs
  simp only [Prod.mk.injEq] at ht
  obtain ⟨hbefore, hafter, hstatuses⟩ := ht
  refine ⟨s, t, hlost, hrun, catches_up (by decide) ?_ hrun (by omega) hstatuses⟩
  refine TransitionSystem.allowedAlong_of_forall_mem (fun action hmem _ ↦ ?_) s
  rcases List.mem_append.mp hmem with hround | hlast
  · obtain ⟨voted, -, rfl⟩ := List.mem_map.mp hround
    trivial
  · obtain rfl := List.mem_singleton.mp hlast
    trivial

end PackML
