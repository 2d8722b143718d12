import PackML.Library.Stutter
import PackML.Manager.Announcements

/-!
# What a node sees of the statuses

A node calls `on_status_changed` for the state of a Status when it has another state, and for the
mode when it has another mode. So the calls for one of the two see what the node receives without
repetitions (`cons_seen`), beginning with what the node has at first.

What they see of a variable that the manager publishes follows from what is published. When only
current values are published, they are values that the variable has had, in their order
(`PublishedVariable.seen_sublist`). When also no publication is given up and nothing is lost, they
are all of them, up to the one under way (`PublishedVariable.seen_prefix_history`).
-/

set_option autoImplicit false
set_option relaxedAutoImplicit false

namespace PackML

open TransitionSystem Stutter

variable {Value : Type} [DecidableEq Value] (field : Status → Value)

/-- What the calls of `on_status_changed` for a field of the Status see in a step. -/
def seenField {Client : Type} [DecidableEq Client] (client : Client)
    (step : Step (Voting Client) (LossyAction Client)) : List Value :=
  (received client step).flatMap fun status ↦
    if field (step.before.link client).node.status = field status then [] else [field status]

/-- What a node has at first, and what is published. -/
def toldField {Client : Type} (s : Voting Client) : List Value :=
  field ⟨.undefined, .undefined⟩ :: s.publishedStatuses.map field

section Runs

variable {Client : Type} [DecidableEq Client] {cycle : Cycle} {clients : List Client}
  {client : Client} {r : Recorded (Voting Client) (LossyAction Client)} {history : List Value}
  {current : Value}

omit [DecidableEq Value] in
/-- A node has what it received last. -/
theorem getLast?_received (hclient : client ∈ clients)
    (hrun : (lossy cycle clients).recorded.Reachable r) :
    (field ⟨.undefined, .undefined⟩ :: (r.produced (received client)).map field).getLast? =
      some (field (r.current.link client).node.status) := by
  rw [(inOrder_of_reachable hclient hrun).status, List.getLast?_cons, List.getLast?_map]
  cases (r.produced (received client)).getLast? with
  | none => rfl
  | some status => rfl

/-- A node sees what it receives, without repetitions. -/
theorem cons_seen (hclient : client ∈ clients)
    (hrun : (lossy cycle clients).recorded.Reachable r) :
    field ⟨.undefined, .undefined⟩ :: r.produced (seenField field client) =
      (field ⟨.undefined, .undefined⟩ :: (r.produced (received client)).map field).destutter
        (· ≠ ·) := by
  induction hrun with
  | @initial r h =>
    obtain ⟨current, steps⟩ := r
    obtain ⟨-, rfl⟩ := h
    rfl
  | @step r _ action hbefore _ hnext ih =>
    obtain ⟨t, ht, rfl⟩ := recorded_next hnext
    rw [Recorded.produced_push, Recorded.produced_push, ← List.cons_append, ih, List.map_append,
      ← List.cons_append]
    cases status_step hclient ht with
    | receives status hpublished hstatuses hnode hreceived =>
      rw [seenField, hreceived, List.flatMap_singleton, List.map_singleton, destutter_concat,
        getLast?_received field hclient hbefore]
      by_cases hsame : field (r.current.link client).node.status = field status
      · rw [if_pos hsame, if_pos (congrArg some hsame), List.append_nil]
      · rw [if_neg hsame, if_neg fun h ↦ hsame (Option.some.inj h)]
    | sends messages hpublished hstatuses hnode hreceived =>
      rw [seenField, hreceived, List.flatMap_nil, List.map_nil, List.append_nil, List.append_nil]
    | loses index haction hpublished hstatuses hnode hreceived =>
      rw [seenField, hreceived, List.flatMap_nil, List.map_nil, List.append_nil, List.append_nil]

/-- When nothing is lost, what a node has received and what is under way to it are the statuses
published. -/
theorem received_append_statuses (hclient : client ∈ clients)
    (hrun : (lossy cycle clients).recorded.ReachableBy
      (fun r action ↦ Keeps client r.current action) r) :
    r.produced (received client) ++ (r.current.link client).statuses =
      r.current.publishedStatuses := by
  induction hrun with
  | @initial r h =>
    obtain ⟨current, steps⟩ := r
    obtain ⟨rfl, rfl⟩ := h
    rfl
  | step hbefore hkeeps hnext ih =>
    obtain ⟨t, ht, rfl⟩ := recorded_next hnext
    rw [Recorded.produced_push, Recorded.push_current]
    cases status_step hclient ht with
    | sends messages hpublished hstatuses hnode hreceived =>
      rw [hreceived, hpublished, hstatuses, List.append_nil, ← List.append_assoc, ih]
    | receives status hpublished hstatuses hnode hreceived =>
      rw [hreceived, hpublished, List.append_assoc, List.singleton_append, ← hstatuses, ih]
    | loses index haction =>
      rw [haction] at hkeeps
      exact absurd rfl hkeeps

end Runs

/-! ### Variables that the manager publishes -/

/-- A variable of the manager that is published in a field of the Status: its value, the values that
it takes in a step, whether its value is still to be published, and whether a step gives this up. -/
structure PublishedVariable (Value : Type) where
  field : Status → Value
  value : SMNode → Value
  changes : Step SMNode NodeAction → List Value
  pending : SMNode → Prop
  refuses : NodeAction → Bool

namespace PublishedVariable

variable (v : PublishedVariable Value)

/-- The variable changes after its value was published, or keeps its value and publishes it. -/
inductive Moves {Value : Type} (v : PublishedVariable Value) (s : SMNode) (action : NodeAction)
    (t : SMNode) : Prop
  | changes (hbefore : ¬ v.pending s) (hafter : v.pending t) (hsent : s.statusSent action = [])
      (hchanges : v.changes ⟨s, action, t⟩ = [v.value t]) : Moves v s action t
  | keeps (hchanges : v.changes ⟨s, action, t⟩ = []) (hvalue : v.value t = v.value s)
      (hover : v.pending s → v.pending t ∨ s.statusSent action ≠ [] ∨ v.refuses action = true) :
      Moves v s action t

/-- The variable moves so in every step, and what a node has at first and the first publication are
the beginning of its history. -/
structure Follows {Value : Type} [DecidableEq Value] (v : PublishedVariable Value) (cycle : Cycle) :
    Prop where
  moves : ∀ s action t, (smNode cycle).Reachable s → (smNode cycle).next s action = some t →
    v.Moves s action t
  covered : Covered [v.field ⟨.undefined, .undefined⟩, v.value .activated]
    [v.field ⟨.undefined, .undefined⟩, v.field ⟨.undefined, .manual⟩] (v.value .activated)
  published : ¬ v.pending .activated → v.field ⟨.undefined, .manual⟩ = v.value .activated

section Network

variable {Client : Type}

/-- What a node has at first, and the values that the variable has had. -/
def history (r : Recorded (Voting Client) (LossyAction Client)) : List Value :=
  v.field ⟨.undefined, .undefined⟩ :: v.value .activated :: r.produced (ofManager v.changes)

omit [DecidableEq Value] in
theorem history_push (r : Recorded (Voting Client) (LossyAction Client))
    (action : LossyAction Client) (t : Voting Client) :
    v.history (r.push action t) = v.history r ++ ofManager v.changes ⟨r.current, action, t⟩ := by
  simp [history]

/-- The manager publishes the value of the variable. -/
def PublishesValue (s : Voting Client) : LossyAction Client → Prop
  | .voting (.manager action _) =>
    ∀ message ∈ s.manager.statusSent action, v.field message = v.value s.manager
  | _ => True

/-- No publication is given up. -/
def RefusesNone : LossyAction Client → Prop
  | .voting (.manager action _) => v.refuses action = false
  | _ => True

/-- Each value is published while the variable has it, and nothing is lost on the way to a node. -/
def PassesOn (client : Client) (s : Voting Client) (action : LossyAction Client) : Prop :=
  (v.PublishesValue s action ∧ v.RefusesNone action) ∧ Keeps client s action

instance (s : Voting Client) : (action : LossyAction Client) →
    Decidable (v.PublishesValue s action)
  | .voting (.manager _ _) => inferInstanceAs (Decidable (∀ message ∈ _, _))
  | .voting (.handleState _ _) | .voting (.handleMode _ _) | .voting (.handleStatus _)
  | .lose _ _ => inferInstanceAs (Decidable True)

instance : (action : LossyAction Client) → Decidable (v.RefusesNone action)
  | .voting (.manager _ _) => inferInstanceAs (Decidable (_ = _))
  | .voting (.handleState _ _) | .voting (.handleMode _ _) | .voting (.handleStatus _)
  | .lose _ _ => inferInstanceAs (Decidable True)

instance [DecidableEq Client] (client : Client) (s : Voting Client)
    (action : LossyAction Client) : Decidable (v.PassesOn client s action) :=
  inferInstanceAs (Decidable ((_ ∧ _) ∧ _))

/-- What a step of a network does to the variable and to what is published of it. -/
inductive Publishes {Value : Type} (v : PublishedVariable Value)
    (r : Recorded (Voting Client) (LossyAction Client)) (action : LossyAction Client)
    (t : Voting Client) : Prop
  | changes (hbefore : ¬ v.pending r.current.manager) (hafter : v.pending t.manager)
      (htold : toldField v.field t = toldField v.field r.current)
      (hhistory : v.history (r.push action t) = v.history r ++ [v.value t.manager]) :
      Publishes v r action t
  | keeps (values : List Value) (hvalue : v.value t.manager = v.value r.current.manager)
      (htold : toldField v.field t = toldField v.field r.current ++ values)
      (hcurrent : v.PublishesValue r.current action →
        ∀ value ∈ values, value = v.value r.current.manager)
      (hover : v.pending r.current.manager → v.RefusesNone action →
        v.pending t.manager ∨ values ≠ [])
      (hhistory : v.history (r.push action t) = v.history r) : Publishes v r action t

end Network

section Runs

variable {v} {Client : Type} [DecidableEq Client] {cycle : Cycle} {clients : List Client}
  {client : Client} {t : Voting Client} {r : Recorded (Voting Client) (LossyAction Client)}
  {allowed : Voting Client → LossyAction Client → Prop}

theorem Follows.publishes (hfollows : v.Follows cycle)
    (hrun : (lossy cycle clients).Reachable r.current) {action : LossyAction Client}
    (hnext : (lossy cycle clients).next r.current action = some t) : v.Publishes r action t := by
  obtain ⟨step, available, rfl, hmanager⟩ | ⟨hnode, hmanager⟩ := lossy_manager hnext
  · have htold : toldField v.field t =
        toldField v.field r.current ++ (r.current.manager.statusSent step).map v.field := by
      simp [toldField, Voting.publishedStatuses, published_step hmanager, Function.comp_def]
    cases hfollows.moves _ _ _ (lossyManager_reachable hrun) hmanager with
    | changes hbefore hafter hsent hchanges =>
      rw [hsent, List.map_nil, List.append_nil] at htold
      refine .changes hbefore hafter htold ?_
      rw [history_push, ← hchanges]
      rfl
    | keeps hchanges hvalue hover =>
      refine .keeps _ hvalue htold (fun hcurrent value hmem ↦ ?_) (fun hpending hrefuses ↦ ?_) ?_
      · obtain ⟨message, hmessage, rfl⟩ := List.mem_map.mp hmem
        exact hcurrent message hmessage
      · obtain hafter | hsent | hgivenUp := hover hpending
        · exact Or.inl hafter
        · exact Or.inr (mt List.map_eq_nil_iff.mp hsent)
        · exact absurd (hgivenUp.symm.trans hrefuses) (by decide)
      · rw [history_push]
        show _ ++ v.changes _ = _
        rw [hchanges, List.append_nil]
  · refine .keeps [] (by rw [hmanager]) ?_ (fun _ value hmem ↦ absurd hmem List.not_mem_nil)
      (fun hpending _ ↦ Or.inl (hmanager ▸ hpending)) ?_
    · rw [toldField, Voting.publishedStatuses, hmanager, List.append_nil]
      rfl
    · rw [history_push, ofManager_of_ne hnode, List.append_nil]

/-- So far as current values are published, what is published are values of the variable, in their
order. -/
theorem Follows.sampled (hfollows : v.Follows cycle)
    (hrun : (lossy cycle clients).recorded.ReachableBy
      (fun r action ↦ v.PublishesValue r.current action) r) :
    Sampled (v.history r) (toldField v.field r.current) (v.value r.current.manager) := by
  induction hrun with
  | @initial r h =>
    obtain ⟨current, steps⟩ := r
    obtain ⟨rfl, rfl⟩ := h
    exact hfollows.covered.sampled
  | step hbefore hcurrent hnext ih =>
    obtain ⟨t, ht, rfl⟩ := recorded_next hnext
    cases hfollows.publishes hbefore.reachable.current ht with
    | changes _ _ htold hhistory =>
      rw [hhistory, Recorded.push_current, htold]
      exact ih.change _
    | keeps values hvalue htold hvalues _ hhistory =>
      rw [hhistory, Recorded.push_current, htold, hvalue]
      exact ih.tell (hvalues hcurrent)

/-- What is published of the variable, and its value when it is pending, are its history. -/
structure IsPublished (v : PublishedVariable Value)
    (r : Recorded (Voting Client) (LossyAction Client)) : Prop where
  covered : Covered (v.history r) (toldField v.field r.current) (v.value r.current.manager)
  last : ¬ v.pending r.current.manager →
    (toldField v.field r.current).getLast? = some (v.value r.current.manager)

omit [DecidableEq Client] in
theorem IsPublished.push (hr : v.IsPublished r) {action : LossyAction Client}
    (hcurrent : v.PublishesValue r.current action) (hrefuses : v.RefusesNone action)
    (hpublishes : v.Publishes r action t) : v.IsPublished (r.push action t) := by
  obtain ⟨hcovered, hlast⟩ := hr
  cases hpublishes with
  | changes hbefore hafter htold hhistory =>
    constructor
    · rw [hhistory, Recorded.push_current, htold]
      exact hcovered.change (hlast hbefore) _
    · exact fun h ↦ absurd hafter h
  | keeps values hvalue htold hvalues hover hhistory =>
    constructor
    · rw [hhistory, Recorded.push_current, htold, hvalue]
      exact hcovered.tell (hvalues hcurrent)
    · rw [Recorded.push_current, htold, hvalue]
      intro hdone
      refine getLast?_append_of_eq (hvalues hcurrent) ?_
      by_cases hpending : v.pending r.current.manager
      · exact Or.inr ((hover hpending hrefuses).resolve_left hdone)
      · exact Or.inl (hlast hpending)

theorem Follows.isPublished (hfollows : v.Follows cycle)
    (hrun : (lossy cycle clients).recorded.ReachableBy
      (fun r action ↦ v.PublishesValue r.current action ∧ v.RefusesNone action) r) :
    v.IsPublished r := by
  induction hrun with
  | @initial r h =>
    obtain ⟨current, steps⟩ := r
    obtain ⟨rfl, rfl⟩ := h
    exact ⟨hfollows.covered, fun hpublished ↦ congrArg some (hfollows.published hpublished)⟩
  | step hbefore hallowed hnext ih =>
    obtain ⟨t, ht, rfl⟩ := recorded_next hnext
    exact ih.push hallowed.1 hallowed.2 (hfollows.publishes hbefore.reachable.current ht)

/-- Of a variable whose current values are published a node sees values that it has had, in their
order. -/
theorem Follows.seen_sublist (hfollows : v.Follows cycle) (hclient : client ∈ clients)
    (hrun : (lossy cycle clients).recorded.ReachableBy
      (fun r action ↦ v.PublishesValue r.current action) r) :
    (r.produced (seenField v.field client)).Sublist
      (v.value .activated :: r.produced (ofManager v.changes)) := by
  have hreceived : ((r.produced (received client)).map v.field).Sublist
      (r.current.publishedStatuses.map v.field) :=
    ((List.sublist_append_left _ _).trans
      (inOrder_of_reachable hclient hrun.reachable).order).map _
  have hseen := (hfollows.sampled hrun).seen (hreceived.cons_cons _)
  rw [← cons_seen v.field hclient hrun.reachable] at hseen
  exact List.cons_sublist_cons.mp hseen

/-- Of a variable whose values are all published a node sees a beginning of its history, and all of
it when no value is pending and everything has arrived. -/
theorem Follows.seen_history (hfollows : v.Follows cycle) (hclient : client ∈ clients)
    (hfirst : v.field ⟨.undefined, .undefined⟩ ≠ v.value .activated)
    (hrun : (lossy cycle clients).recorded.ReachableBy
      (fun r action ↦ v.PassesOn client r.current action) r) :
    r.produced (seenField v.field client) <+:
        (v.value .activated :: r.produced (ofManager v.changes)).destutter (· ≠ ·) ∧
      (¬ v.pending r.current.manager → (r.current.link client).statuses = [] →
        r.produced (seenField v.field client) =
          (v.value .activated :: r.produced (ofManager v.changes)).destutter (· ≠ ·)) := by
  obtain ⟨hcovered, hlast⟩ := hfollows.isPublished (hrun.mono fun _ _ hallowed ↦ hallowed.1)
  have htold := congrArg (List.map v.field)
    (received_append_statuses hclient (hrun.mono fun _ _ hallowed ↦ hallowed.2))
  rw [List.map_append] at htold
  have hseen := cons_seen v.field hclient hrun.reachable
  have hhistory : (v.history r).destutter (· ≠ ·) = v.field ⟨.undefined, .undefined⟩ ::
      (v.value .activated :: r.produced (ofManager v.changes)).destutter (· ≠ ·) := by
    rw [history, List.destutter_cons_cons, if_pos hfirst, List.destutter_cons']
  constructor
  · have hbegins := hcovered.prefix_seen ((List.prefix_cons_inj _).mpr ⟨_, htold⟩)
    rw [← hseen, hhistory] at hbegins
    exact (List.prefix_cons_inj _).mp hbegins
  · intro hpublished hdelivered
    rw [hdelivered, List.map_nil, List.append_nil] at htold
    have hall := hcovered.seen (hlast hpublished)
    rw [toldField, ← htold, ← hseen, hhistory] at hall
    exact (List.cons_inj_right _).mp hall

end Runs

end PublishedVariable

end PackML
