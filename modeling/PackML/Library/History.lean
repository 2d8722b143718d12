import Mathlib.Data.List.Flatten
import PackML.Library.TransitionSystem

/-!
# Runs that record their steps

`recorded` is a transition system that runs as a given one does and keeps its steps, newest first.
A statement about what has happened in a run is a statement about the steps recorded, so that no
state has to carry a history of its own; `Recorded.produced` lists what the steps have produced.

The record changes nothing: a recorded run ends where a run ends (`ReachableBy.current`).
`ReachableBy.recorded_invariant` is the induction rule for recorded runs, on top of an invariant
known for the states reached, and `Reachable.forall_moments_iff` is the rule for a condition on the
steps that is exact for what a run has at every moment.
-/

set_option autoImplicit false
set_option relaxedAutoImplicit false

namespace TransitionSystem

variable {State Action : Type*}

/-- A step of a run. -/
structure Step (State Action : Type*) where
  before : State
  action : Action
  after : State

/-- The state that a run has reached and its steps, newest first. -/
structure Recorded (State Action : Type*) where
  current : State
  steps : List (Step State Action)

/-- The recorded run that takes one more step. -/
def Recorded.push (r : Recorded State Action) (action : Action) (t : State) :
    Recorded State Action :=
  ⟨t, ⟨r.current, action, t⟩ :: r.steps⟩

/-- A transition system whose runs record their steps. -/
def recorded (M : TransitionSystem State Action) :
    TransitionSystem (Recorded State Action) Action where
  initial r := M.initial r.current ∧ r.steps = []
  next r action := (M.next r.current action).map (r.push action)

/-- What the steps of a run have produced, oldest first. -/
def Recorded.produced {Item : Type*} (items : Step State Action → List Item)
    (r : Recorded State Action) : List Item :=
  r.steps.reverse.flatMap items

@[simp] theorem Recorded.produced_nil {Item : Type*} (items : Step State Action → List Item)
    (s : State) : (⟨s, []⟩ : Recorded State Action).produced items = [] :=
  rfl

@[simp] theorem Recorded.produced_push {Item : Type*} (items : Step State Action → List Item)
    (r : Recorded State Action) (action : Action) (t : State) :
    (r.push action t).produced items = r.produced items ++ items ⟨r.current, action, t⟩ := by
  simp [Recorded.produced, Recorded.push]

@[simp] theorem Recorded.push_current (r : Recorded State Action) (action : Action) (t : State) :
    (r.push action t).current = t :=
  rfl

variable {M : TransitionSystem State Action} {allowed : State → Action → Prop}

/-- The steps of a recorded run are those of the system. -/
theorem recorded_next {r u : Recorded State Action} {action : Action}
    (hnext : M.recorded.next r action = some u) :
    ∃ t, M.next r.current action = some t ∧ u = r.push action t := by
  obtain ⟨t, ht, rfl⟩ := Option.map_eq_some_iff.mp hnext
  exact ⟨t, ht, rfl⟩

/-- A recorded run ends where a run of the system ends. -/
theorem ReachableBy.current {r : Recorded State Action}
    (hrun : M.recorded.ReachableBy (fun r action ↦ allowed r.current action) r) :
    M.ReachableBy allowed r.current := by
  induction hrun with
  | initial hinitial => exact .initial hinitial.1
  | step _ hallowed hnext ih =>
    obtain ⟨t, ht, rfl⟩ := recorded_next hnext
    exact .step ih hallowed ht

theorem Reachable.current {r : Recorded State Action} (hrun : M.recorded.Reachable r) :
    M.Reachable r.current :=
  ReachableBy.current hrun

/-- Induction over recorded runs on top of an invariant of the states reached. -/
theorem ReachableBy.recorded_invariant {Base : State → Prop} {Inv : Recorded State Action → Prop}
    (hbase : ∀ s, M.ReachableBy allowed s → Base s)
    (hinitial : ∀ s, M.initial s → Inv ⟨s, []⟩)
    (hstep : ∀ r action t, Base r.current → Inv r → allowed r.current action →
      M.next r.current action = some t → Inv (r.push action t))
    {r : Recorded State Action}
    (hrun : M.recorded.ReachableBy (fun r action ↦ allowed r.current action) r) : Inv r := by
  induction hrun with
  | @initial r h =>
    obtain ⟨current, steps⟩ := r
    obtain ⟨hcurrent, rfl⟩ := h
    exact hinitial _ hcurrent
  | step hbefore hallowed hnext ih =>
    obtain ⟨t, ht, rfl⟩ := recorded_next hnext
    exact hstep _ _ _ (hbase _ hbefore.current) ih hallowed ht

/-- Induction over recorded runs without a condition on the steps. -/
theorem Reachable.recorded_invariant {Base : State → Prop} {Inv : Recorded State Action → Prop}
    (hbase : ∀ s, M.Reachable s → Base s) (hinitial : ∀ s, M.initial s → Inv ⟨s, []⟩)
    (hstep : ∀ r action t, Base r.current → Inv r → M.next r.current action = some t →
      Inv (r.push action t))
    {r : Recorded State Action} (hrun : M.recorded.Reachable r) : Inv r := by
  have hallowed : M.recorded.ReachableBy (fun r action ↦ (fun _ _ ↦ True) r.current action) r :=
    hrun
  refine ReachableBy.recorded_invariant hbase hinitial ?_ hallowed
  exact fun r action t hcurrent hs _ hnext ↦ hstep r action t hcurrent hs hnext

/-- Every recorded step was taken in a state that some run reaches. -/
theorem Reachable.before_of_mem {r : Recorded State Action} (hrun : M.recorded.Reachable r) :
    ∀ step ∈ r.steps, M.Reachable step.before := by
  induction hrun with
  | initial hinitial => simp [hinitial.2]
  | step hbefore _ hnext ih =>
    obtain ⟨t, -, rfl⟩ := recorded_next hnext
    intro step hmem
    rcases List.mem_cons.mp hmem with rfl | hold
    · exact hbefore.current
    · exact ih step hold

/-! ### The moments of a run -/

/-- The records that a run has had, from the one that ends in `current` back to its start. -/
def momentsOf (current : State) : List (Step State Action) → List (Recorded State Action)
  | [] => [⟨current, []⟩]
  | step :: earlier => ⟨current, step :: earlier⟩ :: momentsOf step.before earlier

/-- The records that a run has had, newest first. -/
def Recorded.moments (r : Recorded State Action) : List (Recorded State Action) :=
  momentsOf r.current r.steps

@[simp] theorem Recorded.moments_push (r : Recorded State Action) (action : Action) (t : State) :
    (r.push action t).moments = r.push action t :: r.moments :=
  rfl

/-- A recorded run all of whose steps are allowed is a guarded one. -/
theorem Reachable.reachableBy_of_steps {r : Recorded State Action} (hrun : M.recorded.Reachable r)
    (hsteps : ∀ step ∈ r.steps, allowed step.before step.action) :
    M.recorded.ReachableBy (fun r action ↦ allowed r.current action) r := by
  induction hrun with
  | initial hinitial => exact .initial hinitial
  | step _ _ hnext ih =>
    obtain ⟨t, -, rfl⟩ := recorded_next hnext
    obtain ⟨hnow, hearlier⟩ := List.forall_mem_cons.mp hsteps
    exact .step (ih hearlier) hnow hnext

/-- What a guarded run has after a step exactly when the step is allowed, a run has at every moment
exactly when all its steps are allowed. -/
theorem Reachable.forall_moments_iff {Good : Recorded State Action → Prop}
    (hinitial : ∀ s, M.initial s → Good ⟨s, []⟩)
    (hstep : ∀ r action t,
      M.recorded.ReachableBy (fun r action ↦ allowed r.current action) r →
        M.next r.current action = some t → (Good (r.push action t) ↔ allowed r.current action))
    {r : Recorded State Action} (hrun : M.recorded.Reachable r) :
    (∀ moment ∈ r.moments, Good moment) ↔
      ∀ step ∈ r.steps, allowed step.before step.action := by
  induction hrun with
  | @initial r h =>
    obtain ⟨current, steps⟩ := r
    obtain ⟨hcurrent, rfl⟩ := h
    exact iff_of_true (List.forall_mem_singleton.mpr (hinitial current hcurrent))
      (List.forall_mem_nil _)
  | @step r _ action hbefore _ hnext ih =>
    obtain ⟨t, ht, rfl⟩ := recorded_next hnext
    rw [Recorded.moments_push, List.forall_mem_cons, ih]
    show _ ↔ ∀ step ∈ (⟨r.current, action, t⟩ : Step State Action) :: r.steps, _
    rw [List.forall_mem_cons]
    exact and_congr_left fun hsteps ↦
      hstep r action t (Reachable.reachableBy_of_steps hbefore hsteps) ht

/-! ### The run of a part -/

section Part

variable {State' Action' : Type*} {N : TransitionSystem State' Action'} {part : State → State'}
  {steps : Step State Action → List (Step State' Action')} {start : List (Step State' Action')}

/-- The recorded run of a part of the system, which began with the steps of `start`. -/
def Recorded.ofPart (r : Recorded State Action) (part : State → State')
    (steps : Step State Action → List (Step State' Action')) (start : List (Step State' Action')) :
    Recorded State' Action' :=
  ⟨part r.current, (r.produced steps).reverse ++ start⟩

theorem Recorded.produced_ofPart {Item : Type*} (items : Step State' Action' → List Item)
    (r : Recorded State Action) :
    (r.ofPart part steps start).produced items =
      start.reverse.flatMap items ++ r.produced fun step ↦ (steps step).flatMap items := by
  simp [Recorded.produced, Recorded.ofPart, List.flatMap_assoc]

/-- When each step takes one step of a part, or leaves it as it is, a run runs the part. -/
theorem Reachable.ofPart
    (hinitial : ∀ s, M.initial s → N.recorded.Reachable ⟨part s, start⟩)
    (hstep : ∀ s action t, M.Reachable s → M.next s action = some t →
      (steps ⟨s, action, t⟩ = [] ∧ part t = part s) ∨
        ∃ action', steps ⟨s, action, t⟩ = [⟨part s, action', part t⟩] ∧
          N.next (part s) action' = some (part t))
    {r : Recorded State Action} (hrun : M.recorded.Reachable r) :
    N.recorded.Reachable (r.ofPart part steps start) := by
  induction hrun with
  | @initial r h =>
    obtain ⟨current, recordedSteps⟩ := r
    obtain ⟨hcurrent, rfl⟩ := h
    exact hinitial current hcurrent
  | @step r _ action hbefore _ hnext ih =>
    obtain ⟨t, ht, rfl⟩ := recorded_next hnext
    obtain ⟨hnone, hsame⟩ | ⟨action', hone, hpart⟩ := hstep _ _ _ hbefore.current ht
    · have hkept : (r.push action t).ofPart part steps start = r.ofPart part steps start := by
        rw [Recorded.ofPart, Recorded.produced_push, hnone, List.append_nil, Recorded.push_current,
          hsame]
        rfl
      rw [hkept]
      exact ih
    · have hpushed : (r.push action t).ofPart part steps start =
          (r.ofPart part steps start).push action' (part t) := by
        rw [Recorded.ofPart, Recorded.produced_push, hone, List.reverse_concat]
        rfl
      have hrecorded : N.recorded.next (r.ofPart part steps start) action' =
          some ((r.ofPart part steps start).push action' (part t)) := by
        show (N.next (part r.current) action').map _ = _
        rw [hpart]
        rfl
      rw [hpushed]
      exact ih.step hrecorded

end Part

/-! ### What is owed -/

section Owed

variable {Item : Type*} {ways : State → List (List Item)}
  {items : Step State Action → List Item}

/-- When each way on from the end of a step is, after what the step produces, the rest of a way on
from its start, a run from one state to another produces what lies between a way on from the former
and each way on from the latter, in order. -/
theorem exists_way_of_runFrom
    (hstep : ∀ s action t, M.Reachable s → M.next s action = some t →
      ∀ later ∈ ways t, ∃ way ∈ ways s, way.Sublist (items ⟨s, action, t⟩ ++ later))
    {r u : Recorded State Action} (hr : M.recorded.Reachable r) (actions : List Action)
    (hrun : M.recorded.runFrom r actions = some u) :
    ∃ since, u.produced items = r.produced items ++ since ∧
      ∀ later ∈ ways u.current, ∃ way ∈ ways r.current, way.Sublist (since ++ later) := by
  induction actions generalizing r with
  | nil =>
    obtain rfl := runFrom_nil_iff.mp hrun
    exact ⟨[], (List.append_nil _).symm, fun later hlater ↦ ⟨later, hlater, List.Sublist.refl _⟩⟩
  | cons action rest ih =>
    obtain ⟨middle, hfirst, hrest⟩ := runFrom_cons_iff.mp hrun
    obtain ⟨since, hproduced, hsince⟩ := ih (hr.step hfirst) hrest
    obtain ⟨t, hnext, rfl⟩ := recorded_next hfirst
    refine ⟨items ⟨r.current, action, t⟩ ++ since, ?_, fun later hlater ↦ ?_⟩
    · rw [hproduced, Recorded.produced_push, List.append_assoc]
    · obtain ⟨middleWay, hmiddleWay, hmiddle⟩ := hsince later hlater
      obtain ⟨way, hway, hsublist⟩ := hstep _ _ _ hr.current hnext middleWay hmiddleWay
      refine ⟨way, hway, ?_⟩
      rw [List.append_assoc]
      exact hsublist.trans (hmiddle.append_left _)

end Owed

/-! ### What is passed on -/

section PassedOn

variable {Item : Type*} {held : State → List Item} {taken given : Step State Action → List Item}

/-- When every step passes on in order what its state holds and what it takes, a run has given what
it has taken, in order, up to what is still held. -/
theorem Reachable.passedOn {start : List Item} (hinitial : ∀ s, M.initial s → held s = start)
    (hstep : ∀ s action t, M.Reachable s → M.next s action = some t →
      held s ++ taken ⟨s, action, t⟩ = given ⟨s, action, t⟩ ++ held t)
    {r : Recorded State Action} (hrun : M.recorded.Reachable r) :
    start ++ r.produced taken = r.produced given ++ held r.current := by
  induction hrun with
  | @initial r h =>
    obtain ⟨current, steps⟩ := r
    obtain ⟨hcurrent, rfl⟩ := h
    simpa using (hinitial current hcurrent).symm
  | step hbefore _ hnext ih =>
    obtain ⟨t, ht, rfl⟩ := recorded_next hnext
    rw [Recorded.produced_push, Recorded.produced_push, ← List.append_assoc, ih, List.append_assoc,
      List.append_assoc, hstep _ _ _ hbefore.current ht]
    rfl

/-- Who is passed on less in every step is passed on less in a run, in the same order. -/
theorem Recorded.produced_sublist {part items : Step State Action → List Item}
    (hpart : ∀ step, (part step).Sublist (items step)) (r : Recorded State Action) :
    (r.produced part).Sublist (r.produced items) :=
  List.Sublist.flatMap_right _ fun step _ ↦ hpart step

end PassedOn

end TransitionSystem
