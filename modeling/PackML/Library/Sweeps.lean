import PackML.Library.TransitionSystem
import Mathlib.Data.Fintype.Defs
import Mathlib.Logic.Function.Basic

/-!
# Workers that sweep over shared resources

Each worker uses the same resources one after the other, in the order of a list, and may sweep over
them again; nothing but the order of their steps keeps two workers from using a resource at once.
A resource that is entered while another worker is inside fails, so no step follows a state that is
not `Exclusive`.

When a worker begins to sweep only while the others are outside, they are never inside one resource
together (`exclusive_of_apart`). That is needed: as soon as two workers are both in their sweeps,
they can meet in some resource whatever they have used so far (`canMeet`).
-/

set_option autoImplicit false
set_option relaxedAutoImplicit false

namespace Sweeps

/-! ### Sweeps -/

/-- Where a worker is: outside its sweeps, between two resources, with those that are left of this
sweep, or inside one. -/
inductive Sweep (Resource : Type*)
  | outside
  | between (remaining : List Resource)
  | inside (resource : Resource) (remaining : List Resource)
  deriving DecidableEq, Repr

/-- What a worker does next: it begins a sweep, enters the next resource, leaves it, or ends its
sweeps. -/
inductive SweepMove
  | sweep
  | enter
  | leave
  | finish
  deriving DecidableEq, Repr

namespace Sweep

variable {Resource : Type*}

/-- The resource that a worker is inside. -/
def resource : Sweep Resource → Option Resource
  | .inside resource _ => some resource
  | _ => none

/-- The resources that a worker is inside or has still to use in this sweep. -/
def ahead : Sweep Resource → List Resource
  | .outside => []
  | .between remaining => remaining
  | .inside resource remaining => resource :: remaining

/-- A move of a worker. -/
def move (resources : List Resource) : SweepMove → Sweep Resource → Option (Sweep Resource)
  | .sweep, .outside | .sweep, .between [] => some (.between resources)
  | .enter, .between (resource :: rest) => some (.inside resource rest)
  | .leave, .inside _ rest => some (.between rest)
  | .finish, .between [] => some .outside
  | _, _ => none

theorem resource_outside : (outside : Sweep Resource).resource = none := rfl

/-- A worker that moves is in its sweeps, unless it begins them. -/
theorem ne_outside_of_move {resources : List Resource} {move : SweepMove}
    {before after : Sweep Resource} (hmove : before.move resources move = some after)
    (hsweep : move ≠ .sweep) : before ≠ .outside := by
  rintro rfl
  cases move with
  | sweep => exact hsweep rfl
  | enter | leave | finish => cases hmove

theorem outside_of_finish {resources : List Resource} {before after : Sweep Resource}
    (hmove : before.move resources .finish = some after) : after = .outside := by
  unfold Sweep.move at hmove
  split at hmove
  · contradiction
  · contradiction
  · contradiction
  · contradiction
  · exact (Option.some.inj hmove).symm
  · cases hmove

/-- A worker uses only the resources of the list. -/
theorem ahead_of_move {resources : List Resource} {move : SweepMove}
    {before after : Sweep Resource} (hmove : before.move resources move = some after)
    (hbefore : before.ahead ⊆ resources) : after.ahead ⊆ resources := by
  unfold Sweep.move at hmove
  split at hmove
  · obtain rfl := Option.some.inj hmove
    exact List.Subset.refl _
  · obtain rfl := Option.some.inj hmove
    exact List.Subset.refl _
  · obtain rfl := Option.some.inj hmove
    exact hbefore
  · obtain rfl := Option.some.inj hmove
    exact fun resource hresource ↦ hbefore (List.mem_cons_of_mem _ hresource)
  · obtain rfl := Option.some.inj hmove
    exact List.nil_subset _
  · cases hmove

end Sweep

section Workers

variable {Worker Resource : Type*}

/-- No two workers are inside the same resource. -/
def Exclusive (workers : Worker → Sweep Resource) : Prop :=
  ∀ worker other, worker ≠ other →
    ∀ resource ∈ (workers worker).resource, resource ∉ (workers other).resource

instance [Fintype Worker] [DecidableEq Worker] [DecidableEq Resource]
    (workers : Worker → Sweep Resource) : Decidable (Exclusive workers) :=
  inferInstanceAs (Decidable (∀ worker other, worker ≠ other →
    ∀ resource ∈ (workers worker).resource, resource ∉ (workers other).resource))

/-- At most one worker is in its sweeps. -/
def AtMostOne (workers : Worker → Sweep Resource) : Prop :=
  ∀ worker other, workers worker ≠ .outside → workers other ≠ .outside → worker = other

/-- A worker begins to sweep only while the others are outside their sweeps. -/
def Apart (workers : Worker → Sweep Resource) : Worker × SweepMove → Prop
  | (worker, .sweep) => workers worker = .outside → ∀ other, workers other = .outside
  | _ => True

variable {workers : Worker → Sweep Resource}

/-- Only a worker in its sweeps is inside a resource. -/
theorem AtMostOne.exclusive (hone : AtMostOne workers) : Exclusive workers := by
  intro worker other hne resource hresource hother
  refine hne (hone worker other ?_ ?_)
  · intro houtside
    rw [houtside, Sweep.resource_outside] at hresource
    cases hresource
  · intro houtside
    rw [houtside, Sweep.resource_outside] at hother
    cases hother

variable [Fintype Worker] [DecidableEq Worker] [DecidableEq Resource]

/-- The runs of the workers; nothing follows when two of them are inside the same resource. -/
def sweeps (resources : List Resource) :
    TransitionSystem (Worker → Sweep Resource) (Worker × SweepMove) where
  initial workers := ∀ worker, workers worker = .outside
  next workers action :=
    if Exclusive workers then
      ((workers action.1).move resources action.2).map (Function.update workers action.1)
    else none

variable {resources : List Resource} {after : Worker → Sweep Resource}

theorem next_spec {action : Worker × SweepMove}
    (hnext : (sweeps resources).next workers action = some after) :
    Exclusive workers ∧ ∃ moved, (workers action.1).move resources action.2 = some moved ∧
      after = Function.update workers action.1 moved := by
  obtain ⟨hexclusive, hnext⟩ := Option.ite_none_right_eq_some.mp hnext
  obtain ⟨moved, hmove, rfl⟩ := Option.map_eq_some_iff.mp hnext
  exact ⟨hexclusive, moved, hmove, rfl⟩

theorem next_eq {worker : Worker} {move : SweepMove} {moved : Sweep Resource}
    (hexclusive : Exclusive workers) (hmove : (workers worker).move resources move = some moved) :
    (sweeps resources).next workers (worker, move) =
      some (Function.update workers worker moved) := by
  show (if Exclusive workers then _ else none) = _
  rw [if_pos hexclusive, hmove]
  rfl

/-! ### Workers that keep apart -/

theorem atMostOne_next {action : Worker × SweepMove} (hone : AtMostOne workers)
    (hapart : Apart workers action)
    (hnext : (sweeps resources).next workers action = some after) : AtMostOne after := by
  obtain ⟨mover, move⟩ := action
  obtain ⟨-, moved, hmove, rfl⟩ := next_spec hnext
  -- the worker that moves is the only one in its sweeps
  have hothers : ∀ other, other ≠ mover → workers other = .outside := by
    intro other hother
    by_cases houtside : workers mover = .outside
    · cases move with
      | sweep => exact hapart houtside other
      | enter | leave | finish =>
        exact absurd houtside (Sweep.ne_outside_of_move hmove (by simp))
    · by_contra hsweeps
      exact hother (hone other mover hsweeps houtside)
  intro worker other hworker hother
  have hmover : ∀ {worker}, Function.update workers mover moved worker ≠ .outside →
      worker = mover := by
    intro worker hsweeps
    by_contra hne
    rw [Function.update_of_ne hne] at hsweeps
    exact hsweeps (hothers worker hne)
  rw [hmover hworker, hmover hother]

/-- Workers that keep apart are never inside the same resource. -/
theorem exclusive_of_apart (hrun : (sweeps resources).ReachableBy Apart workers) :
    Exclusive workers := by
  have hone : AtMostOne workers := by
    refine hrun.invariant ?_ ?_
    · intro workers houtside worker other hworker
      exact absurd (houtside worker) hworker
    · intro workers action after hone hapart hnext
      exact atMostOne_next hone hapart hnext
  exact hone.exclusive

/-! ### Workers that overlap -/

/-- Some continuation of moves other than the end of the sweeps leads to two workers inside the same
resource. -/
def CanMeet (resources : List Resource) (workers : Worker → Sweep Resource) : Prop :=
  (sweeps resources).CanReach (fun action ↦ action.2 ≠ .finish) (fun after ↦ ¬ Exclusive after)
    workers

/-- Either the workers meet already, or a move leads on. -/
theorem CanMeet.of_move {worker : Worker} (move : SweepMove) {moved : Sweep Resource}
    (hmove : (workers worker).move resources move = some moved) (hfinish : move ≠ .finish)
    (hmeet : CanMeet resources (Function.update workers worker moved)) :
    CanMeet resources workers := by
  by_cases hexclusive : Exclusive workers
  · exact .of_step (next_eq hexclusive hmove) hfinish hmeet
  · exact .here hexclusive

/-- A worker can pass over the resources at the head of its list. -/
theorem CanMeet.of_skip {worker : Worker} {rest : List Resource} :
    ∀ {skipped : List Resource} {workers : Worker → Sweep Resource},
      workers worker = .between (skipped ++ rest) →
        CanMeet resources (Function.update workers worker (.between rest)) →
          CanMeet resources workers := by
  intro skipped
  induction skipped with
  | nil =>
    intro workers hworker hmeet
    rw [List.nil_append] at hworker
    rwa [← hworker, Function.update_eq_self] at hmeet
  | cons resource skipped ih =>
    intro workers hworker hmeet
    refine CanMeet.of_move .enter (by rw [hworker]; rfl) (by simp) ?_
    refine CanMeet.of_move .leave (by rw [Function.update_self]; rfl) (by simp) ?_
    rw [Function.update_idem]
    refine ih (Function.update_self ..) ?_
    rwa [Function.update_idem]

section Meet

variable {worker other : Worker} {resource : Resource}

/-- A worker whose list contains the resource passes over what is before it. -/
theorem canMeet_ahead {workers : Worker → Sweep Resource} (hne : worker ≠ other)
    (hother : resource ∈ (workers other).resource) {remaining : List Resource}
    (hworker : workers worker = .between remaining) (hremaining : resource ∈ remaining) :
    CanMeet resources workers := by
  obtain ⟨skipped, rest, rfl⟩ := List.append_of_mem hremaining
  refine CanMeet.of_skip hworker (CanMeet.of_move .enter
    (by rw [Function.update_self]; rfl) (by simp) (.here fun hexclusive ↦ ?_))
  refine hexclusive worker other hne resource ?_ ?_
  · rw [Function.update_self]
    rfl
  · rwa [Function.update_of_ne hne.symm, Function.update_of_ne hne.symm]

/-- A worker between two resources ends this sweep and begins the next one. -/
theorem canMeet_between {workers : Worker → Sweep Resource} (hne : worker ≠ other)
    (hresource : resource ∈ resources) (hother : resource ∈ (workers other).resource)
    {remaining : List Resource} (hworker : workers worker = .between remaining) :
    CanMeet resources workers := by
  have hskip : workers worker = .between (remaining ++ []) := by rw [List.append_nil, hworker]
  refine CanMeet.of_skip hskip (CanMeet.of_move .sweep
    (by rw [Function.update_self]; rfl) (by simp) ?_)
  refine canMeet_ahead hne ?_ (Function.update_self ..) hresource
  rwa [Function.update_of_ne hne.symm, Function.update_of_ne hne.symm]

/-- A worker in its sweeps can meet one that is inside a resource. -/
theorem canMeet_inside {workers : Worker → Sweep Resource} (hne : worker ≠ other)
    (hresource : resource ∈ resources) (hother : resource ∈ (workers other).resource)
    (hworker : workers worker ≠ .outside) : CanMeet resources workers := by
  cases hwhere : workers worker with
  | outside => exact absurd hwhere hworker
  | between remaining => exact canMeet_between hne hresource hother hwhere
  | inside current remaining =>
    refine CanMeet.of_move .leave (by rw [hwhere]; rfl) (by simp) ?_
    refine canMeet_between hne hresource ?_ (Function.update_self ..)
    rwa [Function.update_of_ne hne.symm]

/-- A worker in its sweeps can meet one that is about to enter a resource. -/
theorem canMeet_entering {workers : Worker → Sweep Resource} (hne : worker ≠ other)
    (hresource : resource ∈ resources) {rest : List Resource}
    (hother : workers other = .between (resource :: rest)) (hworker : workers worker ≠ .outside) :
    CanMeet resources workers := by
  refine CanMeet.of_move .enter (by rw [hother]; rfl) (by simp) ?_
  refine canMeet_inside hne hresource ?_ ?_
  · rw [Function.update_self]
    rfl
  · rwa [Function.update_of_ne hne]

end Meet

/-- Every worker uses the resources of the list alone. -/
theorem ahead_subset (hrun : (sweeps resources).Reachable workers) (worker : Worker) :
    (workers worker).ahead ⊆ resources := by
  refine hrun.invariant ?_ ?_ worker
  · intro workers houtside worker
    rw [houtside worker]
    exact List.nil_subset _
  · intro workers action after hs hnext worker
    obtain ⟨-, moved, hmove, rfl⟩ := next_spec hnext
    by_cases hmover : worker = action.1
    · subst hmover
      rw [Function.update_self]
      exact Sweep.ahead_of_move hmove (hs action.1)
    · rw [Function.update_of_ne hmover]
      exact hs worker

/-- Two workers that are both in their sweeps can meet. -/
theorem canMeet (hrun : (sweeps resources).Reachable workers) (hresources : resources ≠ [])
    {worker other : Worker} (hne : worker ≠ other) (hworker : workers worker ≠ .outside)
    (hother : workers other ≠ .outside) : CanMeet resources workers := by
  have hahead := ahead_subset hrun other
  cases hwhere : workers other with
  | outside => exact absurd hwhere hother
  | inside resource remaining =>
    rw [hwhere] at hahead
    refine canMeet_inside hne (hahead List.mem_cons_self) ?_ hworker
    rw [hwhere]
    rfl
  | between remaining =>
    rw [hwhere] at hahead
    cases remaining with
    | cons resource rest =>
      exact canMeet_entering hne (hahead List.mem_cons_self) hwhere hworker
    | nil =>
      obtain ⟨resource, rest, rfl⟩ := List.exists_cons_of_ne_nil hresources
      refine CanMeet.of_move .sweep (by rw [hwhere]; rfl) (by simp) ?_
      refine canMeet_entering hne List.mem_cons_self (Function.update_self ..) ?_
      rwa [Function.update_of_ne hne]

end Workers

end Sweeps
