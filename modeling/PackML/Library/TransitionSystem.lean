import Mathlib.Data.List.Basic
import Mathlib.Data.Option.Basic

/-!
# Labelled transition systems, guarded runs and their invariants

A transition system is a predicate on initial states and a partial step function: an action that
is not enabled in a state has no successor. `ReachableBy allowed` holds of the end states of the
runs all of whose steps are allowed, and `Reachable` of the end states of all runs.
`ReachableBy.invariant` is the induction rule for runs, `ReachableBy.invariant_of_reachable`
strengthens it with an invariant known for all runs, and `ReachableBy.simulate` carries guarded
runs along a map of states; by `ReachableBy.project` an invariant of a component is an invariant of
every system built around it, and `Reachable.simulated` is the rule for forward simulations.
`runFrom` executes a list of actions; `reachable_of_runFrom` turns an execution into a run, and
`reachableBy_of_runFrom` one whose steps are allowed (`AllowedAlong`) into a guarded run.
`iff_allowedAlong_of_runFrom` is the rule for a condition that is exact, and
`countP_add_rank_le` and `finished_or_countP_add_rank_le` are the rules for ranking functions, which
bound executions and waits. Two systems are run side by side by `exists_runFrom_of_visible`, which
hides actions of the first, and by `exists_runFrom_of_allowedAlong`, which follows the second under
a condition; `runFrom_iff_allowedAlong` compares two variants of a system.
`CanReach` says that some continuation leads to a goal: `CanReach.of_rank` finds one by a ranking
function, `CanReach.lift` carries it from a component to a system, `CanReach.realised` from an
abstract system to one that realises its steps, and `not_canReach` says that a trap has none.
-/

set_option autoImplicit false
set_option relaxedAutoImplicit false

/-- A labelled transition system with a deterministic, partial step. -/
structure TransitionSystem (State Action : Type*) where
  initial : State → Prop
  next : State → Action → Option State

namespace TransitionSystem

variable {State Action : Type*}

/-- The end states of the runs all of whose steps satisfy `allowed`, a condition on the state
before the step and on its action. -/
inductive ReachableBy (M : TransitionSystem State Action) (allowed : State → Action → Prop) :
    State → Prop
  | initial {s : State} (hinitial : M.initial s) : ReachableBy M allowed s
  | step {s t : State} {action : Action} (hrun : ReachableBy M allowed s)
      (hallowed : allowed s action) (hnext : M.next s action = some t) : ReachableBy M allowed t

/-- The end states of all runs. -/
def Reachable (M : TransitionSystem State Action) : State → Prop :=
  M.ReachableBy fun _ _ ↦ True

variable {M : TransitionSystem State Action} {allowed : State → Action → Prop}

/-- Fewer steps are allowed, fewer states are reached. -/
theorem ReachableBy.mono {weaker : State → Action → Prop}
    (hweaker : ∀ s action, allowed s action → weaker s action) {s : State}
    (hrun : M.ReachableBy allowed s) : M.ReachableBy weaker s := by
  induction hrun with
  | initial hinitial => exact .initial hinitial
  | step _ hallowed hnext ih => exact .step ih (hweaker _ _ hallowed) hnext

theorem ReachableBy.reachable {s : State} (hrun : M.ReachableBy allowed s) : M.Reachable s :=
  hrun.mono fun _ _ _ ↦ trivial

theorem Reachable.step {s t : State} {action : Action} (hrun : M.Reachable s)
    (hnext : M.next s action = some t) : M.Reachable t :=
  ReachableBy.step hrun trivial hnext

/-- Induction over guarded runs: a predicate of the initial states that every allowed step keeps
holds wherever such a run ends. -/
@[elab_as_elim]
theorem ReachableBy.invariant {Inv : State → Prop} (hinitial : ∀ s, M.initial s → Inv s)
    (hstep : ∀ s action t, Inv s → allowed s action → M.next s action = some t → Inv t)
    {s : State} (hrun : M.ReachableBy allowed s) : Inv s := by
  induction hrun with
  | initial h => exact hinitial _ h
  | step _ hallowed hnext ih => exact hstep _ _ _ ih hallowed hnext

/-- Induction over all runs. -/
@[elab_as_elim]
theorem Reachable.invariant {Inv : State → Prop} (hinitial : ∀ s, M.initial s → Inv s)
    (hstep : ∀ s action t, Inv s → M.next s action = some t → Inv t)
    {s : State} (hrun : M.Reachable s) : Inv s :=
  ReachableBy.invariant hinitial (fun s action t hs _ hnext ↦ hstep s action t hs hnext) hrun

/-- Induction over guarded runs on top of an invariant of all runs. -/
@[elab_as_elim]
theorem ReachableBy.invariant_of_reachable {Base Inv : State → Prop}
    (hbase : ∀ s, M.Reachable s → Base s) (hinitial : ∀ s, M.initial s → Inv s)
    (hstep : ∀ s action t, Base s → Inv s → allowed s action → M.next s action = some t → Inv t)
    {s : State} (hrun : M.ReachableBy allowed s) : Inv s := by
  induction hrun with
  | initial h => exact hinitial _ h
  | step hbefore hallowed hnext ih =>
    exact hstep _ _ _ (hbase _ hbefore.reachable) ih hallowed hnext

/-- A map of states that sends initial states to initial states, and every allowed step to a
permitted step or to no change, sends guarded runs to guarded runs. -/
theorem ReachableBy.simulate {State' Action' : Type*} {N : TransitionSystem State' Action'}
    {permitted : State' → Action' → Prop} (view : State → State')
    (hinitial : ∀ s, M.initial s → N.initial (view s))
    (hstep : ∀ s action t, allowed s action → M.next s action = some t →
      view t = view s ∨
        ∃ action', permitted (view s) action' ∧ N.next (view s) action' = some (view t))
    {s : State} (hrun : M.ReachableBy allowed s) : N.ReachableBy permitted (view s) := by
  induction hrun with
  | initial h => exact .initial (hinitial _ h)
  | step _ hallowed hnext ih =>
    rcases hstep _ _ _ hallowed hnext with hsame | ⟨action', hpermitted, hstep'⟩
    · exact hsame ▸ ih
    · exact ih.step hpermitted hstep'

/-- A map of states that sends initial states to initial states, and every step to a step or to
no change, sends reachable states to reachable states. -/
theorem ReachableBy.project {State' Action' : Type*} {N : TransitionSystem State' Action'}
    (view : State → State') (hinitial : ∀ s, M.initial s → N.initial (view s))
    (hstep : ∀ s action t, M.next s action = some t →
      view t = view s ∨ ∃ action', N.next (view s) action' = some (view t))
    {s : State} (hrun : M.ReachableBy allowed s) : N.Reachable (view s) := by
  refine hrun.simulate view hinitial fun s action t _ hnext ↦ ?_
  exact (hstep s action t hnext).imp_right fun ⟨action', hstep'⟩ ↦ ⟨action', trivial, hstep'⟩

/-- A forward simulation: when every step from related states is matched by a step to related
states, every reachable state is related to a reachable one. -/
theorem Reachable.simulated {State' Action' : Type*} {N : TransitionSystem State' Action'}
    (Related : State → State' → Prop)
    (hinitial : ∀ s, M.initial s → ∃ u, N.initial u ∧ Related s u)
    (hstep : ∀ s action t u, Related s u → M.next s action = some t →
      ∃ action' v, N.next u action' = some v ∧ Related t v)
    {s : State} (hrun : M.Reachable s) : ∃ u, N.Reachable u ∧ Related s u := by
  refine hrun.invariant ?_ ?_
  · intro s hs
    obtain ⟨u, hu, hrelated⟩ := hinitial s hs
    exact ⟨u, .initial hu, hrelated⟩
  · rintro s action t ⟨u, hu, hrelated⟩ hnext
    obtain ⟨action', v, hnext', hrelated'⟩ := hstep s action t u hrelated hnext
    exact ⟨v, hu.step hnext', hrelated'⟩

/-- Executes a list of actions, oldest first. -/
def runFrom (M : TransitionSystem State Action) (s : State) (actions : List Action) :
    Option State :=
  actions.foldlM M.next s

theorem runFrom_nil_iff {s t : State} : M.runFrom s [] = some t ↔ s = t := by
  simp [runFrom]

/-- An execution is its first step and the execution of the rest. -/
theorem runFrom_cons_iff {s t : State} {action : Action} {rest : List Action} :
    M.runFrom s (action :: rest) = some t ↔
      ∃ middle, M.next s action = some middle ∧ M.runFrom middle rest = some t := by
  simp only [runFrom, List.foldlM_cons, Option.bind_eq_bind, Option.bind_eq_some_iff]

/-- An execution from a reachable state ends in a reachable state. -/
theorem reachable_of_runFrom {s t : State} (hs : M.Reachable s) (actions : List Action)
    (hrun : M.runFrom s actions = some t) : M.Reachable t := by
  induction actions generalizing s with
  | nil =>
    obtain rfl := runFrom_nil_iff.mp hrun
    exact hs
  | cons action rest ih =>
    obtain ⟨middle, hfirst, hrest⟩ := runFrom_cons_iff.mp hrun
    exact ih (hs.step hfirst) hrest

/-- Every step of the execution of a list of actions is allowed. -/
def AllowedAlong (M : TransitionSystem State Action) (allowed : State → Action → Prop) :
    List Action → State → Prop
  | [], _ => True
  | action :: rest, s =>
    allowed s action ∧ (M.next s action).elim True (M.AllowedAlong allowed rest)

instance decidableAllowedAlong [∀ s action, Decidable (allowed s action)] :
    ∀ (actions : List Action) (s : State), Decidable (M.AllowedAlong allowed actions s)
  | [], _ => inferInstanceAs (Decidable True)
  | action :: rest, s =>
    have : Decidable ((M.next s action).elim True (M.AllowedAlong allowed rest)) :=
      match M.next s action with
      | none => inferInstanceAs (Decidable True)
      | some t => decidableAllowedAlong rest t
    inferInstanceAs (Decidable (_ ∧ _))

/-- An execution with allowed steps from the end of a guarded run ends in a guarded run. -/
theorem reachableBy_of_runFrom {s t : State} (hs : M.ReachableBy allowed s)
    (actions : List Action) (hallowed : M.AllowedAlong allowed actions s)
    (hrun : M.runFrom s actions = some t) : M.ReachableBy allowed t := by
  induction actions generalizing s with
  | nil =>
    obtain rfl := runFrom_nil_iff.mp hrun
    exact hs
  | cons action rest ih =>
    obtain ⟨middle, hfirst, hrest⟩ := runFrom_cons_iff.mp hrun
    obtain ⟨hnow, hlater⟩ := hallowed
    rw [hfirst] at hlater
    exact ih (hs.step hnow hfirst) hlater hrest

/-- Steps that are allowed by a condition are allowed by a weaker one. -/
theorem AllowedAlong.mono {weaker : State → Action → Prop}
    (hweaker : ∀ s action, allowed s action → weaker s action) {actions : List Action} {s : State}
    (hallowed : M.AllowedAlong allowed actions s) : M.AllowedAlong weaker actions s := by
  induction actions generalizing s with
  | nil => trivial
  | cons action rest ih =>
    obtain ⟨hnow, hlater⟩ := hallowed
    refine ⟨hweaker s action hnow, ?_⟩
    cases hnext : M.next s action with
    | none => trivial
    | some t =>
      rw [hnext] at hlater
      exact ih hlater

/-- Actions that are allowed in every state are allowed along an execution. -/
theorem allowedAlong_of_forall_mem {actions : List Action}
    (hall : ∀ action ∈ actions, ∀ s, allowed s action) (s : State) :
    M.AllowedAlong allowed actions s := by
  induction actions generalizing s with
  | nil => trivial
  | cons action rest ih =>
    refine ⟨hall action List.mem_cons_self s, ?_⟩
    cases hnext : M.next s action with
    | none => trivial
    | some t => exact ih (fun other hother ↦ hall other (List.mem_cons_of_mem _ hother)) t

/-- The actions of an execution with allowed steps have what every allowed action has. -/
theorem AllowedAlong.forall_mem {P : Action → Prop} (hP : ∀ s action, allowed s action → P action)
    {s t : State} {actions : List Action} (hallowed : M.AllowedAlong allowed actions s)
    (hrun : M.runFrom s actions = some t) : ∀ action ∈ actions, P action := by
  induction actions generalizing s with
  | nil => simp
  | cons action rest ih =>
    obtain ⟨middle, hfirst, hrest⟩ := runFrom_cons_iff.mp hrun
    obtain ⟨hnow, hlater⟩ := hallowed
    rw [hfirst] at hlater
    intro other hother
    rcases List.mem_cons.mp hother with rfl | hother
    · exact hP s other hnow
    · exact ih hlater hrest other hother

/-- A predicate that every allowed step keeps and every other step breaks holds at the end of an
execution exactly when it held at its start and every step was allowed. -/
theorem iff_allowedAlong_of_runFrom {Good : State → Prop}
    (hstep : ∀ s action t, M.Reachable s → M.next s action = some t →
      (Good t ↔ Good s ∧ allowed s action))
    {s t : State} (hs : M.Reachable s) (actions : List Action)
    (hrun : M.runFrom s actions = some t) :
    Good t ↔ Good s ∧ M.AllowedAlong allowed actions s := by
  induction actions generalizing s with
  | nil =>
    obtain rfl := runFrom_nil_iff.mp hrun
    simp [AllowedAlong]
  | cons action rest ih =>
    obtain ⟨middle, hfirst, hrest⟩ := runFrom_cons_iff.mp hrun
    rw [ih (hs.step hfirst) hrest, hstep s action middle hs hfirst, AllowedAlong, hfirst,
      and_assoc, Option.elim_some]

/-- What every allowed step keeps holds at the end of an execution whose steps are all allowed. -/
theorem AllowedAlong.kept {Kept : State → Prop}
    (hstep : ∀ s action t, Kept s → allowed s action → M.next s action = some t → Kept t)
    {s t : State} {actions : List Action} (hallowed : M.AllowedAlong allowed actions s)
    (hrun : M.runFrom s actions = some t) (hs : Kept s) : Kept t := by
  induction actions generalizing s with
  | nil =>
    obtain rfl := runFrom_nil_iff.mp hrun
    exact hs
  | cons action rest ih =>
    obtain ⟨middle, hfirst, hrest⟩ := runFrom_cons_iff.mp hrun
    obtain ⟨hnow, hlater⟩ := hallowed
    rw [hfirst] at hlater
    exact ih hlater hrest (hstep s action middle hs hnow hfirst)

/-- What every step keeps holds at the end of an execution. -/
theorem kept_of_runFrom {Kept : State → Prop}
    (hstep : ∀ s action t, Kept s → M.next s action = some t → Kept t)
    {s t : State} (hs : Kept s) (actions : List Action) (hrun : M.runFrom s actions = some t) :
    Kept t := by
  have hallowed : M.AllowedAlong (fun _ _ ↦ True) actions s :=
    allowedAlong_of_forall_mem (fun _ _ _ ↦ trivial) s
  exact hallowed.kept (fun s action t hs _ hnext ↦ hstep s action t hs hnext) hrun hs

/-- A ranking function for something pending: when every allowed step finishes it, or keeps it
pending, lowers the rank if it is counted and does not raise it otherwise, it is finished before
more steps are counted than the rank. -/
theorem finished_or_countP_add_rank_le {rank : State → ℕ} {Pending : State → Prop}
    (counted : Action → Bool) (Finished : State → Prop)
    (hpending : ∀ s action t, Pending s → allowed s action → M.next s action = some t →
      Finished t ∨ Pending t ∧ rank t + (if counted action then 1 else 0) ≤ rank s)
    (hfinished : ∀ s action t, Finished s → M.next s action = some t → Finished t)
    {s t : State} (hs : Pending s) (actions : List Action)
    (hallowed : M.AllowedAlong allowed actions s) (hrun : M.runFrom s actions = some t) :
    Finished t ∨ Pending t ∧ actions.countP counted + rank t ≤ rank s := by
  induction actions generalizing s with
  | nil =>
    obtain rfl := runFrom_nil_iff.mp hrun
    exact Or.inr ⟨hs, by simp⟩
  | cons action rest ih =>
    obtain ⟨middle, hfirst, hrest⟩ := runFrom_cons_iff.mp hrun
    obtain ⟨hnow, hlater⟩ := hallowed
    rw [hfirst] at hlater
    rcases hpending s action middle hs hnow hfirst with hmiddle | ⟨hmiddle, hone⟩
    · exact Or.inl (kept_of_runFrom hfinished hmiddle rest hrest)
    · refine (ih hmiddle hlater hrest).imp_right fun ⟨ht, hmany⟩ ↦ ⟨ht, ?_⟩
      rw [List.countP_cons]
      omega

/-- A ranking function: when every allowed step lowers the rank if it is counted, and does not raise
it otherwise, the rank bounds the steps counted in an execution. -/
theorem countP_add_rank_le {rank : State → ℕ} (counted : Action → Bool)
    (hstep : ∀ s action t, M.Reachable s → allowed s action → M.next s action = some t →
      rank t + (if counted action then 1 else 0) ≤ rank s)
    {s t : State} (hs : M.Reachable s) (actions : List Action)
    (hallowed : M.AllowedAlong allowed actions s) (hrun : M.runFrom s actions = some t) :
    actions.countP counted + rank t ≤ rank s := by
  have hbound := finished_or_countP_add_rank_le counted (fun _ ↦ False)
    (fun s action t hs hnow hnext ↦ Or.inr ⟨hs.step hnext, hstep s action t hs hnow hnext⟩)
    (fun _ _ _ hfalse _ ↦ hfalse) hs actions hallowed hrun
  exact (hbound.resolve_left id).2

/-! ### Executions side by side -/

section Matched

variable {State' Action' : Type*} {N : TransitionSystem State' Action'}
  (Related : State → State' → Prop) (rename : Action → Action')

/-- A bisimulation: when an action and the one that it is renamed to are enabled together in related
states and lead to related states, so do the executions. -/
theorem rel_runFrom
    (hstep : ∀ s u action, Related s u →
      Option.Rel Related (M.next s action) (N.next u (rename action)))
    {s : State} {u : State'} (hrelated : Related s u) (actions : List Action) :
    Option.Rel Related (M.runFrom s actions) (N.runFrom u (actions.map rename)) := by
  induction actions generalizing s u with
  | nil => exact .some hrelated
  | cons action rest ih =>
    have hfirst := hstep s u action hrelated
    simp only [runFrom, List.map_cons, List.foldlM_cons, Option.bind_eq_bind] at ih ⊢
    cases hs : M.next s action with
    | none =>
      rw [hs] at hfirst
      cases hu : N.next u (rename action) with
      | none => exact .none
      | some v => cases hu ▸ hfirst
    | some t =>
      rw [hs] at hfirst
      cases hu : N.next u (rename action) with
      | none => cases hu ▸ hfirst
      | some v =>
        cases hu ▸ hfirst with
        | some ht => exact ih ht

/-- An execution is matched by that of its visible actions under other names, when every visible
step from related states is matched and every hidden step keeps the states related. -/
theorem exists_runFrom_of_visible (visible : Action → Bool)
    (hvisible : ∀ s action t u, Related s u → visible action = true → M.next s action = some t →
      ∃ v, N.next u (rename action) = some v ∧ Related t v)
    (hhidden : ∀ s action t u, Related s u → visible action = false → M.next s action = some t →
      Related t u)
    {s t : State} {u : State'} (hrelated : Related s u) (actions : List Action)
    (hrun : M.runFrom s actions = some t) :
    ∃ v, N.runFrom u ((actions.filter visible).map rename) = some v ∧ Related t v := by
  induction actions generalizing s u with
  | nil =>
    obtain rfl := runFrom_nil_iff.mp hrun
    exact ⟨u, runFrom_nil_iff.mpr rfl, hrelated⟩
  | cons action rest ih =>
    obtain ⟨middle, hfirst, hrest⟩ := runFrom_cons_iff.mp hrun
    cases hcase : visible action with
    | true =>
      obtain ⟨v, hnext, hmiddle⟩ := hvisible s action middle u hrelated hcase hfirst
      obtain ⟨w, hfollows, hw⟩ := ih hmiddle hrest
      rw [List.filter_cons_of_pos hcase, List.map_cons]
      exact ⟨w, runFrom_cons_iff.mpr ⟨v, hnext, hfollows⟩, hw⟩
    | false =>
      rw [List.filter_cons_of_neg (by simp [hcase])]
      exact ih (hhidden s action middle u hrelated hcase hfirst) hrest

/-- An execution of the matching system can be followed as long as the steps are allowed, when
every allowed action whose match is enabled has a step to related states. -/
theorem exists_runFrom_of_allowedAlong
    (hstep : ∀ s action u v, Related s u → allowed s action → N.next u (rename action) = some v →
      ∃ t, M.next s action = some t ∧ Related t v)
    {s : State} {u v : State'} (hrelated : Related s u) (actions : List Action)
    (hallowed : M.AllowedAlong allowed actions s)
    (hrun : N.runFrom u (actions.map rename) = some v) :
    ∃ t, M.runFrom s actions = some t ∧ Related t v := by
  induction actions generalizing s u with
  | nil =>
    obtain rfl := runFrom_nil_iff.mp hrun
    exact ⟨s, runFrom_nil_iff.mpr rfl, hrelated⟩
  | cons action rest ih =>
    rw [List.map_cons] at hrun
    obtain ⟨middle, hfirst, hrest⟩ := runFrom_cons_iff.mp hrun
    obtain ⟨hnow, hlater⟩ := hallowed
    obtain ⟨t, hnext, ht⟩ := hstep s action u middle hrelated hnow hfirst
    rw [hnext] at hlater
    obtain ⟨w, hfollows, hw⟩ := ih ht hlater hrest
    exact ⟨w, runFrom_cons_iff.mpr ⟨t, hnext, hfollows⟩, hw⟩

end Matched

/-! ### Two variants of a system -/

section Variants

variable {N : TransitionSystem State Action} {Apart : State → State → Prop}

/-- What every step of both systems keeps apart is apart at the end of an execution of both. -/
theorem apart_of_runFrom
    (hapart : ∀ s u action t v, M.Reachable s → N.Reachable u → Apart s u →
      M.next s action = some t → N.next u action = some v → Apart t v)
    {s t u v : State} (hs : M.Reachable s) (hu : N.Reachable u) (hstart : Apart s u)
    (actions : List Action) (hrun : M.runFrom s actions = some t)
    (hother : N.runFrom u actions = some v) : Apart t v := by
  induction actions generalizing s u with
  | nil =>
    obtain rfl := runFrom_nil_iff.mp hrun
    obtain rfl := runFrom_nil_iff.mp hother
    exact hstart
  | cons action rest ih =>
    obtain ⟨middle, hfirst, hrest⟩ := runFrom_cons_iff.mp hrun
    obtain ⟨middle', hfirst', hrest'⟩ := runFrom_cons_iff.mp hother
    exact ih (hs.step hfirst) (hu.step hfirst')
      (hapart s u action middle middle' hs hu hstart hfirst hfirst') hrest hrest'

/-- Two systems with the same allowed steps, which any other step sets apart for ever, have an
execution in common exactly when its steps are allowed. -/
theorem runFrom_iff_allowedAlong
    (hsame : ∀ s action, M.Reachable s → allowed s action → N.next s action = M.next s action)
    (hdiffers : ∀ s action t v, M.Reachable s → N.Reachable s → ¬ allowed s action →
      M.next s action = some t → N.next s action = some v → Apart t v)
    (hapart : ∀ s u action t v, M.Reachable s → N.Reachable u → Apart s u →
      M.next s action = some t → N.next u action = some v → Apart t v)
    (hne : ∀ s, ¬ Apart s s) {s t : State} (hs : M.Reachable s) (hs' : N.Reachable s)
    (actions : List Action) (hrun : M.runFrom s actions = some t) :
    N.runFrom s actions = some t ↔ M.AllowedAlong allowed actions s := by
  induction actions generalizing s with
  | nil => simpa [AllowedAlong, runFrom] using hrun
  | cons action rest ih =>
    obtain ⟨middle, hfirst, hrest⟩ := runFrom_cons_iff.mp hrun
    rw [runFrom_cons_iff, AllowedAlong, hfirst, Option.elim_some]
    by_cases hnow : allowed s action
    · have hfirst' := (hsame s action hs hnow).trans hfirst
      rw [← ih (hs.step hfirst) (hs'.step hfirst') hrest]
      simp [hfirst', hnow]
    · simp only [hnow, false_and, iff_false]
      rintro ⟨middle', hfirst', hrest'⟩
      exact hne t (apart_of_runFrom hapart (hs.step hfirst) (hs'.step hfirst')
        (hdiffers s action middle middle' hs hs' hnow hfirst hfirst') rest hrest hrest')

end Variants

/-! ### Continuations -/

section Continuations

variable {permitted : Action → Prop} {goal : State → Prop}

/-- Some continuation of permitted actions leads to the goal. -/
def CanReach (M : TransitionSystem State Action) (permitted : Action → Prop) (goal : State → Prop)
    (s : State) : Prop :=
  ∃ actions t, (∀ action ∈ actions, permitted action) ∧ M.runFrom s actions = some t ∧ goal t

theorem CanReach.here {s : State} (hgoal : goal s) : M.CanReach permitted goal s :=
  ⟨[], s, by simp, rfl, hgoal⟩

/-- A permitted step can be put before a continuation. -/
theorem CanReach.of_step {s t : State} {action : Action} (hnext : M.next s action = some t)
    (hpermitted : permitted action) (ht : M.CanReach permitted goal t) :
    M.CanReach permitted goal s := by
  obtain ⟨actions, u, hall, hrun, hgoal⟩ := ht
  refine ⟨action :: actions, u, ?_, ?_, hgoal⟩
  · intro other hother
    rcases List.mem_cons.mp hother with rfl | hother
    · exact hpermitted
    · exact hall other hother
  · exact runFrom_cons_iff.mpr ⟨t, hnext, hrun⟩

/-- A continuation of a run is a run. -/
theorem CanReach.and_reachable {s : State} (hs : M.Reachable s)
    (hcan : M.CanReach permitted goal s) :
    M.CanReach permitted (fun t ↦ M.Reachable t ∧ goal t) s := by
  obtain ⟨actions, t, hall, hrun, ht⟩ := hcan
  exact ⟨actions, t, hall, hrun, reachable_of_runFrom hs actions hrun, ht⟩

/-- Continuations can be put one after the other. -/
theorem CanReach.trans {middle : State → Prop} {s : State} (hs : M.CanReach permitted middle s)
    (hmiddle : ∀ t, middle t → M.CanReach permitted goal t) : M.CanReach permitted goal s := by
  obtain ⟨actions, t, hall, hrun, ht⟩ := hs
  induction actions generalizing s with
  | nil =>
    obtain rfl := runFrom_nil_iff.mp hrun
    exact hmiddle s ht
  | cons action rest ih =>
    obtain ⟨next, hfirst, hrest⟩ := runFrom_cons_iff.mp hrun
    exact .of_step hfirst (hall action List.mem_cons_self)
      (ih (fun other hother ↦ hall other (List.mem_cons_of_mem _ hother)) hrest)

/-- A continuation of fewer actions is one of more. -/
theorem CanReach.mono {wider : Action → Prop} (hwider : ∀ action, permitted action → wider action)
    {s : State} (hs : M.CanReach permitted goal s) : M.CanReach wider goal s := by
  obtain ⟨actions, t, hall, hrun, hgoal⟩ := hs
  exact ⟨actions, t, fun action hmem ↦ hwider action (hall action hmem), hrun, hgoal⟩

/-- When every state short of the goal has a permitted step that lowers a rank and keeps an
invariant, the goal can be reached. -/
theorem CanReach.of_rank (rank : State → ℕ) (Inv : State → Prop)
    (hstep : ∀ s, Inv s → goal s ∨
      ∃ action t, permitted action ∧ M.next s action = some t ∧ Inv t ∧ rank t < rank s)
    {s : State} (hs : Inv s) : M.CanReach permitted goal s := by
  induction hrank : rank s using Nat.strongRecOn generalizing s with
  | ind bound ih =>
    rcases hstep s hs with hgoal | ⟨action, t, hpermitted, hnext, ht, hlower⟩
    · exact .here hgoal
    · exact .of_step hnext hpermitted (ih (rank t) (hrank ▸ hlower) ht rfl)

/-- A continuation of an abstract system is realised when every one of its steps is realised by a
continuation that ends in a state related to the end of the step. -/
theorem CanReach.realised {State' Action' : Type*} {N : TransitionSystem State' Action'}
    {permitted' : Action' → Prop} {goal' : State' → Prop} (Related : State → State' → Prop)
    (hstep : ∀ s u action' v, Related s u → N.next u action' = some v →
      M.CanReach permitted (fun t ↦ Related t v) s)
    (hgoal : ∀ s u, Related s u → goal' u → goal s) {s : State} {u : State'} (hs : Related s u)
    (hcan : N.CanReach permitted' goal' u) : M.CanReach permitted goal s := by
  obtain ⟨actions, v, -, hrun, hv⟩ := hcan
  induction actions generalizing s u with
  | nil =>
    obtain rfl := runFrom_nil_iff.mp hrun
    exact .here (hgoal s u hs hv)
  | cons action' rest ih =>
    obtain ⟨middle, hfirst, hrest⟩ := runFrom_cons_iff.mp hrun
    exact (hstep s u action' middle hs hfirst).trans fun t ht ↦ ih ht hrest

/-- A continuation of a component is one of a system in which, as long as an invariant holds, every
permitted step of the component can be taken; the invariant holds at its end. -/
theorem CanReach.lift {State' Action' : Type*} {N : TransitionSystem State' Action'}
    {permitted' : Action' → Prop} {goal' : State' → Prop} (view : State → State')
    (Inv : State → Prop)
    (hstep : ∀ s action' u, Inv s → permitted' action' → N.next (view s) action' = some u →
      ∃ action t, permitted action ∧ M.next s action = some t ∧ view t = u ∧ Inv t)
    (hgoal : ∀ s, Inv s → goal' (view s) → goal s) {s : State} (hs : Inv s)
    (hcan : N.CanReach permitted' goal' (view s)) : M.CanReach permitted goal s := by
  obtain ⟨actions, u, hall, hrun, hu⟩ := hcan
  induction actions generalizing s with
  | nil =>
    obtain rfl := runFrom_nil_iff.mp hrun
    exact .here (hgoal s hs hu)
  | cons action' rest ih =>
    obtain ⟨middle, hfirst, hrest⟩ := runFrom_cons_iff.mp hrun
    obtain ⟨action, t, hpermitted, hnext, rfl, ht⟩ :=
      hstep s action' middle hs (hall action' List.mem_cons_self) hfirst
    exact .of_step hnext hpermitted
      (ih ht (fun other hother ↦ hall other (List.mem_cons_of_mem _ hother)) hrest)

/-- From a trap, which no permitted action leaves and which does not meet the goal, no continuation
leads to the goal. -/
theorem not_canReach {Trap : State → Prop}
    (hstep : ∀ s action t, Trap s → permitted action → M.next s action = some t → Trap t)
    (hgoal : ∀ s, Trap s → ¬ goal s) {s : State} (hs : Trap s) :
    ¬ M.CanReach permitted goal s := by
  rintro ⟨actions, t, hall, hrun, ht⟩
  induction actions generalizing s with
  | nil =>
    obtain rfl := runFrom_nil_iff.mp hrun
    exact hgoal s hs ht
  | cons action rest ih =>
    obtain ⟨middle, hfirst, hrest⟩ := runFrom_cons_iff.mp hrun
    exact ih (hstep s action middle hs (hall action List.mem_cons_self) hfirst)
      (fun other hother ↦ hall other (List.mem_cons_of_mem _ hother)) hrest

end Continuations

end TransitionSystem
