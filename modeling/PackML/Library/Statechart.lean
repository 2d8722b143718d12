import Mathlib.Data.List.Basic
import Mathlib.Tactic.SplitIfs

/-!
# Hierarchical state machines without parallel regions

A statechart is a forest of nodes, given by the parent of every node, in which the atomic nodes
have no children. A configuration is the list of active nodes. An event is offered to the
transitions of the active atomic node and then to those of its ancestors, from the inside
outwards, and the first transition whose test succeeds is selected; a test may also write to the
event, so the event is threaded through the tests (`selectTransitions`). A selected transition
leaves every active node below the least common ancestor of its source and its target
(`exitStates`) and enters the target with its ancestors below that node (`enterStates`).

`properAncestors_suffix` splits the path of a node at one of its ancestors.
`enterStates_exitStates_path` is the main result: from the path of an active node, a transition of
a node on that path leads to the path of its target, so a configuration remains the path of a
single atomic node. `selectTransitions_path` computes the selection in such a configuration.
`firstEnabled_eq_find` says that it is the first transition that fires, when no test changes the
part of the event that the tests read, and `firstEnabled_flag` what a chain of tests leaves in a
flag of the event.
-/

set_option autoImplicit false
set_option relaxedAutoImplicit false

/-- A forest of nodes. The depth bounds the number of ancestors of a node, and a node that has
children is not atomic. -/
structure Statechart (Node : Type*) where
  parent : Node → Option Node
  depth : Node → ℕ
  atomic : Node → Bool
  depth_eq_succ : ∀ {node above : Node}, parent node = some above → depth node = depth above + 1
  not_atomic : ∀ {node above : Node}, parent node = some above → atomic above = false

namespace Statechart

variable {Node : Type*} (chart : Statechart Node)

/-! ### Ancestors -/

/-- At most `fuel` ancestors of a node, nearest first. -/
def climb : ℕ → Node → List Node
  | 0, _ => []
  | fuel + 1, node =>
    match chart.parent node with
    | none => []
    | some above => above :: climb fuel above

/-- The proper ancestors of a node, nearest first. -/
def properAncestors (node : Node) : List Node :=
  chart.climb (chart.depth node) node

/-- A node and its proper ancestors, nearest first. -/
def path (node : Node) : List Node :=
  node :: chart.properAncestors node

theorem properAncestors_of_parent_none {node : Node} (hparent : chart.parent node = none) :
    chart.properAncestors node = [] := by
  unfold properAncestors
  cases chart.depth node with
  | zero => rfl
  | succ fuel => simp [climb, hparent]

theorem properAncestors_of_parent_some {node above : Node}
    (hparent : chart.parent node = some above) :
    chart.properAncestors node = chart.path above := by
  rw [properAncestors, chart.depth_eq_succ hparent]
  simp [climb, hparent, path, properAncestors]

/-- A proper ancestor is less deep than the node. -/
theorem depth_lt_of_mem_properAncestors {node above : Node}
    (hmem : above ∈ chart.properAncestors node) : chart.depth above < chart.depth node := by
  induction hdepth : chart.depth node generalizing node with
  | zero => simp [properAncestors, hdepth, climb] at hmem
  | succ fuel ih =>
    cases hparent : chart.parent node with
    | none => simp [chart.properAncestors_of_parent_none hparent] at hmem
    | some next =>
      rw [chart.properAncestors_of_parent_some hparent] at hmem
      have hnext : chart.depth next = fuel := by
        have := chart.depth_eq_succ hparent
        omega
      rcases List.mem_cons.mp hmem with rfl | hmem
      · omega
      · have := ih hmem hnext
        omega

/-- A proper ancestor has children, so it is not atomic. -/
theorem not_atomic_of_mem_properAncestors {node above : Node}
    (hmem : above ∈ chart.properAncestors node) : chart.atomic above = false := by
  induction hdepth : chart.depth node generalizing node with
  | zero => simp [properAncestors, hdepth, climb] at hmem
  | succ fuel ih =>
    cases hparent : chart.parent node with
    | none => simp [chart.properAncestors_of_parent_none hparent] at hmem
    | some next =>
      rw [chart.properAncestors_of_parent_some hparent] at hmem
      rcases List.mem_cons.mp hmem with rfl | hmem
      · exact chart.not_atomic hparent
      · refine ih hmem ?_
        have := chart.depth_eq_succ hparent
        omega

/-- The path of a node splits at every proper ancestor: a part whose nodes are all below that
ancestor, followed by the path of the ancestor. -/
theorem properAncestors_suffix {node above : Node} (hmem : above ∈ chart.properAncestors node) :
    ∃ below : List Node, chart.path node = below ++ chart.path above ∧
      ∀ other ∈ below, above ∈ chart.properAncestors other := by
  induction hdepth : chart.depth node generalizing node with
  | zero => simp [properAncestors, hdepth, climb] at hmem
  | succ fuel ih =>
    cases hparent : chart.parent node with
    | none => simp [chart.properAncestors_of_parent_none hparent] at hmem
    | some next =>
      have hpath : chart.path node = node :: chart.path next := by
        rw [path, chart.properAncestors_of_parent_some hparent]
      have hmem' := hmem
      rw [chart.properAncestors_of_parent_some hparent] at hmem'
      rcases List.mem_cons.mp hmem' with rfl | hnext
      · exact ⟨[node], hpath, by simpa using hmem⟩
      · have hfuel : chart.depth next = fuel := by
          have := chart.depth_eq_succ hparent
          omega
        obtain ⟨below, hbelow, hall⟩ := ih hnext hfuel
        refine ⟨node :: below, by rw [hpath, hbelow, List.cons_append], ?_⟩
        rintro other hother
        rcases List.mem_cons.mp hother with rfl | hother
        · exact hmem
        · exact hall other hother

/-- Proper ancestors of a node on the path of a leaf are proper ancestors of the leaf. -/
theorem mem_properAncestors_trans {leaf node above : Node} (hnode : node ∈ chart.path leaf)
    (habove : above ∈ chart.properAncestors node) : above ∈ chart.properAncestors leaf := by
  rcases List.mem_cons.mp hnode with rfl | hnode
  · exact habove
  · obtain ⟨below, hbelow, -⟩ := chart.properAncestors_suffix hnode
    cases below with
    | nil =>
      simp only [path, List.nil_append, List.cons.injEq] at hbelow
      exact hbelow.2 ▸ habove
    | cons first rest =>
      simp only [path, List.cons_append, List.cons.injEq] at hbelow
      rw [hbelow.2]
      exact List.mem_append_right _ (List.mem_cons_of_mem _ habove)

/-! ### Leaving and entering states -/

section Microstep

variable [DecidableEq Node]

/-- The least proper ancestor of the source that is a proper ancestor of the target; `none` is the
machine itself, which contains all nodes. -/
def leastCommonAncestor (source target : Node) : Option Node :=
  (chart.properAncestors source).find? fun above ↦ decide (above ∈ chart.properAncestors target)

/-- Whether a node lies properly below the domain of a transition. -/
def inDomain (domain : Option Node) (node : Node) : Bool :=
  match domain with
  | none => true
  | some above => decide (above ∈ chart.properAncestors node)

/-- The active nodes that remain when the transition `source → target` has left its domain. -/
def exitStates (source target : Node) (configuration : List Node) : List Node :=
  configuration.filter fun node ↦ !chart.inDomain (chart.leastCommonAncestor source target) node

/-- The active nodes once the transition `source → target` has entered its target. -/
def enterStates (source target : Node) (configuration : List Node) : List Node :=
  (chart.path target).filter (chart.inDomain (chart.leastCommonAncestor source target)) ++
    configuration

theorem leastCommonAncestor_mem {source target above : Node}
    (hleast : chart.leastCommonAncestor source target = some above) :
    above ∈ chart.properAncestors source ∧ above ∈ chart.properAncestors target :=
  ⟨List.mem_of_find?_eq_some hleast, by simpa using List.find?_some hleast⟩

/-- The path of a node, filtered by the domain below one of its proper ancestors: the part outside
the domain is the path of the ancestor. -/
theorem path_filter_inDomain {node above : Node} (hmem : above ∈ chart.properAncestors node) :
    (chart.path node).filter (chart.inDomain (some above)) ++ chart.path above =
        chart.path node ∧
      (chart.path node).filter (fun other ↦ !chart.inDomain (some above) other) =
        chart.path above := by
  obtain ⟨below, hpath, hbelow⟩ := chart.properAncestors_suffix hmem
  have houtside : ∀ other ∈ chart.path above, above ∉ chart.properAncestors other := by
    intro other hother hin
    have hlt := chart.depth_lt_of_mem_properAncestors hin
    rcases List.mem_cons.mp hother with rfl | hother
    · omega
    · have := chart.depth_lt_of_mem_properAncestors hother
      omega
  have hinside : below.filter (chart.inDomain (some above)) = below :=
    List.filter_eq_self.mpr fun other hother ↦ by simpa [inDomain] using hbelow other hother
  have hempty : (chart.path above).filter (chart.inDomain (some above)) = [] :=
    List.filter_eq_nil_iff.mpr fun other hother ↦ by simpa [inDomain] using houtside other hother
  have hinside' : below.filter (fun other ↦ !chart.inDomain (some above) other) = [] :=
    List.filter_eq_nil_iff.mpr fun other hother ↦ by simpa [inDomain] using hbelow other hother
  have hall : (chart.path above).filter (fun other ↦ !chart.inDomain (some above) other) =
      chart.path above :=
    List.filter_eq_self.mpr fun other hother ↦ by simpa [inDomain] using houtside other hother
  constructor
  · rw [hpath, List.filter_append, hinside, hempty, List.append_nil]
  · rw [hpath, List.filter_append, hinside', hall, List.nil_append]

/-- From the path of an active node, a transition of a node on that path leads to the path of its
target. -/
theorem enterStates_exitStates_path {leaf source target : Node}
    (hsource : source ∈ chart.path leaf) :
    chart.enterStates source target (chart.exitStates source target (chart.path leaf)) =
      chart.path target := by
  unfold enterStates exitStates
  cases hleast : chart.leastCommonAncestor source target with
  | none => simp [inDomain]
  | some above =>
    obtain ⟨habove, htarget⟩ := chart.leastCommonAncestor_mem hleast
    have hleaf := chart.mem_properAncestors_trans hsource habove
    rw [(chart.path_filter_inDomain hleaf).2, (chart.path_filter_inDomain htarget).1]

/-- No node of the domain of a transition is active once the domain has been left. -/
theorem not_mem_exitStates_of_atomic {leaf source target : Node}
    (hsource : source ∈ chart.path leaf) :
    leaf ∉ chart.exitStates source target (chart.path leaf) := by
  intro hmem
  obtain ⟨-, houtside⟩ := List.mem_filter.mp hmem
  cases hleast : chart.leastCommonAncestor source target with
  | none => simp [hleast, inDomain] at houtside
  | some above =>
    have hleaf := chart.mem_properAncestors_trans hsource (chart.leastCommonAncestor_mem hleast).1
    simp [hleast, inDomain, hleaf] at houtside

end Microstep

/-! ### Selecting transitions -/

section Selection

variable {Transition Event : Type*} (transitions : Node → List Transition)
  (eventTest : Transition → Event → Bool × Event)

/-- Tests transitions in order until one succeeds, threading the event through the tests. -/
def firstEnabled : List Transition → Event → Option Transition × Event
  | [], event => (none, event)
  | transition :: rest, event =>
    match eventTest transition event with
    | (true, event') => (some transition, event')
    | (false, event') => firstEnabled rest event'

/-- The transitions of each node in order, tagged with the node. -/
def candidates (nodes : List Node) : List (Node × Transition) :=
  nodes.flatMap fun node ↦ (transitions node).map (Prod.mk node)

/-- Tests the transitions of each node in order until one succeeds. -/
def selectAlong (nodes : List Node) (event : Event) : Option (Node × Transition) × Event :=
  firstEnabled (fun candidate ↦ eventTest candidate.2) (candidates transitions nodes) event

/-- The active atomic nodes. -/
def activeLeaves (configuration : List Node) : List Node :=
  configuration.filter chart.atomic

/-- Selects at most one transition for each active atomic node, among its own transitions and
those of its ancestors, threading the event through all tests. -/
def selectTransitions (configuration : List Node) (event : Event) :
    List (Node × Transition) × Event :=
  (chart.activeLeaves configuration).foldl
    (fun selected leaf ↦
      match selectAlong transitions eventTest (chart.path leaf) selected.2 with
      | (some enabled, event') => (selected.1 ++ [enabled], event')
      | (none, event') => (selected.1, event'))
    ([], event)

/-- The path of an atomic node has that node as its only active leaf. -/
theorem activeLeaves_path {leaf : Node} (hleaf : chart.atomic leaf = true) :
    chart.activeLeaves (chart.path leaf) = [leaf] := by
  have hnone : (chart.properAncestors leaf).filter chart.atomic = [] :=
    List.filter_eq_nil_iff.mpr fun above habove ↦ by
      simp [chart.not_atomic_of_mem_properAncestors habove]
  rw [activeLeaves, path, List.filter_cons_of_pos hleaf, hnone]

/-- In the configuration of an atomic node the selection is the one along its path. -/
theorem selectTransitions_path {leaf : Node} (hleaf : chart.atomic leaf = true) (event : Event) :
    chart.selectTransitions transitions eventTest (chart.path leaf) event =
      ((selectAlong transitions eventTest (chart.path leaf) event).1.toList,
        (selectAlong transitions eventTest (chart.path leaf) event).2) := by
  rw [selectTransitions, chart.activeLeaves_path hleaf, List.foldl_cons, List.foldl_nil]
  rcases selectAlong transitions eventTest (chart.path leaf) event with ⟨_ | enabled, event'⟩ <;>
    rfl

section Fires

variable {Content : Type*} (content : Event → Content) (fires : Transition → Content → Bool)

/-- When the outcome of a test depends only on a part of the event that no test changes, a sequence
of tests finds the first transition that fires, and keeps that part of the event. -/
theorem firstEnabled_eq_find
    (htest : ∀ transition event, (eventTest transition event).1 = fires transition (content event))
    (hkeep : ∀ transition event, content (eventTest transition event).2 = content event)
    (tested : List Transition) (event : Event) :
    (firstEnabled eventTest tested event).1 =
        tested.find? (fun transition ↦ fires transition (content event)) ∧
      content (firstEnabled eventTest tested event).2 = content event := by
  induction tested generalizing event with
  | nil => exact ⟨rfl, rfl⟩
  | cons transition rest ih =>
    have hfirst := htest transition event
    have hcontent := hkeep transition event
    unfold firstEnabled
    rcases hresult : eventTest transition event with ⟨_ | _, event'⟩
    · rw [hresult] at hfirst hcontent
      rw [List.find?_cons_of_neg (by simp [← hfirst]), ← hcontent]
      exact ⟨(ih event').1, (ih event').2⟩
    · rw [hresult] at hfirst hcontent
      exact ⟨by simp [← hfirst], hcontent⟩

end Fires

section Flag

variable (relevant : Event → Prop) (flag : Event → Bool) (touches : Transition → Bool)

/-- Tests none of which touches the event select nothing. -/
theorem firstEnabled_untouched
    (hleave : ∀ transition event, relevant event → touches transition = false →
      eventTest transition event = (false, event))
    {tested : List Transition} {event : Event} (hevent : relevant event)
    (hnone : tested.any touches = false) :
    firstEnabled eventTest tested event = (none, event) := by
  induction tested with
  | nil => rfl
  | cons transition rest ih =>
    rw [List.any_cons, Bool.or_eq_false_iff] at hnone
    unfold firstEnabled
    rw [hleave transition event hevent hnone.1]
    exact ih hnone.2

/-- The flag left over by a sequence of tests. A test that touches a relevant event leaves the
flag equal to its own outcome, and a test that does not fails and leaves the event as it was. Then
the flag is the outcome of the whole sequence when some test touched the event, and what it was
before otherwise. -/
theorem firstEnabled_flag
    (htouch : ∀ transition event, relevant event → touches transition = true →
      flag (eventTest transition event).2 = (eventTest transition event).1)
    (hleave : ∀ transition event, relevant event → touches transition = false →
      eventTest transition event = (false, event))
    (hkeep : ∀ transition event, relevant event → relevant (eventTest transition event).2)
    (tested : List Transition) {event : Event} (hevent : relevant event) :
    flag (firstEnabled eventTest tested event).2 =
      if tested.any touches then (firstEnabled eventTest tested event).1.isSome
      else flag event := by
  induction tested generalizing event with
  | nil => rfl
  | cons transition rest ih =>
    unfold firstEnabled
    rw [List.any_cons]
    cases htouches : touches transition with
    | false =>
      rw [hleave transition event hevent htouches]
      exact ih hevent
    | true =>
      have hflag := htouch transition event hevent htouches
      have hnext := hkeep transition event hevent
      rcases hresult : eventTest transition event with ⟨_ | _, event'⟩
      · rw [hresult] at hflag hnext
        have hrest := ih hnext
        cases hany : rest.any touches with
        | true => simpa [hany] using hrest
        | false =>
          have hnone := firstEnabled_untouched eventTest relevant touches hleave hnext hany
          simpa [hnone] using hflag
      · rw [hresult] at hflag
        simpa using hflag

end Flag

end Selection

end Statechart
