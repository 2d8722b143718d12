import PackML.Library.Sweeps
import PackML.Manager.Agreement
import Mathlib.Data.Fintype.Basic

/-!
# The executors of the clients

`wait_all_futures` spins the executor of every client once in each of its sweeps, in the order of
the map, on the thread that calls it: the Qt thread in `on_state_changed`, the ROS thread in
`on_change_mode`. Both use the same executors, and an executor that is spun while it is spinning
throws. When `spin_once` returns and what the clients answer is an input.

The guard of a mode change looks at the state of the machine alone, and `setState` stores a state
before it calls `on_state_changed`. So a mode change is accepted while the Qt thread is still in the
round of IDLE, and its round enters the executor that the Qt thread is inside
(`mode_round_enters_idle_round`). Along the runs in which a thread begins to sweep only while the
other is not in its sweeps, no executor is used by two threads (`executors_exclusive`). While both
are and go on sweeping, because answers are missing, nothing keeps them apart
(`overlapping_rounds_meet`).
-/

set_option autoImplicit false
set_option relaxedAutoImplicit false

namespace PackML

open Sweeps

/-! ### Threads and executors -/

/-- The two threads of the manager. -/
inductive Thread
  | qt
  | ros
  deriving DecidableEq, Repr

instance : Fintype Thread where
  elems := {.qt, .ros}
  complete thread := by cases thread <;> decide

/-- A manager, and where each thread is in the loop of `wait_all_futures`: not in it, between the
calls of `spin_once` in a sweep, or inside the one of a client. -/
structure Executors (Client : Type) where
  manager : SMNode
  spinning : Thread → Sweep Client

/-- A step of the manager, or a move of a thread in the loop of `wait_all_futures`. -/
inductive ExecutorAction
  | node (action : NodeAction)
  | spin (thread : Thread) (move : SweepMove)
  deriving DecidableEq

/-- Whether a thread has called the clients and `wait_all_futures` has not returned. -/
def SMNode.waits (s : SMNode) : Thread → Bool
  | .qt => s.qt = .waiting
  | .ros =>
    match s.ros with
    | .waiting _ => true
    | _ => false

/-- The thread whose `wait_all_futures` returns in a step, and what it returns. -/
def NodeAction.returns : NodeAction → Option (Thread × Bool)
  | .stateRound approved => some (.qt, approved)
  | .modeRound approved => some (.ros, approved)
  | _ => none

section Runs

variable {Client : Type} [DecidableEq Client] (clientMap : List Client)

/-- `wait_all_futures` returns: false at one of its two checks, before the loop, or either value at
the end of a sweep. -/
def returnWait (spinning : Thread → Sweep Client) (thread : Thread) (returned : Bool) :
    Option (Thread → Sweep Client) :=
  if spinning thread = .outside then if returned then none else some spinning
  else (sweeps clientMap).next spinning (thread, .finish)

/-- The runs of a manager whose client map holds the clients of `clientMap`. The exception of an
executor that is spun twice ends a run. -/
def executors (cycle : Cycle) : TransitionSystem (Executors Client) ExecutorAction where
  initial s := s = ⟨.activated, fun _ ↦ .outside⟩
  next s
    | .node action =>
      if Exclusive s.spinning then
        match action.returns with
        | some (thread, returned) =>
          (returnWait clientMap s.spinning thread returned).bind fun spinning ↦
            ((smNode cycle).next s.manager action).map fun manager ↦ ⟨manager, spinning⟩
        | none => ((smNode cycle).next s.manager action).map fun manager ↦ ⟨manager, s.spinning⟩
      else none
    | .spin thread move =>
      if move ≠ .finish ∧ s.manager.waits thread = true ∧ clientMap ≠ [] then
        ((sweeps clientMap).next s.spinning (thread, move)).map fun spinning ↦
          ⟨s.manager, spinning⟩
      else none

end Runs

section Properties

variable {Client : Type}

/-- No thread is inside `spin_once` of a client that the other thread is inside. -/
def UsedByOneThread (s : Executors Client) : Prop :=
  ∀ client, client ∈ (s.spinning .qt).resource → client ∉ (s.spinning .ros).resource

/-- A thread begins to sweep over the clients only while the other is not in its sweeps. -/
def RoundsApart (s : Executors Client) : ExecutorAction → Prop
  | .spin .qt .sweep => s.spinning .qt = .outside → s.spinning .ros = .outside
  | .spin .ros .sweep => s.spinning .ros = .outside → s.spinning .qt = .outside
  | _ => True

instance [DecidableEq Client] (s : Executors Client) : (action : ExecutorAction) →
    Decidable (RoundsApart s action)
  | .spin .qt .sweep | .spin .ros .sweep => inferInstanceAs (Decidable (_ → _))
  | .spin .qt .enter | .spin .qt .leave | .spin .qt .finish | .spin .ros .enter
  | .spin .ros .leave | .spin .ros .finish | .node _ => inferInstanceAs (Decidable True)

theorem usedByOneThread_iff {s : Executors Client} : UsedByOneThread s ↔ Exclusive s.spinning := by
  constructor
  · intro hone thread other hne client hclient hother
    cases thread <;> cases other
    · exact hne rfl
    · exact hone client hclient hother
    · exact hone client hother hclient
    · exact hne rfl
  · intro hexclusive client
    exact hexclusive .qt .ros (by decide) client

theorem apart_of_roundsApart {s : Executors Client} {thread : Thread} {move : SweepMove}
    (hapart : RoundsApart s (.spin thread move)) : Apart s.spinning (thread, move) := by
  cases move with
  | enter | leave | finish => trivial
  | sweep =>
    intro houtside other
    cases thread <;> cases other
    · exact houtside
    · exact hapart houtside
    · exact hapart houtside
    · exact houtside

end Properties

/-! ### Rounds that keep apart -/

section Rounds

variable {Client : Type} [DecidableEq Client] {clientMap : List Client} {cycle : Cycle}
  {s t : Executors Client}

/-- A step of the manager moves a thread out of its sweeps, or none. -/
theorem node_spec {action : NodeAction}
    (hnext : (executors clientMap cycle).next s (.node action) = some t) :
    (smNode cycle).next s.manager action = some t.manager ∧
      (t.spinning = s.spinning ∧
          (∀ thread returned, action.returns = some (thread, returned) →
            s.spinning thread = .outside) ∨
        ∃ thread returned, action.returns = some (thread, returned) ∧
          (sweeps clientMap).next s.spinning (thread, .finish) = some t.spinning) := by
  obtain ⟨-, hnext⟩ := Option.ite_none_right_eq_some.mp hnext
  split at hnext
  · rename_i thread returned hreturns
    obtain ⟨spinning, hspinning, hnext⟩ := Option.bind_eq_some_iff.mp hnext
    obtain ⟨manager, hmanager, rfl⟩ := Option.map_eq_some_iff.mp hnext
    refine ⟨hmanager, ?_⟩
    unfold returnWait at hspinning
    split_ifs at hspinning with houtside
    · obtain rfl := Option.some.inj hspinning
      refine Or.inl ⟨rfl, fun other value hother ↦ ?_⟩
      obtain ⟨rfl, -⟩ := Prod.mk.inj (Option.some.inj (hreturns.symm.trans hother))
      exact houtside
    · exact Or.inr ⟨thread, returned, hreturns, hspinning⟩
  · rename_i hreturns
    obtain ⟨manager, hmanager, rfl⟩ := Option.map_eq_some_iff.mp hnext
    refine ⟨hmanager, Or.inl ⟨rfl, fun thread returned h ↦ ?_⟩⟩
    cases hreturns.symm.trans h

theorem spin_spec {thread : Thread} {move : SweepMove}
    (hnext : (executors clientMap cycle).next s (.spin thread move) = some t) :
    move ≠ .finish ∧ s.manager.waits thread = true ∧ clientMap ≠ [] ∧ t.manager = s.manager ∧
      (sweeps clientMap).next s.spinning (thread, move) = some t.spinning := by
  obtain ⟨⟨hfinish, hwaits, hclients⟩, hnext⟩ := Option.ite_none_right_eq_some.mp hnext
  obtain ⟨spinning, hspinning, rfl⟩ := Option.map_eq_some_iff.mp hnext
  exact ⟨hfinish, hwaits, hclients, rfl, hspinning⟩

/-- The threads sweep as the workers of the library do. -/
theorem spinning_step {action : ExecutorAction} (hapart : RoundsApart s action)
    (hnext : (executors clientMap cycle).next s action = some t) :
    t.spinning = s.spinning ∨ ∃ moved, Apart s.spinning moved ∧
      (sweeps clientMap).next s.spinning moved = some t.spinning := by
  cases action with
  | node action =>
    obtain ⟨-, ⟨hsame, -⟩ | ⟨thread, returned, -, hfinish⟩⟩ := node_spec hnext
    · exact Or.inl hsame
    · exact Or.inr ⟨(thread, .finish), trivial, hfinish⟩
  | spin thread move =>
    obtain ⟨-, -, -, -, hmove⟩ := spin_spec hnext
    exact Or.inr ⟨(thread, move), apart_of_roundsApart hapart, hmove⟩

/-- No executor is used by two threads, along the runs in which a thread begins to sweep over the
clients only while the other is not in its sweeps. -/
theorem executors_exclusive (hrun : (executors clientMap cycle).ReachableBy RoundsApart s) :
    UsedByOneThread s := by
  have hsweeps : (sweeps clientMap).ReachableBy Apart s.spinning := by
    refine hrun.simulate Executors.spinning ?_ ?_
    · rintro s rfl thread
      rfl
    · intro s action t hapart hnext
      exact spinning_step hapart hnext
  exact usedByOneThread_iff.mpr (exclusive_of_apart hsweeps)

/-! ### Rounds that overlap -/

/-- A thread in its sweeps is in `wait_all_futures`, and there are clients. -/
def SpinsWhileWaiting (clientMap : List Client) (s : Executors Client) : Prop :=
  ∀ thread, s.spinning thread ≠ .outside → s.manager.waits thread = true ∧ clientMap ≠ []

theorem executorsManager_reachable (hrun : (executors clientMap cycle).Reachable s) :
    (smNode cycle).Reachable s.manager := by
  refine hrun.project Executors.manager ?_ ?_
  · rintro s rfl
    rfl
  · intro s action t hnext
    cases action with
    | node action => exact Or.inr ⟨action, (node_spec hnext).1⟩
    | spin thread move =>
      obtain ⟨-, -, -, hmanager, -⟩ := spin_spec hnext
      exact Or.inl hmanager

/-- A thread waits for the clients until its `wait_all_futures` returns. -/
theorem waits_kept {manager manager' : SMNode} {action : NodeAction} {thread : Thread}
    (hcopies : CopiesInvariant manager)
    (hreturns : ∀ returned, action.returns ≠ some (thread, returned))
    (hnext : (smNode cycle).next manager action = some manager')
    (hwaits : manager.waits thread = true) : manager'.waits thread = true := by
  cases thread with
  | qt =>
    have hqt : manager.qt = .waiting := of_decide_eq_true hwaits
    refine decide_eq_true (stateRequest_step hcopies ?_ hnext (Or.inl ⟨hqt, rfl⟩)).1
    rintro approved rfl
    exact hreturns approved rfl
  | ros =>
    cases hros : manager.ros with
    | waiting mode =>
      have hkept : manager'.ros = .waiting mode := by
        refine modeRequest_step ?_ hnext (Or.inl hros)
        rintro approved rfl
        exact hreturns approved rfl
      simp only [SMNode.waits, hkept]
    | _ => simp [SMNode.waits, hros] at hwaits

theorem spinsWhileWaiting_step (hcopies : CopiesInvariant s.manager)
    (hs : SpinsWhileWaiting clientMap s) {action : ExecutorAction}
    (hnext : (executors clientMap cycle).next s action = some t) :
    SpinsWhileWaiting clientMap t := by
  intro thread hsweeps
  cases action with
  | node action =>
    obtain ⟨hmanager, ⟨hsame, houtside⟩ | ⟨mover, returned, hreturns, hfinish⟩⟩ := node_spec hnext
    · rw [hsame] at hsweeps
      obtain ⟨hwaits, hclients⟩ := hs thread hsweeps
      refine ⟨waits_kept hcopies (fun returned h ↦ ?_) hmanager hwaits, hclients⟩
      exact hsweeps (houtside thread returned h)
    · obtain ⟨-, moved, hmove, hspinning⟩ := next_spec hfinish
      rw [hspinning] at hsweeps
      by_cases hmover : thread = mover
      · subst hmover
        rw [Function.update_self, Sweep.outside_of_finish hmove] at hsweeps
        exact absurd rfl hsweeps
      · rw [Function.update_of_ne hmover] at hsweeps
        obtain ⟨hwaits, hclients⟩ := hs thread hsweeps
        refine ⟨waits_kept hcopies (fun value h ↦ hmover ?_) hmanager hwaits, hclients⟩
        exact (Prod.mk.inj (Option.some.inj (h.symm.trans hreturns))).1
  | spin mover move =>
    obtain ⟨-, hwaits, hclients, hmanager, hmove⟩ := spin_spec hnext
    obtain ⟨-, moved, -, hspinning⟩ := next_spec hmove
    rw [hmanager]
    by_cases hmover : thread = mover
    · rw [hmover]
      exact ⟨hwaits, hclients⟩
    · rw [hspinning, Function.update_of_ne hmover] at hsweeps
      exact hs thread hsweeps

theorem spinsWhileWaiting_of_reachable (hrun : (executors clientMap cycle).Reachable s) :
    SpinsWhileWaiting clientMap s := by
  refine TransitionSystem.ReachableBy.invariant_of_reachable
    (fun s hs ↦ copiesInvariant_of_reachable (executorsManager_reachable hs)) ?_ ?_ hrun
  · rintro s rfl thread hsweeps
    exact absurd rfl hsweeps
  · intro s action t hcopies hs _ hnext
    exact spinsWhileWaiting_step hcopies hs hnext

/-- When both threads are in their sweeps and sweep as long as it takes, as they do while answers
are missing, the two can meet in the executor of some client: moves in the two loops alone lead
there. -/
theorem overlapping_rounds_meet (hrun : (executors clientMap cycle).Reachable s)
    (hqt : s.spinning .qt ≠ .outside) (hros : s.spinning .ros ≠ .outside) :
    (executors clientMap cycle).CanReach
      (fun action ↦ ∃ thread move, action = .spin thread move)
      (fun t ↦ ¬ UsedByOneThread t) s := by
  have hspins := spinsWhileWaiting_of_reachable hrun
  have hsweeps : (sweeps clientMap).Reachable s.spinning := by
    refine hrun.project Executors.spinning ?_ ?_
    · rintro s rfl thread
      rfl
    · intro s action t hnext
      cases action with
      | node action =>
        obtain ⟨-, ⟨hsame, -⟩ | ⟨thread, returned, -, hfinish⟩⟩ := node_spec hnext
        · exact Or.inl hsame
        · exact Or.inr ⟨_, hfinish⟩
      | spin thread move =>
        obtain ⟨-, -, -, -, hmove⟩ := spin_spec hnext
        exact Or.inr ⟨_, hmove⟩
  obtain ⟨hwaits, hclients⟩ := hspins .qt hqt
  have hmeet : CanMeet clientMap s.spinning := canMeet hsweeps hclients (by decide) hqt hros
  refine TransitionSystem.CanReach.lift Executors.spinning
    (fun t ↦ ∀ thread, t.manager.waits thread = true) ?_ ?_ ?_ hmeet
  · rintro s ⟨thread, move⟩ u hwaits hfinish hnext
    refine ⟨.spin thread move, ⟨s.manager, u⟩, ⟨thread, move, rfl⟩, ?_, rfl, hwaits⟩
    show (if _ then _ else none) = _
    rw [if_pos ⟨hfinish, hwaits thread, hclients⟩, hnext]
    rfl
  · intro t _ hmet hone
    exact hmet (usedByOneThread_iff.mp hone)
  · intro thread
    cases thread
    · exact hwaits
    · exact (hspins .ros hros).1

end Rounds

/-! ### Runs -/

/-- A round of a thread over one client, up to the end of its only sweep. -/
def oneSweep (thread : Thread) : List ExecutorAction :=
  [.spin thread .sweep, .spin thread .enter, .spin thread .leave]

/-- The steps of a manager with one client, which answers in the first sweep. -/
def withSweeps (actions : List NodeAction) : List ExecutorAction :=
  actions.flatMap fun action ↦
    match action.returns with
    | some (thread, _) => oneSweep thread ++ [.node action]
    | none => [.node action]

/-- MANUAL is changed to MAINTENANCE when the round of IDLE is over. -/
def consecutiveRounds : List ExecutorAction :=
  withSweeps (enterIdleRun ++ approvedRound ++ changeModeTo .maintenance ++
    [.callMode, .modeRound true])

theorem executors_exclusive_consecutiveRounds :
    ∃ s, (executors [()] .singleCycle).runFrom ⟨.activated, fun _ ↦ .outside⟩ consecutiveRounds =
        some s ∧ s.manager.ros = .fillingAgain .maintenance ∧ UsedByOneThread s := by
  have hend : ((executors [()] .singleCycle).runFrom ⟨.activated, fun _ ↦ .outside⟩
      consecutiveRounds).map (fun s ↦ s.manager.ros) = some (.fillingAgain .maintenance) := by
    decide +kernel
  obtain ⟨s, hrun, hs⟩ := Option.map_eq_some_iff.mp hend
  have hallowed : (executors [()] .singleCycle).AllowedAlong RoundsApart consecutiveRounds
      ⟨.activated, fun _ ↦ .outside⟩ := by
    decide +kernel
  exact ⟨s, hrun, hs, executors_exclusive
    (TransitionSystem.reachableBy_of_runFrom (.initial rfl) _ hallowed hrun)⟩

/-- The Qt thread is inside the executor of the only client in the round of IDLE when a mode change
is accepted, whose round enters the same executor. -/
def overlappingRounds : List ExecutorAction :=
  withSweeps enterIdleRun ++ [.node .callState, .spin .qt .sweep, .spin .qt .enter] ++
    withSweeps (changeModeTo .maintenance ++ [.callMode]) ++ [.spin .ros .sweep, .spin .ros .enter]

theorem mode_round_enters_idle_round :
    (∃ s, (executors [()] .singleCycle).runFrom ⟨.activated, fun _ ↦ .outside⟩ overlappingRounds =
        some s ∧ s.manager.machine.phase = .notifying .idle ∧ s.manager.qt = .waiting ∧
          s.manager.ros = .waiting .maintenance ∧ s.spinning .qt = .inside () [] ∧
            s.spinning .ros = .inside () []) ∧
      ¬ ∀ s, (executors [()] .singleCycle).Reachable s → UsedByOneThread s := by
  have hend : ((executors [()] .singleCycle).runFrom ⟨.activated, fun _ ↦ .outside⟩
      overlappingRounds).map (fun s ↦ (s.manager.machine.phase, s.manager.qt, s.manager.ros,
        s.spinning .qt, s.spinning .ros)) =
      some (.notifying .idle, .waiting, .waiting .maintenance, .inside () [], .inside () []) := by
    decide +kernel
  obtain ⟨s, hrun, hs⟩ := Option.map_eq_some_iff.mp hend
  simp only [Prod.mk.injEq] at hs
  obtain ⟨hphase, hwaiting, hmode, hqt, hros⟩ := hs
  refine ⟨⟨s, hrun, hphase, hwaiting, hmode, hqt, hros⟩, fun hone ↦ ?_⟩
  refine hone s (TransitionSystem.reachable_of_runFrom (.initial rfl) _ hrun) () ?_ ?_
  · rw [hqt]
    rfl
  · rw [hros]
    rfl

end PackML
