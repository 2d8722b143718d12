import PackML.Execution.EventOrder
import PackML.Execution.KeptCompletions

/-!
# The two cycles

`ContinuousCycle` differs from `SingleCycle` in one transition, the completion of EXECUTE. Two
machines that get the same steps are therefore the same machine until such a completion is taken:
then one goes to COMPLETING, or drops the event in MAINTENANCE, while the other begins EXECUTE
again. From then on their Qt threads or their operations differ (`CyclesApart`), and no
continuation of both makes them equal again (`cyclesApart_step`). `cycles_agree_iff` is the result
for every run.
-/

set_option autoImplicit false
set_option relaxedAutoImplicit false

namespace PackML

/-! ### Statements -/

/-- No completion is taken in EXECUTE. -/
def ExecuteGoesOn (s : Execution) : Action → Prop
  | .select => s.stateValue = .execute →
      s.queue.head?.map PostedEvent.event ≠ some .stateCompleteEvent
  | _ => True

instance (s : Execution) : DecidablePred (ExecuteGoesOn s)
  | .select => inferInstanceAs (Decidable (_ → _ ≠ _))
  | .post _ | .finish _ _ | .leave | .enter | .notified | .changeMode _ | .modeSwitched =>
    inferInstanceAs (Decidable True)

/-- A machine of each cycle after a completion of EXECUTE: the first has dropped it while the second
leaves EXECUTE; both are on their way, to COMPLETING and to EXECUTE; or the operations started by
one are not those started by the other. -/
inductive CyclesApart (s t : Execution) : Prop
  | dropped {event : PostedEvent} {selection : Selection} (hsingle : s.phase = .idle)
      (hcontinuous : t.phase = .leaving event selection) : CyclesApart s t
  | onTheWay (hsingle : s.phase ≠ .idle) (hcontinuous : t.phase ≠ .idle)
      (hcompleting : s.destination = .completing) (hexecute : t.destination = .execute) :
      CyclesApart s t
  | operating {activation other : Activation} (hsingle : s.running = [activation])
      (hcontinuous : t.running = [other]) (hne : activation ≠ other) : CyclesApart s t

section

variable {s t u v : Execution}

/-! ### Until EXECUTE completes -/

/-- The cycles select the same transition for every event but the completion of EXECUTE. -/
theorem selected_cycle (available : AvailableProperty) (state : State) (event : PackmlEvent)
    (hevent : state = .execute → event ≠ .stateCompleteEvent) :
    selected .continuousCycle available state event =
      selected .singleCycle available state event := by
  rw [selected, selected, candidates_eq, candidates_eq, transitions_generated,
    transitions_generated]
  cases state with
  | execute =>
    cases event with
    | stateCompleteEvent => exact absurd rfl (hevent rfl)
    | cmdEvent cmd => cases cmd <;> rfl
    | errorEvent code => rfl
  | _ => rfl

/-- A step that takes no completion in EXECUTE is the same in both cycles. -/
theorem next_continuous_eq (hs : (execution .singleCycle).Reachable s) {action : Action}
    (hgoes : ExecuteGoesOn s action) :
    (execution .continuousCycle).next s action = (execution .singleCycle).next s action := by
  cases action with
  | select =>
    have hlocated := located_stateValue hs
    change s.select .continuousCycle = s.select .singleCycle
    unfold Execution.select
    split
    · rename_i event rest hphase hqueue
      have hconfiguration := hlocated.configuration_eq (by simp [hphase])
      have hselected := selected_cycle s.gen.available s.stateValue event.event
        fun hexecute ↦ by simpa [hqueue] using hgoes hexecute
      rw [hconfiguration, selectTransitions_path, selectTransitions_path, hselected]
    · rfl
  | _ => rfl

/-! ### From then on -/

/-- A completion that both take in EXECUTE sets them apart. -/
theorem cyclesApart_of_completion (hs : (execution .singleCycle).Reachable s)
    (hs' : (execution .continuousCycle).Reachable s) {action : Action}
    (hcompletes : ¬ ExecuteGoesOn s action)
    (hsingle : (execution .singleCycle).next s action = some t)
    (hcontinuous : (execution .continuousCycle).next s action = some v) : CyclesApart t v := by
  cases action with
  | select =>
    simp only [ExecuteGoesOn, not_forall, not_not] at hcompletes
    obtain ⟨hexecute, hhead⟩ := hcompletes
    have hmoded : Moded s := moded_of_acting (moded_of_reachable hs) (by rw [hexecute]; rfl)
    obtain ⟨posted, rest, hphase, hqueue, hcontinues⟩ :=
      select_spec (located_stateValue hs') hcontinuous
    have hcompletion : posted.event = .stateCompleteEvent := by simpa [hqueue] using hhead
    -- EXECUTE is available, so that the continuous cycle begins it again
    rcases hcontinues with ⟨hnone, -⟩ | ⟨source, transition, hselected, rfl⟩
    · rw [hexecute, hcompletion] at hnone
      have hunavailable := (selected_none_iff _ _ _ _).mp hnone .execute rfl
      rw [hmoded.toBool (by decide) (by decide)] at hunavailable
      cases hunavailable
    obtain ⟨posted', rest', -, hqueue', ⟨-, rfl⟩ | ⟨source', transition', hselected', rfl⟩⟩ :=
      select_spec (located_stateValue hs) hsingle
    · exact .dropped hphase rfl
    · obtain ⟨rfl, rfl⟩ := List.cons.inj (hqueue.symm.trans hqueue')
      obtain ⟨target, htransfer⟩ := transfer_of_selected hselected
      obtain ⟨target', htransfer'⟩ := transfer_of_selected hselected'
      have hflat := htransfer.flat
      have hflat' := htransfer'.flat
      rw [hexecute, hcompletion] at hflat hflat'
      obtain rfl : State.execute = target := Option.some.inj hflat
      obtain rfl : State.completing = target' := Option.some.inj hflat'
      exact .onTheWay (by simp) (by simp)
        (by simp [Execution.destination, Phase.pendingTarget, htransfer'.enteredState_eq])
        (by simp [Execution.destination, Phase.pendingTarget, htransfer.enteredState_eq])
  | post | finish | leave | enter | notified | changeMode | modeSwitched =>
    exact absurd trivial hcompletes

/-- What a step that is not taken by an idle Qt thread does to a machine on its way: it stays on its
way, or it has arrived and its operation is the one that has started. -/
theorem arrives {cycle : Cycle} (hs : (execution cycle).Reachable s) {target : State}
    (hphase : s.phase ≠ .idle) (htarget : s.destination = target)
    (hacting : target.acting = true) {action : Action}
    (hnext : (execution cycle).next s action = some t) :
    (action ≠ .notified ∧ t.phase ≠ .idle ∧ t.destination = target) ∨
      (action = .notified ∧ ∃ number, t.running = [⟨target, number⟩]) := by
  have hlocated := located_stateValue hs
  have hdestination : t.destination = target := by
    refine htarget ▸ (destination_step hlocated hnext).resolve_right ?_
    rintro ⟨_, _, _, -, hidle, -⟩
    exact hphase hidle
  cases action with
  | select =>
    obtain ⟨_, _, hidle, -⟩ := select_spec hlocated hnext
    exact absurd hidle hphase
  | leave =>
    obtain ⟨_, _, _, _, _, _, _, rfl⟩ := leave_spec hlocated hnext
    exact Or.inl ⟨by simp, by simp, hdestination⟩
  | enter =>
    obtain ⟨_, _, _, _, _, _, rfl⟩ := enter_spec hlocated hnext
    exact Or.inl ⟨by simp, by simp, hdestination⟩
  | notified =>
    obtain ⟨hnotifying, hnext⟩ := notified_spec hlocated hnext
    have hnone := (singleOperation_of_reachable hs).running_eq_nil_of_phase
      (by simp [hnotifying, Phase.inState])
    obtain rfl : s.stateValue = target := by
      simpa [Execution.destination, hnotifying, Phase.pendingTarget] using htarget
    rcases hnext with ⟨-, rfl⟩ | ⟨hwait, -⟩
    · exact Or.inr ⟨rfl, s.activations, by simp [hnone]⟩
    · cases hacting.symm.trans hwait
  | post | finish | changeMode | modeSwitched =>
    obtain ⟨hsame, -⟩ := phase_step hnext (by simp)
    exact Or.inl ⟨by simp, hsame ▸ hphase, hdestination⟩

/-- Operations that are not the same stay so, because none of them can end in both machines, and no
other is started before. -/
theorem operating_step {cycle : Cycle} (hs : (execution cycle).Reachable s)
    {activation : Activation} (hrunning : s.running = [activation]) {action : Action}
    (hother : ∀ code, action ≠ .finish activation code)
    (hnext : (execution cycle).next s action = some t) : t.running = [activation] := by
  have hlocated := located_stateValue hs
  have hsingle := singleOperation_of_reachable hs
  have hfinish : ∀ ended code, action ≠ .finish ended code := by
    rintro ended code rfl
    obtain ⟨hmem, -⟩ := finish_spec hnext
    obtain rfl : ended = activation := by simpa [hrunning] using hmem
    exact hother code rfl
  refine (((stepFrame hlocated hnext).operations hfinish ?_).1).trans hrunning
  rintro rfl
  obtain ⟨hnotifying, -⟩ := notified_spec hlocated hnext
  have hnone := hsingle.running_eq_nil_of_phase (by simp [hnotifying, Phase.inState])
  cases hrunning.symm.trans hnone

/-- No step of both machines makes them equal again. -/
theorem cyclesApart_step (hs : (execution .singleCycle).Reachable s)
    (ht : (execution .continuousCycle).Reachable t) {action : Action} (hapart : CyclesApart s t)
    (hsingle : (execution .singleCycle).next s action = some u)
    (hcontinuous : (execution .continuousCycle).next t action = some v) : CyclesApart u v := by
  have hlocated := located_stateValue hs
  have hlocated' := located_stateValue ht
  cases hapart with
  | dropped hidle hleaving =>
    cases action with
    | select =>
      obtain ⟨_, _, hidle', -⟩ := select_spec hlocated' hcontinuous
      cases hleaving.symm.trans hidle'
    | leave =>
      obtain ⟨_, _, _, _, hleaving', -⟩ := leave_spec hlocated hsingle
      cases hidle.symm.trans hleaving'
    | enter =>
      obtain ⟨_, _, _, _, hentering, -⟩ := enter_spec hlocated hsingle
      cases hidle.symm.trans hentering
    | notified =>
      obtain ⟨hnotifying, -⟩ := notified_spec hlocated hsingle
      cases hidle.symm.trans hnotifying
    | post | finish | changeMode | modeSwitched =>
      obtain ⟨hsame, -⟩ := phase_step hsingle (by simp)
      obtain ⟨hsame', -⟩ := phase_step hcontinuous (by simp)
      exact .dropped (hsame.trans hidle) (hsame'.trans hleaving)
  | onTheWay hphase hphase' hcompleting hexecute =>
    rcases arrives hs hphase hcompleting rfl hsingle with
      ⟨hnot, hgoes, hkept⟩ | ⟨rfl, number, hrunning⟩
    · rcases arrives ht hphase' hexecute rfl hcontinuous with ⟨-, hgoes', hkept'⟩ | ⟨hnotified, -⟩
      · exact .onTheWay hgoes hgoes' hkept hkept'
      · exact absurd hnotified hnot
    · rcases arrives ht hphase' hexecute rfl hcontinuous with ⟨hnot, -⟩ | ⟨-, number', hrunning'⟩
      · exact absurd rfl hnot
      · exact .operating hrunning hrunning' (by simp)
  | @operating activation other hrunning hrunning' hne =>
    have hother : ∀ code, action ≠ .finish activation code := by
      rintro code rfl
      obtain ⟨hmem, -⟩ := finish_spec hcontinuous
      exact hne (by simpa [hrunning'] using hmem)
    have hother' : ∀ code, action ≠ .finish other code := by
      rintro code rfl
      obtain ⟨hmem, -⟩ := finish_spec hsingle
      exact hne (by simpa [hrunning, eq_comm] using hmem)
    exact .operating (operating_step hs hrunning hother hsingle)
      (operating_step ht hrunning' hother' hcontinuous) hne

theorem not_cyclesApart_self (s : Execution) : ¬ CyclesApart s s := by
  intro hapart
  cases hapart with
  | dropped hidle hleaving => cases hidle.symm.trans hleaving
  | onTheWay _ _ hcompleting hexecute => cases hcompleting.symm.trans hexecute
  | operating hrunning hrunning' hne =>
    exact hne (List.cons.inj (hrunning.symm.trans hrunning')).1

/-! ### The result -/

/-- A run of the single cycle is a run of the continuous cycle with the same end exactly when no
completion is taken in EXECUTE. -/
theorem cycles_agree_iff {actions : List Action}
    (hrun : (execution .singleCycle).runFrom .activated actions = some s) :
    (execution .continuousCycle).runFrom .activated actions = some s ↔
      (execution .singleCycle).AllowedAlong ExecuteGoesOn actions .activated :=
  TransitionSystem.runFrom_iff_allowedAlong
    (fun _ _ hs hgoes ↦ next_continuous_eq hs hgoes)
    (fun _ _ _ _ hs hs' hcompletes ↦ cyclesApart_of_completion hs hs' hcompletes)
    (fun _ _ _ _ _ hs ht hapart ↦ cyclesApart_step hs ht hapart) not_cyclesApart_self
    (.initial rfl) (.initial rfl) actions hrun

end

/-! ### A run -/

/-- In MAINTENANCE the single cycle drops the completion of EXECUTE, unlike the continuous one. -/
theorem cycles_agree_iff_maintenanceExecuteRun :
    ∃ s, (execution .singleCycle).runFrom .activated maintenanceExecuteRun = some s ∧
      (execution .continuousCycle).runFrom .activated maintenanceExecuteRun ≠ some s := by
  have hend : ((execution .singleCycle).runFrom .activated maintenanceExecuteRun).isSome := rfl
  obtain ⟨s, hrun⟩ := Option.isSome_iff_exists.mp hend
  exact ⟨s, hrun, (cycles_agree_iff hrun).not.mpr (by decide +kernel)⟩

end PackML
