import PackML.Execution.CommandCalls

/-!
# Whose turn it is to use the promise

When calls assign the promise only while all other threads are settled, at most one thread is in
the part of a call that depends on the shared promise. `CallInvariant` names this thread and says
where its event and its verdict are: the event is the only command in the queue and the promise is
pending, or the event was processed and the promise holds its verdict. All other threads are
settled, and what they wait for was decided for their own event. `callInvariant_step` has one case
for each statement of a call, and `verdicts_matched` is the consequence for every guarded run.
-/

set_option autoImplicit false
set_option relaxedAutoImplicit false

namespace PackML

section Invariant

variable {Thread : Type} {cycle : Cycle} {s t : CommandCalls Thread}

namespace CommandCalls

variable (s : CommandCalls Thread)

/-- The event of a call is the only command in the queue, and the promise is pending. -/
structure Unprocessed (cmd : TransitionCmd) (number : ℕ) : Prop where
  queued : s.machine.queuedCommands = [(cmd, .command number)]
  numbered : number < s.machine.commands
  unrecorded : s.processed (.command number) = none
  pending : (s.prom.shared s.prom.current).outcome = .pending

/-- The event of a call was processed, and the promise holds its verdict. -/
structure Decided (cmd : TransitionCmd) (number : ℕ) : Prop where
  queued : s.machine.queuedCommands = []
  value : ∃ verdict, s.Verdict cmd number verdict ∧
    (s.prom.shared s.prom.current).outcome = .value verdict

/-- What a thread that is settled has: nothing, the verdict of its event, or a future that holds
it. -/
def Settled (thread : Thread) : Prop :=
  match s.threads thread with
  | .idle => True
  | .returned cmd number verdict => s.Verdict cmd number verdict
  | .waiting cmd number future => future ≤ s.prom.current ∧
      ∃ verdict, s.Verdict cmd number verdict ∧ (s.prom.shared future).outcome = .value verdict
  | _ => False

/-- Where the event and the verdict of the thread that uses the promise are. -/
def Turn : Option Thread → Prop
  | none => s.machine.queuedCommands = []
  | some thread =>
    match s.threads thread with
    | .assigned _ => s.machine.queuedCommands = [] ∧
        s.prom.shared s.prom.current = ⟨.pending, false⟩
    | .posted cmd number => (s.prom.shared s.prom.current).retrieved = false ∧
        (s.Unprocessed cmd number ∨ s.Decided cmd number)
    | .waiting cmd number future => future = s.prom.current ∧ s.Unprocessed cmd number
    | _ => False

end CommandCalls

/-- At most one thread uses the promise; the others are settled. -/
structure CallInvariant (s : CommandCalls Thread) (active : Option Thread) : Prop where
  notTerminated : s.terminated = none
  numbered : ∀ number, s.machine.commands ≤ number → s.processed (.command number) = none
  settled : ∀ thread, active ≠ some thread → s.Settled thread
  turn : s.Turn active

/-- A thread stays settled when the step does not move it, keeps what was decided of the promises
and keeps the records. -/
theorem CommandCalls.Settled.frame {thread : Thread} (hs : s.Settled thread)
    (hthread : t.threads thread = s.threads thread) (hcurrent : s.prom.current ≤ t.prom.current)
    (hprom : ∀ id ≤ s.prom.current, (s.prom.shared id).outcome ≠ .pending →
      (t.prom.shared id).outcome = (s.prom.shared id).outcome)
    (hprocessed : ∀ origin record, s.processed origin = some record →
      t.processed origin = some record) : t.Settled thread := by
  have hverdict : ∀ {cmd number verdict}, s.Verdict cmd number verdict →
      t.Verdict cmd number verdict := by
    rintro cmd number verdict ⟨record, hrecord, hcmd, haccepted⟩
    exact ⟨record, hprocessed _ _ hrecord, hcmd, haccepted⟩
  unfold CommandCalls.Settled at hs ⊢
  rw [hthread]
  cases hphase : s.threads thread with
  | idle => trivial
  | returned cmd number verdict =>
    rw [hphase] at hs
    exact hverdict hs
  | waiting cmd number future =>
    rw [hphase] at hs
    obtain ⟨hfuture, verdict, hv, houtcome⟩ := hs
    refine ⟨Nat.le_trans hfuture hcurrent, verdict, hverdict hv, ?_⟩
    rw [hprom future hfuture (by simp [houtcome]), houtcome]
  | assigned cmd => simp [hphase] at hs
  | posted cmd number => simp [hphase] at hs
  | failed cmd error => simp [hphase] at hs

/-- The turn of a thread stays when the step does not move it and leaves the promise, the records
and the commands in the queue. -/
theorem CommandCalls.Turn.frame {active : Option Thread} (hs : s.Turn active)
    (hthread : ∀ thread, active = some thread → t.threads thread = s.threads thread)
    (hprom : t.prom = s.prom) (hprocessed : t.processed = s.processed)
    (hqueued : t.machine.queuedCommands = s.machine.queuedCommands)
    (hcommands : t.machine.commands = s.machine.commands) : t.Turn active := by
  have hunprocessed : ∀ {cmd number}, s.Unprocessed cmd number → t.Unprocessed cmd number := by
    intro cmd number h
    exact ⟨hqueued.trans h.queued, hcommands ▸ h.numbered, hprocessed ▸ h.unrecorded,
      hprom ▸ h.pending⟩
  have hdecided : ∀ {cmd number}, s.Decided cmd number → t.Decided cmd number := by
    rintro cmd number ⟨hqueue, verdict, hverdict, hvalue⟩
    refine ⟨hqueued.trans hqueue, verdict, ?_, hprom ▸ hvalue⟩
    unfold CommandCalls.Verdict
    rw [hprocessed]
    exact hverdict
  cases active with
  | none => exact hqueued.trans hs
  | some thread =>
    unfold CommandCalls.Turn at hs ⊢
    simp only [hthread thread rfl, hqueued, hprom] at hs ⊢
    cases hphase : s.threads thread with
    | posted cmd number =>
      rw [hphase] at hs
      exact ⟨hs.1, hs.2.imp hunprocessed hdecided⟩
    | waiting cmd number future =>
      rw [hphase] at hs
      exact ⟨hs.1, hunprocessed hs.2⟩
    | _ => rwa [hphase] at hs

/-- A thread that is not settled is the one that uses the promise. -/
theorem CallInvariant.active_eq {active : Option Thread} (hs : CallInvariant s active)
    (thread : Thread) (hthread : ¬ s.Settled thread) : active = some thread := by
  by_contra hne
  exact hthread (hs.settled thread hne)

/-- The thread that uses the promise is not settled in the sense that allows an assignment. -/
theorem CallInvariant.not_isSettled {thread : Thread} (hs : CallInvariant s (some thread)) :
    s.isSettled thread = false := by
  have hturn := hs.turn
  unfold CommandCalls.Turn at hturn
  unfold CommandCalls.isSettled
  cases hphase : s.threads thread with
  | assigned cmd => rfl
  | posted cmd number => rfl
  | waiting cmd number future =>
    simp only [hphase] at hturn
    obtain ⟨rfl, hunprocessed⟩ := hturn
    simp [PromiseVariable.get_eq_none_iff.mpr hunprocessed.pending]
  | idle => simp [hphase] at hturn
  | returned cmd number verdict => simp [hphase] at hturn
  | failed cmd error => simp [hphase] at hturn

/-- A step of the machine that leaves the commands in the queue leaves the calls. -/
theorem CallInvariant.machineStep {active : Option Thread} (hs : CallInvariant s active)
    {machine : Execution} (hqueued : machine.queuedCommands = s.machine.queuedCommands)
    (hcommands : machine.commands = s.machine.commands) :
    CallInvariant { s with machine := machine } active where
  notTerminated := hs.notTerminated
  numbered number hnumber := hs.numbered number (hcommands ▸ hnumber)
  settled thread hthread :=
    (hs.settled thread hthread).frame rfl (Nat.le_refl _) (fun _ _ _ ↦ rfl)
      fun _ _ hrecord ↦ hrecord
  turn := hs.turn.frame (fun _ _ ↦ rfl) rfl rfl hqueued hcommands

/-- What `endSelectTransitions` does for a command, when the promise of its call is pending. -/
theorem endSelectTransitions_of_unprocessed {cmd : TransitionCmd} {number : ℕ}
    {rest : List PostedEvent} (hs : s.Unprocessed cmd number)
    (hqueue : s.machine.queue = ⟨.cmdEvent cmd, .command number⟩ :: rest) :
    s.endSelectTransitions cycle =
      { s with
        prom := { s.prom with
          shared := Function.update s.prom.shared s.prom.current
            { s.prom.shared s.prom.current with
              outcome := .value (s.machine.processCommand cycle cmd).accepted } }
        processed := Function.update s.processed (.command number)
          (some (s.machine.processCommand cycle cmd)) } := by
  simp only [CommandCalls.endSelectTransitions, hqueue,
    PromiseVariable.setValue_of_pending hs.pending]

/-- An event that is no command leaves the promise. -/
theorem endSelectTransitions_of_not_command {event : PostedEvent} {rest : List PostedEvent}
    (hcommand : ∀ cmd, event.event ≠ .cmdEvent cmd) (hqueue : s.machine.queue = event :: rest) :
    s.endSelectTransitions cycle = s := by
  unfold CommandCalls.endSelectTransitions
  rw [hqueue]
  split
  · rename_i cmd origin tail heq
    exact absurd (congrArg PostedEvent.event (List.cons.inj heq).1) (hcommand cmd)
  · rfl

/-- At most one command is in the queue. -/
theorem CommandCalls.Unprocessed.unique {cmd cmd' : TransitionCmd} {number number' : ℕ}
    (hs : s.Unprocessed cmd number) (hs' : s.Unprocessed cmd' number') :
    cmd' = cmd ∧ number' = number := by
  have hsame := hs'.queued.symm.trans hs.queued
  simpa using hsame

/-- The thread whose event is in the queue is about to take its future or waits for it. -/
theorem CallInvariant.posted_or_waiting {thread : Thread} {cmd : TransitionCmd} {number : ℕ}
    (hs : CallInvariant s (some thread)) (hunprocessed : s.Unprocessed cmd number) :
    (s.threads thread = .posted cmd number ∧
        (s.prom.shared s.prom.current).retrieved = false) ∨
      s.threads thread = .waiting cmd number s.prom.current := by
  have hturn := hs.turn
  unfold CommandCalls.Turn at hturn
  cases hphase : s.threads thread with
  | posted cmd' number' =>
    simp only [hphase] at hturn
    obtain ⟨hretrieved, hunprocessed' | hdecided⟩ := hturn
    · obtain ⟨rfl, rfl⟩ := hunprocessed.unique hunprocessed'
      exact Or.inl ⟨rfl, hretrieved⟩
    · cases hdecided.queued.symm.trans hunprocessed.queued
  | waiting cmd' number' future =>
    simp only [hphase] at hturn
    obtain ⟨rfl, hunprocessed'⟩ := hturn
    obtain ⟨rfl, rfl⟩ := hunprocessed.unique hunprocessed'
    exact Or.inr rfl
  | assigned cmd' => simp [hphase, hunprocessed.queued] at hturn
  | idle => simp [hphase] at hturn
  | returned cmd' number' verdict => simp [hphase] at hturn
  | failed cmd' error => simp [hphase] at hturn

section Decided

variable {thread : Thread} {machine : Execution} {cmd : TransitionCmd} {number : ℕ}
  {record : ProcessedCommand}

/-- The verdict that the promise receives leaves the threads that are settled. -/
theorem CommandCalls.Settled.decided (hs : s.Settled thread)
    (hunprocessed : s.Unprocessed cmd number)
    (ht : t = { s with
      machine := machine
      prom := { s.prom with shared := Function.update s.prom.shared s.prom.current
                              { s.prom.shared s.prom.current with
                                outcome := .value record.accepted } }
      processed := Function.update s.processed (.command number) (some record) }) :
    t.Settled thread := by
  have hset := PromiseVariable.setValue_of_pending hunprocessed.pending record.accepted
  refine hs.frame (by simp [ht]) (by simp [ht]) (fun id _ houtcome ↦ ?_)
    (fun origin old hold ↦ ?_)
  · subst ht
    exact PromiseVariable.setValue_outcome_of_ne_pending hset houtcome
  · have hne : origin ≠ .command number := by
      rintro rfl
      simp [hunprocessed.unrecorded] at hold
    simpa [ht, hne] using hold

/-- The thread whose event is processed is settled if it has taken its future, and otherwise keeps
its turn. -/
theorem CallInvariant.decided (hs : CallInvariant s (some thread))
    (hunprocessed : s.Unprocessed cmd number) (hcmd : record.cmd = cmd)
    (hqueued : machine.queuedCommands = []) (hcommands : machine.commands = s.machine.commands)
    (ht : t = { s with
      machine := machine
      prom := { s.prom with shared := Function.update s.prom.shared s.prom.current
                              { s.prom.shared s.prom.current with
                                outcome := .value record.accepted } }
      processed := Function.update s.processed (.command number) (some record) }) :
    ∃ active', CallInvariant t active' := by
  have hverdict : t.Verdict cmd number record.accepted :=
    ⟨record, by simp [ht], hcmd, rfl⟩
  have hvalue : (t.prom.shared t.prom.current).outcome = .value record.accepted := by
    simp [ht]
  have hnumbered : ∀ later, t.machine.commands ≤ later → t.processed (.command later) = none := by
    intro later hlater
    subst ht
    have hlater : s.machine.commands ≤ later := hcommands ▸ hlater
    have hne : later ≠ number := by
      have := hunprocessed.numbered
      omega
    simpa [hne] using hs.numbered later hlater
  have hothers : ∀ other, other ≠ thread → t.Settled other := fun other hother ↦
    (hs.settled other fun heq ↦ hother (Option.some.inj heq).symm).decided hunprocessed ht
  have hnotTerminated : t.terminated = none := by
    simpa [ht] using hs.notTerminated
  rcases hs.posted_or_waiting hunprocessed with ⟨hphase, hretrieved⟩ | hphase
  · refine ⟨some thread, hnotTerminated, hnumbered,
      fun other hother ↦ hothers other fun heq ↦ hother (heq ▸ rfl), ?_⟩
    have hthread : t.threads thread = .posted cmd number := by simp [ht, hphase]
    simp only [CommandCalls.Turn, hthread]
    exact ⟨by simpa [ht] using hretrieved, Or.inr ⟨by simp [ht, hqueued], _, hverdict, hvalue⟩⟩
  · refine ⟨none, hnotTerminated, hnumbered, fun other _ ↦ ?_,
      by simp [CommandCalls.Turn, ht, hqueued]⟩
    by_cases heq : other = thread
    · subst heq
      have hthread : t.threads other = .waiting cmd number s.prom.current := by simp [ht, hphase]
      simp only [CommandCalls.Settled, hthread]
      exact ⟨by simp [ht], _, hverdict, by simp [ht]⟩
    · exact hothers other heq

end Decided

/-- A command in the queue is that of the thread that uses the promise. -/
theorem CallInvariant.unprocessed {active : Option Thread} (hs : CallInvariant s active)
    {cmd : TransitionCmd} {origin : Origin} {rest : List (TransitionCmd × Origin)}
    (hqueued : s.machine.queuedCommands = (cmd, origin) :: rest) :
    ∃ thread number, active = some thread ∧ origin = .command number ∧ rest = [] ∧
      s.Unprocessed cmd number := by
  have hturn := hs.turn
  cases active with
  | none => simp [CommandCalls.Turn, hqueued] at hturn
  | some thread =>
    have hfound : ∃ cmd' number, s.Unprocessed cmd' number := by
      unfold CommandCalls.Turn at hturn
      cases hphase : s.threads thread with
      | posted cmd' number =>
        simp only [hphase] at hturn
        rcases hturn.2 with hunprocessed | hdecided
        · exact ⟨cmd', number, hunprocessed⟩
        · have := hdecided.queued
          simp [hqueued] at this
      | waiting cmd' number future =>
        simp only [hphase] at hturn
        exact ⟨cmd', number, hturn.2⟩
      | assigned cmd' => simp [hphase, hqueued] at hturn
      | idle => simp [hphase] at hturn
      | returned cmd' number verdict => simp [hphase] at hturn
      | failed cmd' error => simp [hphase] at hturn
    obtain ⟨cmd', number, hunprocessed⟩ := hfound
    have hsame := hqueued.symm.trans hunprocessed.queued
    simp only [List.cons.injEq, Prod.mk.injEq] at hsame
    obtain ⟨⟨rfl, rfl⟩, rfl⟩ := hsame
    exact ⟨thread, number, rfl, rfl, rfl, hunprocessed⟩

/-- The verdict of a command event goes to the promise of the call that posted it. -/
theorem callInvariant_select {active : Option Thread} (hs : CallInvariant s active)
    {machine : Execution} (hnext : s.machine.select cycle = some machine) :
    ∃ active', CallInvariant { s.endSelectTransitions cycle with machine := machine } active' := by
  obtain ⟨⟨event, origin⟩, rest, hphase, hqueue, hrest, hcommands⟩ := select_queue hnext
  cases event with
  | cmdEvent cmd =>
    have hqueued : s.machine.queuedCommands = (cmd, origin) :: machine.queuedCommands := by
      simp [Execution.queuedCommands, hqueue, hrest]
    obtain ⟨thread, number, rfl, rfl, hempty, hunprocessed⟩ := hs.unprocessed hqueued
    rw [endSelectTransitions_of_unprocessed hunprocessed hqueue]
    exact hs.decided hunprocessed rfl hempty hcommands rfl
  | stateCompleteEvent =>
    rw [endSelectTransitions_of_not_command (by simp) hqueue]
    exact ⟨active, hs.machineStep (by simp [Execution.queuedCommands, hqueue, hrest]) hcommands⟩
  | errorEvent code =>
    rw [endSelectTransitions_of_not_command (by simp) hqueue]
    exact ⟨active, hs.machineStep (by simp [Execution.queuedCommands, hqueue, hrest]) hcommands⟩

/-- A call that has returned gave the verdict of its event. -/
theorem CallInvariant.verdict_of_returned {active : Option Thread} (hs : CallInvariant s active)
    {thread : Thread} {cmd : TransitionCmd} {number : ℕ} {verdict : Bool}
    (hphase : s.threads thread = .returned cmd number verdict) : s.Verdict cmd number verdict := by
  have hsettled : s.Settled thread := hs.settled thread <| by
    rintro rfl
    have hturn := hs.turn
    simp [CommandCalls.Turn, hphase] at hturn
  simpa [CommandCalls.Settled, hphase] using hsettled

/-- No call fails. -/
theorem CallInvariant.not_failed {active : Option Thread} (hs : CallInvariant s active)
    (thread : Thread) (cmd : TransitionCmd) (error : FutureError) :
    s.threads thread ≠ .failed cmd error := by
  intro hphase
  have hsettled : s.Settled thread := hs.settled thread <| by
    rintro rfl
    have hturn := hs.turn
    simp [CommandCalls.Turn, hphase] at hturn
  simp [CommandCalls.Settled, hphase] at hsettled

/-- A call that waits for an undecided promise has its event in the queue and its promise in the
machine. -/
theorem CallInvariant.unprocessed_of_pending {active : Option Thread} (hs : CallInvariant s active)
    {thread : Thread} {cmd : TransitionCmd} {number future : ℕ}
    (hphase : s.threads thread = .waiting cmd number future)
    (hpending : s.prom.get future = none) :
    future = s.prom.current ∧ s.Unprocessed cmd number := by
  have hpending := PromiseVariable.get_eq_none_iff.mp hpending
  by_cases hactive : active = some thread
  · subst hactive
    have hturn := hs.turn
    simp only [CommandCalls.Turn, hphase] at hturn
    exact hturn
  · have hsettled := hs.settled thread hactive
    simp only [CommandCalls.Settled, hphase] at hsettled
    obtain ⟨-, verdict, -, hvalue⟩ := hsettled
    cases hvalue.symm.trans hpending

/-- The event of a call is in the queue until it has been processed. -/
theorem CommandCalls.Unprocessed.mem_queue {cmd : TransitionCmd} {number : ℕ}
    (hs : s.Unprocessed cmd number) : ⟨.cmdEvent cmd, .command number⟩ ∈ s.machine.queue := by
  refine mem_queue_of_mem_queuedCommands ?_
  rw [hs.queued]
  exact List.mem_singleton_self _

variable [DecidableEq Thread]

/-- The first statement of a call, when the other threads are settled. -/
theorem callInvariant_assign {active : Option Thread} (hs : CallInvariant s active)
    {thread : Thread} {cmd : TransitionCmd}
    (hallowed : ∀ other, other ≠ thread → s.isSettled other = true)
    (hnext : s.assign thread cmd = some t) : CallInvariant t (some thread) := by
  obtain ⟨hrest, rfl⟩ := assign_spec hnext
  have hnone : active = none := by
    cases active with
    | none => rfl
    | some user =>
      have huser := hs.not_isSettled
      by_cases heq : user = thread
      · subst heq
        unfold CommandCalls.isSettled at huser
        cases hphase : s.threads user <;> simp_all [CallPhase.atRest]
      · rw [hallowed user heq] at huser
        cases huser
  subst hnone
  refine ⟨hs.notTerminated, hs.numbered, fun other hother ↦ ?_, ?_⟩
  · have hne : other ≠ thread := fun heq ↦ hother (heq ▸ rfl)
    refine (hs.settled other (by simp)).frame (by simp [hne]) (Nat.le_succ _) ?_
      (fun _ _ hrecord ↦ hrecord)
    intro id hid houtcome
    exact PromiseVariable.replace_outcome_of_ne_pending hid houtcome
  · have hturn : s.machine.queuedCommands = [] := hs.turn
    simp [CommandCalls.Turn, hturn]

/-- The event is posted while no other command is in the queue. -/
theorem callInvariant_post {active : Option Thread} (hs : CallInvariant s active)
    {thread : Thread} (hnext : s.post thread = some t) : CallInvariant t (some thread) := by
  obtain ⟨cmd, hphase, rfl⟩ := post_spec hnext
  obtain rfl := hs.active_eq thread (by simp [CommandCalls.Settled, hphase])
  have hturn := hs.turn
  simp only [CommandCalls.Turn, hphase] at hturn
  obtain ⟨hqueue, hfresh⟩ := hturn
  refine ⟨hs.notTerminated, fun number hnumber ↦ ?_, fun other hother ↦ ?_, ?_⟩
  · exact hs.numbered number (Nat.le_of_succ_le hnumber)
  · have hne : other ≠ thread := fun heq ↦ hother (heq ▸ rfl)
    exact (hs.settled other hother).frame (by simp [hne]) (Nat.le_refl _) (fun _ _ _ ↦ rfl)
      (fun _ _ hrecord ↦ hrecord)
  · simp only [CommandCalls.Turn, Function.update_self]
    refine ⟨by simp [hfresh], Or.inl ⟨?_, Nat.lt_succ_self _, hs.numbered _ (Nat.le_refl _), ?_⟩⟩
    · rw [queuedCommands_post, hqueue]
      rfl
    · simp [hfresh]

/-- The future is taken from the promise that holds, or will hold, the verdict of the event. -/
theorem callInvariant_takeFuture {active : Option Thread} (hs : CallInvariant s active)
    {thread : Thread} (hnext : s.takeFuture thread = some t) :
    ∃ active', CallInvariant t active' := by
  obtain ⟨cmd, number, hphase, hnext⟩ := takeFuture_spec hnext
  obtain rfl := hs.active_eq thread (by simp [CommandCalls.Settled, hphase])
  have hturn := hs.turn
  simp only [CommandCalls.Turn, hphase] at hturn
  obtain ⟨hretrieved, hturn⟩ := hturn
  have htake := PromiseVariable.getFuture_of_not_retrieved hretrieved
  rcases hnext with ⟨future, prom, hfuture, rfl⟩ | ⟨error, herror, -⟩
  · obtain ⟨rfl, hcurrent, houtcome⟩ := PromiseVariable.getFuture_outcome hfuture
    have hothers : ∀ other, other ≠ thread → CommandCalls.Settled
        { s with
          prom := prom
          threads := Function.update s.threads thread
            (.waiting cmd number s.prom.current) } other := by
      intro other hother
      refine (hs.settled other fun heq ↦ hother (Option.some.inj heq).symm).frame (by simp [hother])
        (Nat.le_of_eq hcurrent.symm) (fun id _ _ ↦ houtcome id) (fun _ _ hrecord ↦ hrecord)
    rcases hturn with hunprocessed | hdecided
    · refine ⟨some thread, hs.notTerminated, hs.numbered, fun other hother ↦ ?_, ?_⟩
      · exact hothers other fun heq ↦ hother (heq ▸ rfl)
      · simp only [CommandCalls.Turn, Function.update_self]
        exact ⟨hcurrent.symm, hunprocessed.queued, hunprocessed.numbered, hunprocessed.unrecorded,
          (houtcome _).trans (hcurrent ▸ hunprocessed.pending)⟩
    · refine ⟨none, hs.notTerminated, hs.numbered, fun other _ ↦ ?_, hdecided.queued⟩
      by_cases heq : other = thread
      · subst heq
        obtain ⟨verdict, hverdict, hvalue⟩ := hdecided.value
        simp only [CommandCalls.Settled, Function.update_self]
        exact ⟨Nat.le_of_eq hcurrent.symm, verdict, hverdict, (houtcome _).trans hvalue⟩
      · exact hothers other heq
  · cases herror.symm.trans htake

/-- A future that is ready holds the verdict of the event of its call. -/
theorem callInvariant_wait {active : Option Thread} (hs : CallInvariant s active)
    {thread : Thread} (hnext : s.wait thread = some t) : CallInvariant t active := by
  obtain ⟨cmd, number, future, hphase, hnext⟩ := wait_spec hnext
  have hready : s.prom.get future ≠ none := by
    rcases hnext with ⟨verdict, hget, -⟩ | ⟨error, hget, -⟩ <;> simp [hget]
  have hactive : active ≠ some thread := by
    rintro rfl
    have hturn := hs.turn
    simp only [CommandCalls.Turn, hphase] at hturn
    obtain ⟨rfl, hunprocessed⟩ := hturn
    exact hready (PromiseVariable.get_eq_none_iff.mpr hunprocessed.pending)
  have hsettled := hs.settled thread hactive
  simp only [CommandCalls.Settled, hphase] at hsettled
  obtain ⟨-, verdict, hverdict, hvalue⟩ := hsettled
  have hget := PromiseVariable.get_of_value hvalue
  rcases hnext with ⟨verdict', hverdict', rfl⟩ | ⟨error, herror, -⟩
  · obtain rfl : verdict = verdict' := by simpa using hget.symm.trans hverdict'
    refine ⟨hs.notTerminated, hs.numbered, fun other hother ↦ ?_, ?_⟩
    · by_cases heq : other = thread
      · subst heq
        simp only [CommandCalls.Settled, Function.update_self]
        exact hverdict
      · exact (hs.settled other hother).frame (by simp [heq]) (Nat.le_refl _) (fun _ _ _ ↦ rfl)
          (fun _ _ hrecord ↦ hrecord)
    · refine hs.turn.frame (fun user huser ↦ ?_) rfl rfl rfl rfl
      have hne : user ≠ thread := fun heq ↦ hactive (heq ▸ huser)
      simp [hne]
  · cases herror.symm.trans hget

theorem callInvariant_step {active : Option Thread} (hs : CallInvariant s active)
    {action : CallAction Thread} (hallowed : SettledBeforeAssign s action)
    (hnext : (commandCalls cycle Thread).next s action = some t) :
    ∃ active', CallInvariant t active' := by
  simp only [commandCalls, hs.notTerminated, Option.isSome_none, Bool.false_eq_true,
    if_false] at hnext
  cases action with
  | assign thread cmd => exact ⟨_, callInvariant_assign hs hallowed hnext⟩
  | post thread => exact ⟨_, callInvariant_post hs hnext⟩
  | takeFuture thread => exact callInvariant_takeFuture hs hnext
  | wait thread => exact ⟨_, callInvariant_wait hs hnext⟩
  | machine action =>
    obtain ⟨machine, hmachine, ⟨rfl, rfl⟩ | ⟨hselect, hpost, rfl⟩⟩ := machineStep_spec hnext
    · exact callInvariant_select hs hmachine
    · obtain ⟨hqueued, hcommands⟩ := queuedCommands_step hpost hselect hmachine
      exact ⟨active, hs.machineStep hqueued hcommands⟩

theorem callInvariant_of_reachableBy
    (hrun : (commandCalls cycle Thread).ReachableBy SettledBeforeAssign s) :
    ∃ active, CallInvariant s active := by
  refine hrun.invariant ?_ ?_
  · rintro s rfl
    exact ⟨none, rfl, fun _ _ ↦ rfl, fun _ _ ↦ trivial, rfl⟩
  · rintro s action t ⟨active, hs⟩ hallowed hnext
    exact callInvariant_step hs hallowed hnext

/-- Every call gets the verdict of its own event along the runs in which a call assigns the promise
only when every other call in progress has taken its future and has its verdict. -/
theorem verdicts_matched (hrun : (commandCalls cycle Thread).ReachableBy SettledBeforeAssign s) :
    VerdictsMatched s := by
  obtain ⟨active, hs⟩ := callInvariant_of_reachableBy hrun
  refine ⟨fun thread cmd number verdict hphase ↦ hs.verdict_of_returned hphase, hs.not_failed,
    hs.notTerminated, fun thread cmd number future hphase hpending ↦ ?_⟩
  obtain ⟨rfl, hunprocessed⟩ := hs.unprocessed_of_pending hphase hpending
  exact ⟨hunprocessed.mem_queue, rfl⟩

end Invariant

/-- The first thread calls CLEAR and waits for its verdict; the second calls START after it. -/
def orderedCalls : List (CallAction Bool) :=
  [.machine (.changeMode .manual), .machine .modeSwitched, .machine .notified,
    .assign true .clear, .post true, .takeFuture true, .machine .select, .assign false .start,
    .wait true, .post false, .takeFuture false]

theorem verdicts_matched_orderedCalls :
    ∃ s, (commandCalls .singleCycle Bool).runFrom .activated
        orderedCalls = some s ∧ s.threads true = .returned .clear 0 true ∧
      VerdictsMatched s := by
  have hend : ((commandCalls .singleCycle Bool).runFrom .activated
      orderedCalls).map (fun s ↦ s.threads true) =
        some (.returned .clear 0 true) := rfl
  obtain ⟨s, hrun, hreturned⟩ := Option.map_eq_some_iff.mp hend
  have hallowed : (commandCalls .singleCycle Bool).AllowedAlong SettledBeforeAssign orderedCalls
      .activated := by
    refine ⟨trivial, trivial, trivial, ?_, trivial, trivial, trivial, ?_, trivial, trivial, trivial,
      trivial⟩
    · rintro (_ | _) hother <;> rfl
    · rintro (_ | _) hother <;> rfl
  exact ⟨s, hrun, hreturned, verdicts_matched <|
    TransitionSystem.reachableBy_of_runFrom (.initial rfl) orderedCalls hallowed hrun⟩

/-- The second thread calls START between the first two statements of a call of CLEAR. -/
def interleavedCalls : List (CallAction Bool) :=
  [.machine (.changeMode .manual), .machine .modeSwitched, .machine .notified,
    .assign true .clear, .assign false .start, .post false, .machine .select, .post true,
    .takeFuture true, .wait true, .takeFuture false, .machine .select]

/-- The call of CLEAR returns the verdict of START before its own event is processed, the call of
START fails because its future was taken, and the verdict of CLEAR satisfies a promise twice. -/
theorem shared_promise_mixes_verdicts :
    ∃ s, (commandCalls .singleCycle Bool).runFrom .activated
        interleavedCalls = some s ∧
      s.threads true = .returned .clear 1 false ∧ (s.processed (.command 1)).isNone ∧
      s.threads false = .failed .start .futureAlreadyRetrieved ∧
      s.terminated = some .promiseAlreadySatisfied ∧ ¬ VerdictsMatched s := by
  have hend : ((commandCalls .singleCycle Bool).runFrom .activated
      interleavedCalls).map (fun s ↦ (s.threads true,
        (s.processed (.command 1)).isNone, s.threads false, s.terminated)) =
      some (.returned .clear 1 false, true, .failed .start .futureAlreadyRetrieved,
        some .promiseAlreadySatisfied) := rfl
  obtain ⟨s, hrun, hs⟩ := Option.map_eq_some_iff.mp hend
  simp only [Prod.mk.injEq] at hs
  obtain ⟨hreturned, hrecord, hfailed, hterminated⟩ := hs
  refine ⟨s, hrun, hreturned, hrecord, hfailed, hterminated, fun hmatched ↦ ?_⟩
  exact hmatched.notFailed _ _ _ hfailed

end PackML
