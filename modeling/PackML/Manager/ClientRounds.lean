import PackML.Library.TransitionSystem
import Mathlib.Data.List.Nodup
import Mathlib.Logic.Function.Basic

/-!
# Rounds of requests to all clients

`callAllClients` sends a request to every client whose service is available, and `waitAllFutures`
waits for the answers: it spins the executor of every client once, takes the answers that have
arrived, and repeats this until none is missing or the last one taken was a refusal. It gives up
at once when no request or not every request was sent, and then the answers to the requests that
were sent are delivered in a later round.

Every client answers what it was sent, so `spin_once` returns exactly when a response of the client
is still undelivered; `undelivered` holds these responses, oldest first, with the answer that each
will have. `NeverHangs` says that no client is spun without one. A round hangs after a round that
gave up has left the clients with different backlogs (`round_hangs_on_uneven_backlog`). Along the
runs in which every round `RoundFinishes`, no round hangs (`rounds_never_hang`); `InSweep` is the
invariant of a round.
-/

set_option autoImplicit false
set_option relaxedAutoImplicit false

namespace PackML

/-! ### Rounds -/

/-- A response of a client to the request of a round. -/
structure Response where
  round : ℕ
  success : Bool
  deriving DecidableEq, Repr

/-- A future of the current round, with the answer once it was delivered. -/
structure ResponseFuture (Client : Type) where
  client : Client
  answer : Option Bool
  deriving DecidableEq, Repr

/-- What a manager is doing: it waits for nothing, with the value that the last `wait_all_futures`
has returned, or it is in a sweep, with the clients still to be spun and the futures still valid. -/
inductive RoundPhase (Client : Type)
  | idle (returned : Bool)
  | sweeping (remaining : List Client) (futures : List (ResponseFuture Client))
  deriving DecidableEq, Repr

/-- A manager: the responses not delivered yet, and the number of rounds so far. -/
structure ManagerRounds (Client : Type) where
  undelivered : Client → List Response
  phase : RoundPhase Client
  round : ℕ

/-- A round begins, with the clients whose service is available and the answers that they will
give; a client is spun; the futures are checked at the end of a sweep. -/
inductive RoundAction (Client : Type)
  | callAllClients (available answers : Client → Bool)
  | spinOnce
  | checkFutures

section Rounds

variable {Client : Type} [DecidableEq Client] (clientMap : List Client)

/-- `call_all_clients`: the responses that are then undelivered, and the futures. -/
def callAllClients (available answers : Client → Bool) (s : ManagerRounds Client) :
    (Client → List Response) × List (ResponseFuture Client) :=
  let sent := clientMap.filter available
  (fun client ↦
      if client ∈ sent then s.undelivered client ++ [⟨s.round + 1, answers client⟩]
      else s.undelivered client,
    sent.map fun client ↦ ⟨client, none⟩)

/-- The two checks with which `wait_all_futures` begins. -/
def waitAllFutures (futures : List (ResponseFuture Client)) : RoundPhase Client :=
  if futures.length ≤ 0 then .idle false
  else if futures.length ≠ clientMap.length then .idle false
  else .sweeping clientMap futures

/-- A response reaches the future of its request, when that is still held. -/
def deliver (round : ℕ) (client : Client) (response : Response)
    (futures : List (ResponseFuture Client)) : List (ResponseFuture Client) :=
  futures.map fun future ↦
    if future.client = client ∧ response.round = round then
      { future with answer := some response.success }
    else future

/-- The loop over the futures at the end of a sweep: `success` is overwritten by every answer that
is taken, and the futures without an answer remain. -/
def checkFutures : List (ResponseFuture Client) → Bool → Bool × List (ResponseFuture Client)
  | [], success => (success, [])
  | ⟨_, some answer⟩ :: rest, _ => checkFutures rest answer
  | ⟨client, none⟩ :: rest, success =>
    ((checkFutures rest success).1, ⟨client, none⟩ :: (checkFutures rest success).2)

/-- The end of a sweep: `wait_all_futures` returns when no answer is missing or the last one taken
was a refusal, and sweeps again otherwise. -/
def afterSweep (futures : List (ResponseFuture Client)) : RoundPhase Client :=
  match checkFutures futures true with
  | (true, []) => .idle true
  | (true, waiting) => .sweeping clientMap waiting
  | (false, _) => .idle false

/-- The runs of a manager: one round after the other, each a sequence of sweeps over the clients in
the order of the map. -/
def managerRounds : TransitionSystem (ManagerRounds Client) (RoundAction Client) where
  initial s := s = ⟨fun _ ↦ [], .idle false, 0⟩
  next s
    | .callAllClients available answers =>
      match s.phase with
      | .idle _ =>
        let called := callAllClients clientMap available answers s
        some ⟨called.1, waitAllFutures clientMap called.2, s.round + 1⟩
      | .sweeping _ _ => none
    | .spinOnce =>
      match s.phase with
      | .sweeping (client :: rest) futures =>
        match s.undelivered client with
        | [] => none
        | response :: later =>
          some { s with
            undelivered := Function.update s.undelivered client later
            phase := .sweeping rest (deliver s.round client response futures) }
      | _ => none
    | .checkFutures =>
      match s.phase with
      | .sweeping [] futures => some { s with phase := afterSweep clientMap futures }
      | _ => none

/-- No client is spun for which no response is undelivered. -/
def NeverHangs (s : ManagerRounds Client) : Prop :=
  ∀ client rest futures, s.phase = .sweeping (client :: rest) futures → s.undelivered client ≠ []

/-- The clients with the fewest undelivered responses. -/
def leastBacklog (undelivered : Client → List Response) : List Client :=
  clientMap.filter fun client ↦
    ∀ other ∈ clientMap, (undelivered client).length ≤ (undelivered other).length

/-- All clients have the same backlog, or the last of those with the least backlog will refuse. -/
def EvenOrRefused (undelivered : Client → List Response) (answers : Client → Bool) : Prop :=
  (∀ client ∈ clientMap, client ∈ leastBacklog clientMap undelivered) ∨
    ∃ client ∈ (leastBacklog clientMap undelivered).getLast?, answers client = false

instance (undelivered : Client → List Response) (answers : Client → Bool) :
    Decidable (EvenOrRefused clientMap undelivered answers) :=
  inferInstanceAs (Decidable (_ ∨ _))

/-- A round that finishes: it gives up because a client is unavailable, or it begins with even
backlogs, or the last client with the least backlog refuses. -/
def RoundFinishes (s : ManagerRounds Client) : RoundAction Client → Prop
  | .callAllClients available answers =>
    (∃ client ∈ clientMap, available client = false) ∨
      EvenOrRefused clientMap s.undelivered answers
  | _ => True

instance (s : ManagerRounds Client) :
    (action : RoundAction Client) → Decidable (RoundFinishes clientMap s action)
  | .callAllClients _ _ => inferInstanceAs (Decidable (_ ∨ _))
  | .spinOnce | .checkFutures => inferInstanceAs (Decidable True)

end Rounds

/-! ### The check at the end of a sweep -/

/-- The outcome of the check: the answer of the last client that has answered, and the futures of
the clients that have not. -/
theorem checkFutures_eq {Client : Type} (answered answers : Client → Bool) :
    ∀ (clients : List Client) (success : Bool),
      checkFutures (clients.map fun client ↦
          ⟨client, if answered client then some (answers client) else none⟩) success =
        (((clients.filter answered).getLast?.map answers).getD success,
          (clients.filter fun client ↦ !answered client).map fun client ↦ ⟨client, none⟩) := by
  intro clients
  induction clients with
  | nil => intro success; rfl
  | cons client rest ih =>
    intro success
    cases hanswered : answered client with
    | true =>
      simp only [List.map_cons, hanswered, if_true, checkFutures, ih, List.filter_cons,
        Bool.not_true, Bool.false_eq_true, if_false, List.getLast?_cons]
      cases (rest.filter answered).getLast? <;> rfl
    | false =>
      simp [hanswered, checkFutures, ih]

/-! ### The invariant of a round -/

section Invariant

variable {Client : Type} {clientMap : List Client}

/-- The backlogs of a sweep that has found older responses everywhere keep their order. -/
theorem leastBacklog_tail {stale : Client → List Response}
    (hstale : ∀ client ∈ clientMap, stale client ≠ []) :
    leastBacklog clientMap (fun client ↦ (stale client).tail) = leastBacklog clientMap stale := by
  refine List.filter_congr fun client hclient ↦ ?_
  simp only [decide_eq_decide]
  refine forall₂_congr fun other hother ↦ ?_
  have hmine := List.length_pos_of_ne_nil (hstale client hclient)
  have hothers := List.length_pos_of_ne_nil (hstale other hother)
  simp only [List.length_tail]
  omega

/-- When some client has no older response, the least backlog is none. -/
theorem leastBacklog_of_nil {stale : Client → List Response} {client : Client}
    (hclient : client ∈ clientMap) (hnil : stale client = []) :
    leastBacklog clientMap stale = clientMap.filter fun other ↦ (stale other).isEmpty := by
  refine List.filter_congr fun other hother ↦ ?_
  rw [Bool.eq_iff_iff, decide_eq_true_iff, List.isEmpty_iff]
  constructor
  · intro hleast
    have hzero := hleast client hclient
    rw [hnil] at hzero
    exact List.eq_nil_of_length_eq_zero (Nat.le_zero.mp hzero)
  · intro hempty another _
    simp [hempty]

variable [DecidableEq Client] {s t : ManagerRounds Client}

/-- A round in the middle of a sweep, when `stale` were the responses to earlier requests at its
beginning: the clients not spun yet have these and their answer to the current request, the others
one less, and the answer has arrived where nothing was before it. -/
structure InSweep (clientMap : List Client) (s : ManagerRounds Client)
    (stale : Client → List Response) (answers : Client → Bool) (processed remaining : List Client)
    (futures : List (ResponseFuture Client)) : Prop where
  split : clientMap = processed ++ remaining
  waiting : ∀ client ∈ remaining,
    s.undelivered client = stale client ++ [⟨s.round, answers client⟩]
  spun : ∀ client ∈ processed,
    s.undelivered client = (stale client ++ [(⟨s.round, answers client⟩ : Response)]).tail
  futures : futures = clientMap.map fun client ↦
    ⟨client, if decide (client ∈ processed) && (stale client).isEmpty then some (answers client)
      else none⟩
  old : ∀ client, ∀ response ∈ stale client, response.round < s.round
  finishes : EvenOrRefused clientMap stale answers

/-- Responses belong to rounds that have begun, and a round that waits is in a sweep. -/
structure RoundsInvariant (clientMap : List Client) (s : ManagerRounds Client) : Prop where
  numbered : ∀ client, ∀ response ∈ s.undelivered client, response.round ≤ s.round
  sweep : ∀ remaining futures, s.phase = .sweeping remaining futures →
    ∃ stale answers processed, InSweep clientMap s stale answers processed remaining futures

/-- Every client that a sweep has not spun yet has an undelivered response. -/
theorem InSweep.undelivered_ne_nil {stale : Client → List Response} {answers : Client → Bool}
    {processed remaining : List Client} {futures : List (ResponseFuture Client)}
    (hs : InSweep clientMap s stale answers processed remaining futures) {client : Client}
    (hclient : client ∈ remaining) : s.undelivered client ≠ [] := by
  rw [hs.waiting client hclient]
  simp

/-- A round that waits has sent its request to all clients. -/
theorem roundsInvariant_call (hs : RoundsInvariant clientMap s) {available answers : Client → Bool}
    (hallowed : RoundFinishes clientMap s (.callAllClients available answers)) :
    RoundsInvariant clientMap
      ⟨(callAllClients clientMap available answers s).1,
        waitAllFutures clientMap (callAllClients clientMap available answers s).2,
        s.round + 1⟩ := by
  constructor
  · intro client response hresponse
    simp only [callAllClients] at hresponse
    split at hresponse
    · rcases List.mem_append.mp hresponse with hold | hnew
      · exact Nat.le_succ_of_le (hs.numbered client response hold)
      · obtain rfl := List.mem_singleton.mp hnew
        exact Nat.le_refl _
    · exact Nat.le_succ_of_le (hs.numbered client response hresponse)
  · intro remaining futures hphase
    simp only [waitAllFutures, callAllClients, List.length_map] at hphase
    split_ifs at hphase with hnone hsome
    obtain ⟨rfl, rfl⟩ := RoundPhase.sweeping.inj hphase
    have hall : ∀ client ∈ clientMap, available client = true :=
      List.length_filter_eq_length_iff.mp (not_not.mp hsome)
    have hsent : clientMap.filter available = clientMap := List.filter_eq_self.mpr hall
    refine ⟨s.undelivered, answers, [], rfl, fun client hclient ↦ ?_, fun client hclient ↦ ?_, ?_,
      fun client response hresponse ↦ ?_, ?_⟩
    · simp [callAllClients, hsent, hclient]
    · cases hclient
    · simp [hsent]
    · exact Nat.lt_succ_of_le (hs.numbered client response hresponse)
    · refine hallowed.resolve_left ?_
      rintro ⟨client, hclient, hunavailable⟩
      rw [hall client hclient] at hunavailable
      cases hunavailable

/-- Spinning a client delivers its answer to the current request when it had no older response. -/
theorem roundsInvariant_spin (hnodup : clientMap.Nodup) (hs : RoundsInvariant clientMap s)
    {client : Client} {rest : List Client} {futures : List (ResponseFuture Client)}
    {response : Response} {later : List Response}
    (hphase : s.phase = .sweeping (client :: rest) futures)
    (hundelivered : s.undelivered client = response :: later) :
    RoundsInvariant clientMap { s with
      undelivered := Function.update s.undelivered client later
      phase := .sweeping rest (deliver s.round client response futures) } := by
  obtain ⟨stale, answers, processed, hsweep⟩ := hs.sweep _ _ hphase
  obtain ⟨hsplit, hwaiting, hspun, hfutures, hold, hfinishes⟩ := hsweep
  have hmine := hwaiting client List.mem_cons_self
  rw [hundelivered] at hmine
  have hdistinct : client ∉ processed ∧ client ∉ rest := by
    rw [hsplit, List.nodup_append, List.nodup_cons] at hnodup
    exact ⟨fun hmem ↦ hnodup.2.2 client hmem client List.mem_cons_self rfl, hnodup.2.1.1⟩
  constructor
  · intro other old hmem
    by_cases heq : other = client
    · subst heq
      simp only [Function.update_self] at hmem
      exact hs.numbered other old (hundelivered ▸ List.mem_cons_of_mem _ hmem)
    · simp only [Function.update_of_ne heq] at hmem
      exact hs.numbered other old hmem
  · intro remaining futures' hphase'
    obtain ⟨rfl, rfl⟩ := RoundPhase.sweeping.inj hphase'
    refine ⟨stale, answers, processed ++ [client], by simp [hsplit], fun other hother ↦ ?_,
      fun other hother ↦ ?_, ?_, hold, hfinishes⟩
    · have hne : other ≠ client := fun heq ↦ hdistinct.2 (heq ▸ hother)
      simpa [hne] using hwaiting other (List.mem_cons_of_mem _ hother)
    · by_cases heq : other = client
      · subst heq
        simp [← hmine]
      · have hmem : other ∈ processed := by simpa [heq] using hother
        simpa [heq] using hspun other hmem
    · rw [hfutures, deliver, List.map_map]
      refine List.map_congr_left fun other hother ↦ ?_
      by_cases heq : other = client
      · subst heq
        cases hstale : stale other with
        | nil =>
          rw [hstale] at hmine
          obtain ⟨rfl, -⟩ := List.cons.inj hmine
          simp [hdistinct.1]
        | cons first others =>
          rw [hstale] at hmine
          obtain ⟨rfl, -⟩ := List.cons.inj hmine
          have hround : response.round ≠ s.round :=
            Nat.ne_of_lt (hold other response (by simp [hstale]))
          simp [hround, hdistinct.1]
      · simp [heq]

/-- At the end of a sweep either no answer has arrived, and the next sweep begins with one older
response less everywhere, or the round is over. -/
theorem roundsInvariant_check (hs : RoundsInvariant clientMap s)
    {futures : List (ResponseFuture Client)} (hphase : s.phase = .sweeping [] futures) :
    RoundsInvariant clientMap { s with phase := afterSweep clientMap futures } := by
  obtain ⟨stale, answers, processed, hsweep⟩ := hs.sweep _ _ hphase
  obtain ⟨hsplit, -, hspun, hfutures, hold, hfinishes⟩ := hsweep
  rw [List.append_nil] at hsplit
  subst hsplit
  have hanswered : futures = clientMap.map fun client ↦
      ⟨client, if (stale client).isEmpty then some (answers client) else none⟩ := by
    rw [hfutures]
    exact List.map_congr_left fun client hclient ↦ by simp [hclient]
  have hcheck := checkFutures_eq (fun client ↦ (stale client).isEmpty) answers clientMap true
  rw [← hanswered] at hcheck
  refine ⟨hs.numbered, fun remaining waiting hwaiting ↦ ?_⟩
  by_cases hempty : ∃ client ∈ clientMap, stale client = []
  · -- an answer has arrived: the backlogs were even, or the last answer taken is a refusal
    exfalso
    obtain ⟨client, hclient, hnil⟩ := hempty
    have hleast := leastBacklog_of_nil hclient hnil
    simp only [afterSweep] at hwaiting
    rcases hfinishes with heven | ⟨last, hlast, hrefuses⟩
    · have hnone : (clientMap.filter fun other ↦ !(stale other).isEmpty) = [] := by
        refine List.filter_eq_nil_iff.mpr fun other hother ↦ ?_
        have hmem := heven other hother
        rw [hleast] at hmem
        simp [(List.mem_filter.mp hmem).2]
      rw [hcheck, hnone] at hwaiting
      split at hwaiting
      · cases hwaiting
      · rename_i hne heq
        exact hne (Prod.mk.injEq .. ▸ heq).2.symm
      · cases hwaiting
    · rw [hleast] at hlast
      rw [hcheck, Option.mem_def.mp hlast, Option.map_some, Option.getD_some, hrefuses] at hwaiting
      cases hwaiting
  · have hall : ∀ client ∈ clientMap, stale client ≠ [] :=
      fun client hclient hnil ↦ hempty ⟨client, hclient, hnil⟩
    have hnone : (clientMap.filter fun other ↦ (stale other).isEmpty) = [] := by
      refine List.filter_eq_nil_iff.mpr fun other hother ↦ ?_
      simpa using hall other hother
    have hevery : (clientMap.filter fun other ↦ !(stale other).isEmpty) = clientMap := by
      refine List.filter_eq_self.mpr fun other hother ↦ ?_
      simpa using hall other hother
    have hsweep : remaining = clientMap ∧
        waiting = clientMap.map fun client ↦ ⟨client, none⟩ := by
      simp only [afterSweep, hcheck, hnone, hevery] at hwaiting
      split at hwaiting
      · cases hwaiting
      · rename_i heq
        obtain ⟨rfl, rfl⟩ := RoundPhase.sweeping.inj hwaiting
        exact ⟨rfl, (Prod.mk.injEq .. ▸ heq).2.symm⟩
      · cases hwaiting
    obtain ⟨rfl, rfl⟩ := hsweep
    refine ⟨fun client ↦ (stale client).tail, answers, [], rfl, fun client hclient ↦ ?_,
      fun client hclient ↦ ?_, by simp, fun client response hresponse ↦ ?_, ?_⟩
    · rw [hspun client hclient, List.tail_append_of_ne_nil (hall client hclient)]
    · cases hclient
    · exact hold client response (List.mem_of_mem_tail hresponse)
    · simpa only [EvenOrRefused, leastBacklog_tail hall] using hfinishes

theorem roundsInvariant_step (hnodup : clientMap.Nodup) (hs : RoundsInvariant clientMap s)
    {action : RoundAction Client} (hallowed : RoundFinishes clientMap s action)
    (hnext : (managerRounds clientMap).next s action = some t) : RoundsInvariant clientMap t := by
  cases action with
  | callAllClients available answers =>
    simp only [managerRounds] at hnext
    split at hnext
    · obtain rfl := Option.some.inj hnext
      exact roundsInvariant_call hs hallowed
    · cases hnext
  | spinOnce =>
    simp only [managerRounds] at hnext
    split at hnext
    · rename_i client rest futures hphase
      split at hnext
      · cases hnext
      · rename_i response later hundelivered
        obtain rfl := Option.some.inj hnext
        exact roundsInvariant_spin hnodup hs hphase hundelivered
    · cases hnext
  | checkFutures =>
    simp only [managerRounds] at hnext
    split at hnext
    · rename_i futures hphase
      obtain rfl := Option.some.inj hnext
      exact roundsInvariant_check hs hphase
    · cases hnext

/-- No round hangs along the runs in which every round gives up because a client is unavailable,
begins with even backlogs, or is refused by the last client with the least backlog. -/
theorem rounds_never_hang (hnodup : clientMap.Nodup)
    (hrun : (managerRounds clientMap).ReachableBy (RoundFinishes clientMap) s) : NeverHangs s := by
  have hinv : RoundsInvariant clientMap s := by
    refine hrun.invariant ?_ ?_
    · rintro s rfl
      constructor
      · intro client response hresponse
        cases hresponse
      · intro remaining futures hphase
        cases hphase
    · intro s action t hs hallowed hnext
      exact roundsInvariant_step hnodup hs hallowed hnext
  intro client rest futures hphase
  obtain ⟨stale, answers, processed, hsweep⟩ := hinv.sweep _ _ hphase
  exact hsweep.undelivered_ne_nil List.mem_cons_self

end Invariant

/-- Two clients are called twice; both approve the first request, and the second client refuses the
second one. -/
def evenRounds : List (RoundAction Bool) :=
  [.callAllClients (fun _ ↦ true) (fun _ ↦ true), .spinOnce, .spinOnce, .checkFutures,
    .callAllClients (fun _ ↦ true) (fun client ↦ client), .spinOnce]

theorem rounds_never_hang_evenRounds :
    ∃ s, (managerRounds [true, false]).runFrom ⟨fun _ ↦ [], .idle false, 0⟩ evenRounds = some s ∧
      s.undelivered false ≠ [] := by
  have hend : ((managerRounds [true, false]).runFrom ⟨fun _ ↦ [], .idle false, 0⟩ evenRounds).map
      ManagerRounds.phase =
        some (.sweeping [false] [⟨true, some true⟩, ⟨false, none⟩]) := rfl
  obtain ⟨s, hrun, hphase⟩ := Option.map_eq_some_iff.mp hend
  have hallowed : (managerRounds [true, false]).AllowedAlong (RoundFinishes [true, false])
      evenRounds ⟨fun _ ↦ [], .idle false, 0⟩ := by
    decide
  exact ⟨s, hrun, rounds_never_hang (by decide)
    (TransitionSystem.reachableBy_of_runFrom (.initial rfl) _ hallowed hrun) _ _ _ hphase⟩

/-- The second client is unavailable in the first round, and both approve in the second. -/
def unevenRounds : List (RoundAction Bool) :=
  [.callAllClients (fun client ↦ client) (fun _ ↦ true),
    .callAllClients (fun _ ↦ true) (fun _ ↦ true), .spinOnce, .spinOnce, .checkFutures, .spinOnce]

/-- The second client has answered its only request, and is spun again because the first client has
delivered the response to an earlier request instead. -/
theorem round_hangs_on_uneven_backlog :
    ∃ s, (managerRounds [true, false]).runFrom ⟨fun _ ↦ [], .idle false, 0⟩ unevenRounds = some s ∧
      s.phase = .sweeping [false] [⟨true, some true⟩] ∧ s.undelivered false = [] ∧
      ¬ NeverHangs s := by
  have hend : ((managerRounds [true, false]).runFrom ⟨fun _ ↦ [], .idle false, 0⟩ unevenRounds).map
      (fun s ↦ (s.phase, s.undelivered false)) =
        some (.sweeping [false] [⟨true, some true⟩], []) := rfl
  obtain ⟨s, hrun, hs⟩ := Option.map_eq_some_iff.mp hend
  obtain ⟨hphase, hundelivered⟩ := Prod.mk.injEq .. ▸ hs
  exact ⟨s, hrun, hphase, hundelivered, fun hnever ↦ hnever _ _ _ hphase hundelivered⟩

end PackML
