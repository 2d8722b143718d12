import PackML.Manager.ClientRounds

/-!
# What `wait_all_futures` returns

`waitForAll` is a whole call of `wait_all_futures` on the futures that `call_all_clients` has
returned: the two checks, and then one sweep after the other. When the response of each client
becomes ready is given by `arrival`, the number of the sweep at whose end its future is ready, or
nothing when it never is. `fuel` bounds the number of sweeps; a call that has not returned by then
has no value.

The value that a sweep leaves in `success` is that of the last client, in the order of the map,
whose answer it has taken, and the sweeps go on until this is a refusal or no future is left. So
the call returns true exactly when every client was sent a request and no sweep ends with a refusal
(`waitForAll_eq_true_iff`). That is the conjunction of the answers unless some client refuses and
every sweep ends with an approval (`wait_all_futures_conjunction_iff`).
-/

set_option autoImplicit false
set_option relaxedAutoImplicit false

namespace PackML

/-! ### The call -/

section Call

variable {Client Value : Type} (clientMap : List Client)

/-- The futures that `call_all_clients` returns. -/
def sentFutures (available : Client → Bool) : List (ResponseFuture Client) :=
  (clientMap.filter available).map fun client ↦ ⟨client, none⟩

/-- The futures of the clients whose response has become ready. -/
def arrive (ready answers : Client → Bool) (futures : List (ResponseFuture Client)) :
    List (ResponseFuture Client) :=
  futures.map fun future ↦
    if ready future.client then { future with answer := some (answers future.client) } else future

/-- The loop of `wait_all_futures`, from a sweep on. -/
def waitLoop (arrival : Client → Option ℕ) (answers : Client → Bool) :
    ℕ → ℕ → List (ResponseFuture Client) → Option Bool
  | 0, _, _ => none
  | fuel + 1, sweep, futures =>
    match afterSweep clientMap (arrive (fun client ↦ arrival client = some sweep) answers futures)
      with
    | .idle returned => some returned
    | .sweeping _ waiting => waitLoop arrival answers fuel (sweep + 1) waiting

/-- `wait_all_futures` on the futures of `call_all_clients`: `onValue` is the callback for the
responses. -/
def waitForAll (available : Client → Bool) (arrival : Client → Option ℕ)
    (responses : Client → Value) (onValue : Client → Value → Bool) (fuel : ℕ) : Option Bool :=
  match waitAllFutures clientMap (sentFutures clientMap available) with
  | .idle returned => some returned
  | .sweeping _ futures =>
    waitLoop clientMap arrival (fun client ↦ onValue client (responses client)) fuel 0 futures

/-- The clients whose response becomes ready in a sweep, in the order of the map. -/
def arrivals (arrival : Client → Option ℕ) (sweep : ℕ) : List Client :=
  clientMap.filter fun client ↦ arrival client = some sweep

/-- The last answer taken in every sweep is an approval. -/
def NoSweepRefused (arrival : Client → Option ℕ) (answers : Client → Bool) : Prop :=
  ∀ sweep, ∀ client ∈ (arrivals clientMap arrival sweep).getLast?, answers client = true

end Call

/-! ### What the loop returns -/

section Loop

variable {Client Value : Type} {clientMap : List Client}
  {arrival : Client → Option ℕ} {answers : Client → Bool}

/-- The clients whose response has not become ready before a sweep. -/
def notArrived (clientMap : List Client) (arrival : Client → Option ℕ) (sweep : ℕ) : List Client :=
  clientMap.filter fun client ↦ ∀ earlier < sweep, arrival client ≠ some earlier

theorem notArrived_zero : notArrived clientMap arrival 0 = clientMap := by
  simp [notArrived]

/-- The clients that a sweep hears of are those that become ready in it. -/
theorem notArrived_filter_arrived (sweep : ℕ) :
    ((notArrived clientMap arrival sweep).filter fun client ↦ arrival client = some sweep) =
      arrivals clientMap arrival sweep := by
  rw [notArrived, arrivals, List.filter_filter]
  refine List.filter_congr fun client _ ↦ ?_
  rw [Bool.and_eq_left_iff_imp]
  intro harrived
  simp only [decide_eq_true_eq] at harrived ⊢
  intro earlier hearlier hsame
  have := harrived.symm.trans hsame
  simp only [Option.some.injEq] at this
  omega

/-- The others are left for the next sweep. -/
theorem notArrived_filter_waiting (sweep : ℕ) :
    ((notArrived clientMap arrival sweep).filter fun client ↦
        !decide (arrival client = some sweep)) = notArrived clientMap arrival (sweep + 1) := by
  rw [notArrived, notArrived, List.filter_filter]
  refine List.filter_congr fun client _ ↦ ?_
  rw [Bool.eq_iff_iff]
  simp only [Bool.and_eq_true, Bool.not_eq_true', decide_eq_false_iff_not, decide_eq_true_eq,
    Nat.lt_succ_iff]
  constructor
  · rintro ⟨hnow, hbefore⟩ earlier hearlier
    rcases Nat.lt_or_eq_of_le hearlier with hless | rfl
    · exact hbefore earlier hless
    · exact hnow
  · intro h
    exact ⟨h sweep (Nat.le_refl _), fun earlier hearlier ↦ h earlier (Nat.le_of_lt hearlier)⟩

/-- When every client has become ready, none becomes ready any more. -/
theorem arrivals_eq_nil {sweep later : ℕ} (hgone : notArrived clientMap arrival sweep = [])
    (hlater : sweep ≤ later) : arrivals clientMap arrival later = [] := by
  refine List.filter_eq_nil_iff.mpr fun client hclient ↦ ?_
  have hready := List.filter_eq_nil_iff.mp hgone client hclient
  simp only [decide_eq_true_eq, not_forall, not_not] at hready ⊢
  obtain ⟨earlier, hearlier, harrived⟩ := hready
  rw [harrived, Option.some.injEq]
  omega

/-- The futures that are valid at the beginning of a sweep. -/
def validFutures (clientMap : List Client) (arrival : Client → Option ℕ) (sweep : ℕ) :
    List (ResponseFuture Client) :=
  (notArrived clientMap arrival sweep).map fun client ↦ ⟨client, none⟩

/-- What a sweep leaves in `success`: the last answer it has taken. -/
def sweepSuccess (clientMap : List Client) (arrival : Client → Option ℕ)
    (answers : Client → Bool) (sweep : ℕ) : Bool :=
  ((arrivals clientMap arrival sweep).getLast?.map answers).getD true

theorem sweepSuccess_eq_true_iff (sweep : ℕ) :
    sweepSuccess clientMap arrival answers sweep = true ↔
      ∀ client ∈ (arrivals clientMap arrival sweep).getLast?, answers client = true := by
  rw [sweepSuccess]
  cases (arrivals clientMap arrival sweep).getLast? <;> simp

/-- One sweep of the loop. -/
theorem waitLoop_succ (fuel sweep : ℕ) :
    waitLoop clientMap arrival answers (fuel + 1) sweep (validFutures clientMap arrival sweep) =
      if sweepSuccess clientMap arrival answers sweep = true then
        if notArrived clientMap arrival (sweep + 1) = [] then some true
        else waitLoop clientMap arrival answers fuel (sweep + 1)
          (validFutures clientMap arrival (sweep + 1))
      else some false := by
  have harrive : arrive (fun client ↦ decide (arrival client = some sweep)) answers
      (validFutures clientMap arrival sweep) =
        (notArrived clientMap arrival sweep).map fun client ↦
          ⟨client, if decide (arrival client = some sweep) then some (answers client)
            else none⟩ := by
    rw [arrive, validFutures, List.map_map]
    refine List.map_congr_left fun client _ ↦ ?_
    by_cases harrived : arrival client = some sweep
    · simp [harrived]
    · simp [harrived]
  have hcheck := checkFutures_eq (fun client ↦ decide (arrival client = some sweep)) answers
    (notArrived clientMap arrival sweep) true
  rw [notArrived_filter_arrived, notArrived_filter_waiting] at hcheck
  rw [waitLoop, harrive, afterSweep, hcheck, ← sweepSuccess, validFutures]
  cases sweepSuccess clientMap arrival answers sweep with
  | false => rfl
  | true => cases notArrived clientMap arrival (sweep + 1) <;> rfl

/-- The loop returns true exactly when no sweep from here on ends with a refusal. -/
theorem waitLoop_eq_true_iff {fuel : ℕ} {returned : Bool} : ∀ {sweep : ℕ},
    waitLoop clientMap arrival answers fuel sweep (validFutures clientMap arrival sweep) =
        some returned →
      (returned = true ↔ ∀ later, sweep ≤ later →
        ∀ client ∈ (arrivals clientMap arrival later).getLast?, answers client = true) := by
  induction fuel with
  | zero =>
    intro sweep hreturns
    cases hreturns
  | succ fuel ih =>
    intro sweep hreturns
    rw [waitLoop_succ] at hreturns
    by_cases hsuccess : sweepSuccess clientMap arrival answers sweep = true
    · have hlasts := (sweepSuccess_eq_true_iff sweep).mp hsuccess
      rw [if_pos hsuccess] at hreturns
      by_cases hwaiting : notArrived clientMap arrival (sweep + 1) = []
      · rw [if_pos hwaiting] at hreturns
        obtain rfl : true = returned := Option.some.inj hreturns
        refine iff_of_true rfl fun later hlater ↦ ?_
        rcases Nat.eq_or_lt_of_le hlater with rfl | hless
        · exact hlasts
        · simp [arrivals_eq_nil hwaiting hless]
      · rw [if_neg hwaiting] at hreturns
        rw [ih hreturns]
        constructor
        · intro hlater later hle
          rcases Nat.eq_or_lt_of_le hle with rfl | hless
          · exact hlasts
          · exact hlater later hless
        · intro hall later hle
          exact hall later (Nat.le_of_succ_le hle)
    · rw [if_neg hsuccess] at hreturns
      obtain rfl : false = returned := Option.some.inj hreturns
      refine iff_of_false Bool.false_ne_true fun hall ↦ ?_
      exact hsuccess ((sweepSuccess_eq_true_iff sweep).mpr (hall sweep (Nat.le_refl _)))

/-- The loop returns when the response of every client becomes ready. -/
theorem waitLoop_returns {fuel : ℕ} : ∀ {sweep : ℕ},
    (∀ client ∈ clientMap, ∃ ready ≤ sweep + fuel, arrival client = some ready) →
      ∃ returned, waitLoop clientMap arrival answers (fuel + 1) sweep
        (validFutures clientMap arrival sweep) = some returned := by
  induction fuel with
  | zero =>
    intro sweep hready
    have hwaiting : notArrived clientMap arrival (sweep + 1) = [] := by
      refine List.filter_eq_nil_iff.mpr fun client hclient ↦ ?_
      obtain ⟨ready, hle, harrived⟩ := hready client hclient
      simp only [decide_eq_true_eq, not_forall, not_not]
      exact ⟨ready, Nat.lt_succ_of_le hle, harrived⟩
    rw [waitLoop_succ, if_pos hwaiting]
    split_ifs
    · exact ⟨true, rfl⟩
    · exact ⟨false, rfl⟩
  | succ fuel ih =>
    intro sweep hready
    rw [waitLoop_succ]
    split_ifs
    · exact ⟨true, rfl⟩
    · refine ih fun client hclient ↦ ?_
      obtain ⟨ready, hle, harrived⟩ := hready client hclient
      exact ⟨ready, by omega, harrived⟩
    · exact ⟨false, rfl⟩

/-- The two checks of `wait_all_futures`: there are clients, and every one was sent a request. -/
theorem waitForAll_eq (available : Client → Bool) (responses : Client → Value)
    (onValue : Client → Value → Bool) (fuel : ℕ) :
    waitForAll clientMap available arrival responses onValue fuel =
      if clientMap ≠ [] ∧ ∀ client ∈ clientMap, available client = true then
        waitLoop clientMap arrival (fun client ↦ onValue client (responses client)) fuel 0
          (validFutures clientMap arrival 0)
      else some false := by
  have hlength : (sentFutures clientMap available).length =
      (clientMap.filter available).length := by
    simp [sentFutures]
  unfold waitForAll waitAllFutures
  rw [hlength]
  by_cases hall : ∀ client ∈ clientMap, available client = true
  · have hsent : clientMap.filter available = clientMap := List.filter_eq_self.mpr hall
    have hfutures : sentFutures clientMap available = validFutures clientMap arrival 0 := by
      rw [sentFutures, validFutures, hsent, notArrived_zero]
    rw [hsent, hfutures]
    by_cases hclients : clientMap = []
    · subst hclients
      rfl
    · have hpos : ¬ clientMap.length ≤ 0 := fun h ↦
        hclients (List.length_eq_zero_iff.mp (Nat.le_zero.mp h))
      rw [if_neg hpos, if_neg (not_not.mpr rfl), if_pos ⟨hclients, hall⟩]
  · have hmissing : (clientMap.filter available).length ≠ clientMap.length :=
      fun h ↦ hall (List.length_filter_eq_length_iff.mp h)
    have hrefused : ¬ (clientMap ≠ [] ∧ ∀ client ∈ clientMap, available client = true) :=
      fun h ↦ hall h.2
    rw [if_pos hmissing, if_neg hrefused, ite_self]

/-- `wait_all_futures` returns true exactly when there are clients, every one was sent a request,
and no sweep ends with a refusal. -/
theorem waitForAll_eq_true_iff {available : Client → Bool} {responses : Client → Value}
    {onValue : Client → Value → Bool} {fuel : ℕ} {returned : Bool}
    (hreturns : waitForAll clientMap available arrival responses onValue fuel = some returned) :
    returned = true ↔ clientMap ≠ [] ∧ (∀ client ∈ clientMap, available client = true) ∧
      NoSweepRefused clientMap arrival fun client ↦ onValue client (responses client) := by
  rw [waitForAll_eq] at hreturns
  split_ifs at hreturns with hsent
  · rw [waitLoop_eq_true_iff hreturns, NoSweepRefused]
    simp only [Nat.zero_le, true_implies]
    exact ⟨fun h ↦ ⟨hsent.1, hsent.2, h⟩, fun h ↦ h.2.2⟩
  · obtain rfl : false = returned := Option.some.inj hreturns
    exact iff_of_false Bool.false_ne_true fun h ↦ hsent ⟨h.1, h.2.1⟩

/-- `wait_all_futures` returns when the response of every client becomes ready. -/
theorem waitForAll_returns {available : Client → Bool} {responses : Client → Value}
    {onValue : Client → Value → Bool} {fuel : ℕ}
    (hready : ∀ client ∈ clientMap, ∃ ready ≤ fuel, arrival client = some ready) :
    ∃ returned, waitForAll clientMap available arrival responses onValue (fuel + 1) =
      some returned := by
  rw [waitForAll_eq]
  split_ifs
  · exact waitLoop_returns (by simpa using hready)
  · exact ⟨false, rfl⟩

/-- `wait_all_futures` returns the conjunction of the answers exactly when some client was sent no
request, or every client approves, or the last answer taken in some sweep is a refusal. -/
theorem wait_all_futures_conjunction_iff {available : Client → Bool} {responses : Client → Value}
    {onValue : Client → Value → Bool} {fuel : ℕ} {returned : Bool} (hclients : clientMap ≠ [])
    (hreturns : waitForAll clientMap available arrival responses onValue fuel = some returned) :
    (returned = true ↔ (∀ client ∈ clientMap, available client = true) ∧
        ∀ client ∈ clientMap, onValue client (responses client) = true) ↔
      (∃ client ∈ clientMap, available client = false) ∨
        (∀ client ∈ clientMap, onValue client (responses client) = true) ∨
          ∃ sweep, ∃ client ∈ (arrivals clientMap arrival sweep).getLast?,
            onValue client (responses client) = false := by
  rw [waitForAll_eq_true_iff hreturns]
  by_cases havailable : ∀ client ∈ clientMap, available client = true
  · by_cases happroved : ∀ client ∈ clientMap, onValue client (responses client) = true
    · have hlasts : NoSweepRefused clientMap arrival fun client ↦
          onValue client (responses client) := by
        intro sweep client hclient
        have hmem := List.mem_of_getLast? (Option.mem_def.mp hclient)
        exact happroved client (List.mem_filter.mp hmem).1
      exact iff_of_true (iff_of_true ⟨hclients, havailable, hlasts⟩ ⟨havailable, happroved⟩)
        (Or.inr (Or.inl happroved))
    · have hnone : ¬ ∃ client ∈ clientMap, available client = false := by
        rintro ⟨client, hclient, hunavailable⟩
        rw [havailable client hclient] at hunavailable
        cases hunavailable
      have hrefused : ¬ NoSweepRefused clientMap arrival
          (fun client ↦ onValue client (responses client)) ↔
            ∃ sweep, ∃ client ∈ (arrivals clientMap arrival sweep).getLast?,
              onValue client (responses client) = false := by
        simp [NoSweepRefused]
      rw [or_iff_right hnone, or_iff_right happroved, ← hrefused]
      simp only [happroved, and_false, iff_false, not_and]
      exact ⟨fun h ↦ h hclients havailable, fun h _ _ ↦ h⟩
  · have hsome : ∃ client ∈ clientMap, available client = false := by
      simpa using havailable
    exact iff_of_true (iff_of_false (fun h ↦ havailable h.2.1) fun h ↦ havailable h.1)
      (Or.inl hsome)

end Loop

/-- The second of two clients refuses, and its response becomes ready after that of the first. -/
theorem wait_all_futures_conjunction_iff_refusedLast :
    waitForAll [true, false] (fun _ ↦ true) (fun client ↦ some (if client then 0 else 1)) id
        (fun _ value ↦ value) 2 = some false ∧
      (false = true ↔ (∀ client ∈ [true, false], (fun _ ↦ true) client = true) ∧
        ∀ client ∈ [true, false], client = true) := by
  have hreturns : waitForAll [true, false] (fun _ ↦ true)
      (fun client ↦ some (if client then 0 else 1)) id (fun _ value ↦ value) 2 = some false := rfl
  exact ⟨hreturns, (wait_all_futures_conjunction_iff (by decide) hreturns).mpr
    (Or.inr (Or.inr ⟨1, false, by decide, rfl⟩))⟩

/-- The first of two clients refuses and the second approves in the same sweep: the call returns
true, and false when the two change places in the map. -/
theorem refusal_overwritten :
    waitForAll [true, false] (fun _ ↦ true) (fun _ ↦ some 0) (fun client ↦ !client)
        (fun _ value ↦ value) 1 = some true ∧
      waitForAll [false, true] (fun _ ↦ true) (fun _ ↦ some 0) (fun client ↦ !client)
        (fun _ value ↦ value) 1 = some false ∧
      ¬ (true = true ↔ (∀ client ∈ [true, false], (fun _ ↦ true) client = true) ∧
        ∀ client ∈ [true, false], (!client) = true) := by
  refine ⟨rfl, rfl, ?_⟩
  decide

end PackML
