import Mathlib.Data.Nat.Notation
import Mathlib.Logic.Function.Basic
import Mathlib.Tactic.SplitIfs

/-!
# A promise variable that is replaced, and the futures taken from it

`std::promise` objects share a state with the future taken from them: it is pending, holds a value,
or is broken, which happens when its promise is destroyed or replaced while it is pending. A
`PromiseVariable` is a variable of type `std::promise` together with all the shared states it has
had; every assignment of a new promise starts the next one, and a future is the number of its
shared state.

`setValue` and `getFuture` throw on a shared state that has a value or whose future was taken.
`get` on a future blocks while the state is pending. A state that is not pending keeps its outcome
forever (`replace_outcome_of_ne_pending`, `setValue_outcome_of_ne_pending`), so a future whose
value was set returns it whatever happens to the variable.
-/

set_option autoImplicit false
set_option relaxedAutoImplicit false

/-- The errors of promises and futures. -/
inductive FutureError
  | brokenPromise | futureAlreadyRetrieved | promiseAlreadySatisfied
  deriving DecidableEq, Repr

/-- What the shared state of a promise holds. -/
inductive PromiseOutcome (Value : Type*)
  | pending
  | value (value : Value)
  | broken
  deriving DecidableEq, Repr

/-- The shared state of a promise and its future. -/
structure SharedState (Value : Type*) where
  outcome : PromiseOutcome Value
  retrieved : Bool

/-- A variable of type `std::promise`: the number of its shared state, and all shared states. -/
structure PromiseVariable (Value : Type*) where
  current : ℕ
  shared : ℕ → SharedState Value

namespace PromiseVariable

variable {Value : Type*}

/-- A variable with a new promise. -/
def new : PromiseVariable Value := ⟨0, fun _ ↦ ⟨.pending, false⟩⟩

/-- The outcome of a shared state when its promise is destroyed. -/
def abandoned : PromiseOutcome Value → PromiseOutcome Value
  | .pending => .broken
  | outcome => outcome

/-- `variable = std::promise<Value>()`. -/
def replace (p : PromiseVariable Value) : PromiseVariable Value where
  current := p.current + 1
  shared id :=
    if id = p.current + 1 then ⟨.pending, false⟩
    else if id = p.current then { p.shared id with outcome := abandoned (p.shared id).outcome }
    else p.shared id

/-- `variable.set_value(v)`. -/
def setValue (p : PromiseVariable Value) (v : Value) :
    Except FutureError (PromiseVariable Value) :=
  match (p.shared p.current).outcome with
  | .pending =>
    .ok { p with shared := Function.update p.shared p.current
                            { p.shared p.current with outcome := .value v } }
  | _ => .error .promiseAlreadySatisfied

/-- `variable.get_future()`, the future by its number. -/
def getFuture (p : PromiseVariable Value) : Except FutureError (ℕ × PromiseVariable Value) :=
  if (p.shared p.current).retrieved then .error .futureAlreadyRetrieved
  else
    .ok (p.current, { p with shared := Function.update p.shared p.current
                                        { p.shared p.current with retrieved := true } })

/-- `future.get()`; it blocks while the shared state is pending. -/
def get (p : PromiseVariable Value) (future : ℕ) : Option (Except FutureError Value) :=
  match (p.shared future).outcome with
  | .pending => none
  | .value v => some (.ok v)
  | .broken => some (.error .brokenPromise)

variable {p q : PromiseVariable Value} {id : ℕ}

@[simp] theorem replace_current (p : PromiseVariable Value) :
    p.replace.current = p.current + 1 :=
  rfl

/-- A new promise is pending and its future has not been taken. -/
@[simp] theorem replace_shared_current (p : PromiseVariable Value) :
    p.replace.shared (p.current + 1) = ⟨.pending, false⟩ := by
  simp [replace]

/-- Replacing the promise keeps what has been decided of the promises so far. -/
theorem replace_outcome_of_ne_pending (hid : id ≤ p.current)
    (houtcome : (p.shared id).outcome ≠ .pending) :
    (p.replace.shared id).outcome = (p.shared id).outcome := by
  have hne : id ≠ p.current + 1 := by omega
  have hkept : abandoned (p.shared id).outcome = (p.shared id).outcome := by
    cases hcase : (p.shared id).outcome with
    | pending => exact absurd hcase houtcome
    | value v => rfl
    | broken => rfl
  by_cases hcurrent : id = p.current
  · subst hcurrent
    simpa [replace] using hkept
  · simp [replace, hne, hcurrent]

/-- What setting the value does: the promise was pending and now holds the value. -/
theorem setValue_ok {v : Value} (hset : p.setValue v = .ok q) :
    (p.shared p.current).outcome = .pending ∧ q.current = p.current ∧
      q.shared = Function.update p.shared p.current
        { p.shared p.current with outcome := .value v } := by
  unfold setValue at hset
  split at hset
  · rename_i hpending
    obtain rfl := Except.ok.inj hset
    exact ⟨hpending, rfl, rfl⟩
  · cases hset

/-- A pending promise can be satisfied. -/
theorem setValue_of_pending (hpending : (p.shared p.current).outcome = .pending) (v : Value) :
    p.setValue v = .ok { p with shared := Function.update p.shared p.current
                                            { p.shared p.current with outcome := .value v } } := by
  simp only [setValue, hpending]

/-- Setting the value keeps what has been decided of the other promises. -/
theorem setValue_outcome_of_ne_pending {v : Value} (hset : p.setValue v = .ok q)
    (houtcome : (p.shared id).outcome ≠ .pending) :
    (q.shared id).outcome = (p.shared id).outcome := by
  obtain ⟨hpending, -, hshared⟩ := setValue_ok hset
  have hne : id ≠ p.current := fun hid ↦ houtcome (hid ▸ hpending)
  simp [hshared, hne]

/-- The future of a promise can be taken once. -/
theorem getFuture_of_not_retrieved (hretrieved : (p.shared p.current).retrieved = false) :
    p.getFuture = .ok (p.current, { p with shared := Function.update p.shared p.current
                                            { p.shared p.current with retrieved := true } }) := by
  simp [getFuture, hretrieved]

/-- Taking a future decides nothing. -/
theorem getFuture_outcome {future : ℕ} (htake : p.getFuture = .ok (future, q)) :
    future = p.current ∧ q.current = p.current ∧
      ∀ id, (q.shared id).outcome = (p.shared id).outcome := by
  unfold getFuture at htake
  split_ifs at htake
  obtain ⟨rfl, rfl⟩ := Prod.mk.injEq .. ▸ Except.ok.inj htake
  refine ⟨rfl, rfl, fun id ↦ ?_⟩
  by_cases hid : id = p.current
  · simp [hid]
  · simp [hid]

/-- A future is ready when its shared state is not pending. -/
theorem get_eq_none_iff : p.get id = none ↔ (p.shared id).outcome = .pending := by
  unfold get
  cases (p.shared id).outcome <;> simp

theorem get_of_value {v : Value} (houtcome : (p.shared id).outcome = .value v) :
    p.get id = some (.ok v) := by
  simp only [get, houtcome]

end PromiseVariable
