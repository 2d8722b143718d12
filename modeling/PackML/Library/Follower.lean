import Mathlib.Data.List.Basic

/-!
# Followers of a published value

A follower keeps a copy of a value that a source publishes. Before the source publishes a new value
it may ask the follower to approve it; the follower then waits, and stops waiting when a value
arrives that differs from its copy. A value that equals the copy is ignored.

`Served` says of the values still to come that one of them ends the wait. A follower stays served
when a value arrives (`Served.receive`), and an approval is served when the value approved is still
to come and the copy and the values to come are not all equal to it (`served_approve`).
-/

set_option autoImplicit false
set_option relaxedAutoImplicit false

/-- The copy of a value, the value approved last, and whether the follower waits. -/
structure Follower (Value : Type*) where
  current : Value
  switching : Value
  waiting : Bool
  deriving DecidableEq, Repr

namespace Follower

variable {Value : Type*} (follower : Follower Value)

/-- The follower approves a value, and waits. -/
def approve (value : Value) : Follower Value :=
  { follower with switching := value, waiting := true }

/-- A published value arrives. -/
def receive [DecidableEq Value] (value : Value) : Follower Value :=
  if follower.current ≠ value then { follower with current := value, waiting := false }
  else follower

/-- If the follower waits, one of the values still to come ends the wait. -/
def Served (coming : List Value) : Prop :=
  follower.waiting = true → ∃ value ∈ coming, value ≠ follower.current

variable {follower}

theorem Served.mono {coming later : List Value} (hserved : follower.Served coming)
    (hkept : ∀ value ∈ coming, value ∈ later) : follower.Served later := by
  intro hwaiting
  obtain ⟨value, hvalue, hother⟩ := hserved hwaiting
  exact ⟨value, hkept value hvalue, hother⟩

/-- When nothing is to come, a follower that is served does not wait. -/
theorem Served.waiting_eq_false (hserved : follower.Served []) : follower.waiting = false := by
  refine Bool.eq_false_iff.mpr fun hwaiting ↦ ?_
  obtain ⟨value, hvalue, -⟩ := hserved hwaiting
  exact absurd hvalue List.not_mem_nil

/-- An approval is served when the value is to come, and the copy or a value to come differs. -/
theorem served_approve {value : Value} {coming : List Value} (hcoming : value ∈ coming)
    (hother : ∃ other ∈ follower.current :: coming, other ≠ value) :
    (follower.approve value).Served coming := by
  intro _
  by_cases hcurrent : value = follower.current
  · obtain ⟨other, hmem, hne⟩ := hother
    rcases List.mem_cons.mp hmem with rfl | hlater
    · exact absurd hcurrent.symm hne
    · exact ⟨other, hlater, fun h ↦ hne (h.trans hcurrent.symm)⟩
  · exact ⟨value, hcoming, hcurrent⟩

section Receive

variable [DecidableEq Value]

/-- A value that equals the copy is ignored. -/
theorem receive_same {value : Value} (hsame : follower.current = value) :
    follower.receive value = follower :=
  if_neg (not_not.mpr hsame)

theorem receive_other (follower : Follower Value) {value : Value}
    (hother : follower.current ≠ value) :
    follower.receive value = { follower with current := value, waiting := false } :=
  if_pos hother

@[simp] theorem receive_current (value : Value) : (follower.receive value).current = value := by
  by_cases hsame : follower.current = value
  · rw [receive_same hsame, hsame]
  · rw [follower.receive_other hsame]

/-- The arrival of the first value that is to come leaves a follower served. -/
theorem Served.receive {value : Value} {coming : List Value}
    (hserved : follower.Served (value :: coming)) : (follower.receive value).Served coming := by
  by_cases hsame : follower.current = value
  · rw [receive_same hsame]
    intro hwaiting
    obtain ⟨other, hmem, hne⟩ := hserved hwaiting
    rcases List.mem_cons.mp hmem with rfl | hlater
    · exact absurd hsame.symm hne
    · exact ⟨other, hlater, hne⟩
  · rw [follower.receive_other hsame]
    intro hwaiting
    cases hwaiting

end Receive

end Follower
