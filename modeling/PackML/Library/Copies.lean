import Mathlib.Data.List.Nodup

/-!
# Copies of a variable

A variable takes values one after the other, which are listed newest first. A copy that was taken
since the last change has the newest of them, and one that was taken before has an earlier one
(`IsCopy`). So a copy that is up to date equals the variable (`IsCopy.eq_newest`), and one that is
out of date differs from it unless a value has come back (`IsCopy.upToDate_of_newest`).
-/

set_option autoImplicit false
set_option relaxedAutoImplicit false

variable {Value : Type*} {values earlier : List Value} {upToDate : Bool} {copy value : Value}

/-- A copy of a variable that has had `values`, newest first: the newest of them when it is up to
date, and an earlier one otherwise. -/
def IsCopy (values : List Value) (upToDate : Bool) (copy : Value) : Prop :=
  if upToDate then values.head? = some copy else copy ∈ values.tail

namespace IsCopy

/-- A copy of the newest value is up to date. -/
theorem newest (value : Value) (earlier : List Value) : IsCopy (value :: earlier) true value :=
  rfl

theorem mem (hcopy : IsCopy values upToDate copy) : copy ∈ values := by
  cases upToDate with
  | true => exact List.mem_of_mem_head? hcopy
  | false => exact List.mem_of_mem_tail hcopy

/-- A change of the variable leaves every copy out of date. -/
theorem change (hcopy : IsCopy values upToDate copy) (value : Value) :
    IsCopy (value :: values) false copy :=
  hcopy.mem

/-- A copy that is up to date equals the variable. -/
theorem eq_newest (hcopy : IsCopy (value :: earlier) upToDate copy) (hupToDate : upToDate = true) :
    copy = value := by
  subst hupToDate
  exact (Option.some.inj hcopy).symm

/-- When no value comes back, a copy that equals the variable is up to date. -/
theorem upToDate_of_newest (hcopy : IsCopy (value :: earlier) upToDate value)
    (hdistinct : (value :: earlier).Nodup) : upToDate = true := by
  cases upToDate with
  | true => rfl
  | false => exact absurd hcopy (List.nodup_cons.mp hdistinct).1

end IsCopy
