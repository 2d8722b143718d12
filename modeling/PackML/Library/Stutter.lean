import Mathlib.Data.List.Destutter

/-!
# What an observer of a changing value sees

An observer that is told the value of a variable now and then, and ignores a value that it was told
before, sees `List.destutter (· ≠ ·)` of what it is told: repetitions that follow each
other count once. Being told one more value adds it, unless it is the last one seen
(`destutter_concat`).

Someone who is told less sees no other values than one who is told more, and in the same order
(`destutter_mono`). So an observer that is told current values only sees values that the variable
has had, one after the other (`Sampled`), and when each value is told before it changes it sees them
all (`Covered`).
-/

set_option autoImplicit false
set_option relaxedAutoImplicit false

namespace Stutter

variable {Value : Type*}

/-- Values that do not end with the last value of a list come before it. -/
theorem concat_sublist {before values : List Value} {value : Value}
    (hbefore : before.Sublist values) (hlast : values.getLast? = some value)
    (hother : before.getLast? ≠ some value) : (before ++ [value]).Sublist values := by
  obtain ⟨front, rfl⟩ := List.getLast?_eq_some_iff.mp hlast
  obtain ⟨inFront, atEnd, rfl, hfront, hend⟩ := List.sublist_append_iff.mp hbefore
  rcases List.sublist_singleton.mp hend with rfl | rfl
  · rw [List.append_nil]
    exact hfront.append_right _
  · exact absurd List.getLast?_concat hother

/-- Where only one value is added, it is the last one, if any is added or it was the last before. -/
theorem getLast?_append_of_eq {told values : List Value} {value : Value}
    (hvalues : ∀ other ∈ values, other = value)
    (hlast : told.getLast? = some value ∨ values ≠ []) :
    (told ++ values).getLast? = some value := by
  rw [List.getLast?_append]
  cases hend : values.getLast? with
  | none => exact hlast.resolve_right (not_not.mpr (List.getLast?_eq_none_iff.mp hend))
  | some other => exact congrArg some (hvalues other (List.mem_of_getLast? hend))

/-! ### What is told and what is seen -/

variable [DecidableEq Value]

theorem destutter'_concat (first : Value) (values : List Value) (value : Value) :
    (values ++ [value]).destutter' (· ≠ ·) first =
      if (first :: values).getLast? = some value then values.destutter' (· ≠ ·) first
      else values.destutter' (· ≠ ·) first ++ [value] := by
  induction values generalizing first with
  | nil => by_cases hsame : first = value <;> simp [hsame]
  | cons second rest ih =>
    rw [List.cons_append, List.getLast?_cons_cons]
    by_cases hsame : first = second
    · rw [List.destutter'_cons_neg _ (not_not.mpr hsame),
        List.destutter'_cons_neg _ (not_not.mpr hsame), ih, hsame]
    · rw [List.destutter'_cons_pos _ hsame, List.destutter'_cons_pos _ hsame, ih]
      split
      · rfl
      · rfl

/-- One more value is seen unless it is the last one. -/
theorem destutter_concat (values : List Value) (value : Value) :
    (values ++ [value]).destutter (· ≠ ·) =
      if values.getLast? = some value then values.destutter (· ≠ ·)
      else values.destutter (· ≠ ·) ++ [value] := by
  cases values with
  | nil => rfl
  | cons first rest => exact destutter'_concat first rest value

theorem destutter_concat_same {values : List Value} {value : Value}
    (hlast : values.getLast? = some value) :
    (values ++ [value]).destutter (· ≠ ·) = values.destutter (· ≠ ·) := by
  rw [destutter_concat, if_pos hlast]

theorem destutter_concat_other {values : List Value} {value : Value}
    (hlast : values.getLast? ≠ some value) :
    (values ++ [value]).destutter (· ≠ ·) = values.destutter (· ≠ ·) ++ [value] := by
  rw [destutter_concat, if_neg hlast]

theorem destutter_concat_sublist (values : List Value) (value : Value) :
    ((values ++ [value]).destutter (· ≠ ·)).Sublist (values.destutter (· ≠ ·) ++ [value]) := by
  rw [destutter_concat]
  split
  · exact List.sublist_append_left _ _
  · exact List.Sublist.refl _

theorem destutter_prefix_concat (values : List Value) (value : Value) :
    values.destutter (· ≠ ·) <+: (values ++ [value]).destutter (· ≠ ·) := by
  rw [destutter_concat]
  split
  · exact List.prefix_rfl
  · exact List.prefix_append _ _

/-- What was seen stays seen when more is told. -/
theorem destutter_prefix_mono {values more : List Value} (hbegins : values <+: more) :
    values.destutter (· ≠ ·) <+: more.destutter (· ≠ ·) := by
  obtain ⟨rest, rfl⟩ := hbegins
  induction rest using List.reverseRecOn with
  | nil => simp only [List.append_nil, List.prefix_rfl]
  | append_singleton rest value ih =>
    rw [← List.append_assoc]
    exact ih.trans (destutter_prefix_concat _ value)

/-- The value seen last is the one told last. -/
theorem getLast?_destutter (values : List Value) :
    (values.destutter (· ≠ ·)).getLast? = values.getLast? := by
  induction values using List.reverseRecOn with
  | nil => rfl
  | append_singleton values value ih =>
    by_cases hlast : values.getLast? = some value
    · rw [destutter_concat_same hlast, ih, hlast, List.getLast?_concat]
    · rw [destutter_concat_other hlast, List.getLast?_concat, List.getLast?_concat]

/-- Values without repetitions that were told in this order are seen in this order. -/
theorem sublist_destutter_of_isChain {part values : List Value} (hchain : part.IsChain (· ≠ ·))
    (hpart : part.Sublist values) : part.Sublist (values.destutter (· ≠ ·)) := by
  induction values using List.reverseRecOn generalizing part with
  | nil => exact hpart
  | append_singleton values value ih =>
    obtain ⟨before, last, rfl, hbefore, hlast⟩ := List.sublist_append_iff.mp hpart
    rcases List.sublist_singleton.mp hlast with rfl | rfl
    · rw [List.append_nil] at hchain ⊢
      exact (ih hchain hbefore).trans (destutter_prefix_concat values value).sublist
    · obtain ⟨hbeforeChain, -, hjoint⟩ := List.isChain_append.mp hchain
      have hseen := ih hbeforeChain hbefore
      by_cases hsame : values.getLast? = some value
      · -- the last value seen is this one, so the others were seen before it
        rw [destutter_concat_same hsame]
        refine concat_sublist hseen ((getLast?_destutter values).trans hsame) fun hends ↦ ?_
        exact hjoint value hends value rfl rfl
      · rw [destutter_concat_other hsame]
        exact hseen.append_right _

/-- Who is told less sees less, in the same order. -/
theorem destutter_mono {part values : List Value} (hpart : part.Sublist values) :
    (part.destutter (· ≠ ·)).Sublist (values.destutter (· ≠ ·)) :=
  sublist_destutter_of_isChain (List.isChain_destutter _ _)
    ((List.destutter_sublist _ _).trans hpart)

/-- What is told before a last value decides what is seen of it. -/
theorem destutter_concat_congr {values others : List Value}
    (hsame : values.destutter (· ≠ ·) = others.destutter (· ≠ ·)) (value : Value) :
    (values ++ [value]).destutter (· ≠ ·) = (others ++ [value]).destutter (· ≠ ·) := by
  rw [destutter_concat, destutter_concat, ← getLast?_destutter values, hsame,
    getLast?_destutter others]

/-! ### Being told of a variable -/

variable {history told : List Value} {current : Value}

/-- What was told, and the current value, show values of the history, one after the other. -/
def Sampled (history told : List Value) (current : Value) : Prop :=
  ((told ++ [current]).destutter (· ≠ ·)).Sublist history

/-- What was told, and the current value, show the history. -/
def Covered (history told : List Value) (current : Value) : Prop :=
  (told ++ [current]).destutter (· ≠ ·) = history.destutter (· ≠ ·)

/-- Telling the current value again does not show anything new. -/
theorem destutter_concat_current {values : List Value}
    (hvalues : ∀ value ∈ values, value = current) :
    (told ++ values ++ [current]).destutter (· ≠ ·) = (told ++ [current]).destutter (· ≠ ·) := by
  induction values using List.reverseRecOn with
  | nil => rw [List.append_nil]
  | append_singleton values value ih =>
    obtain rfl := hvalues value (List.mem_append_right _ List.mem_cons_self)
    rw [← List.append_assoc, destutter_concat_same List.getLast?_concat]
    exact ih fun other hother ↦ hvalues other (List.mem_append_left _ hother)

/-- The current value is told. -/
theorem Sampled.tell (hsampled : Sampled history told current) {values : List Value}
    (hvalues : ∀ value ∈ values, value = current) : Sampled history (told ++ values) current := by
  rw [Sampled, destutter_concat_current hvalues]
  exact hsampled

/-- The variable changes. -/
theorem Sampled.change (hsampled : Sampled history told current) (value : Value) :
    Sampled (history ++ [value]) told value := by
  have htold := (destutter_prefix_concat told current).sublist.trans hsampled
  exact (destutter_concat_sublist told value).trans (htold.append_right [value])

theorem Sampled.seen (hsampled : Sampled history told current) {part : List Value}
    (hpart : part.Sublist told) : (part.destutter (· ≠ ·)).Sublist history :=
  (destutter_mono hpart).trans ((destutter_prefix_concat told current).sublist.trans hsampled)

theorem Covered.sampled (hcovered : Covered history told current) :
    Sampled history told current := by
  rw [Sampled, show _ = _ from hcovered]
  exact List.destutter_sublist _ _

theorem Covered.tell (hcovered : Covered history told current) {values : List Value}
    (hvalues : ∀ value ∈ values, value = current) : Covered history (told ++ values) current := by
  rw [Covered, destutter_concat_current hvalues]
  exact hcovered

theorem Covered.seen (hcovered : Covered history told current)
    (htold : told.getLast? = some current) :
    told.destutter (· ≠ ·) = history.destutter (· ≠ ·) := by
  rw [← destutter_concat_same htold]
  exact hcovered

/-- What was told first shows the beginning of the history. -/
theorem Covered.prefix_seen (hcovered : Covered history told current) {part : List Value}
    (hpart : part <+: told) : part.destutter (· ≠ ·) <+: history.destutter (· ≠ ·) := by
  have hseen := destutter_prefix_mono (hpart.trans (List.prefix_append told [current]))
  rwa [show _ = _ from hcovered] at hseen

/-- The variable changes after its value was told. -/
theorem Covered.change (hcovered : Covered history told current)
    (htold : told.getLast? = some current) (value : Value) :
    Covered (history ++ [value]) told value :=
  destutter_concat_congr (hcovered.seen htold) value

end Stutter
