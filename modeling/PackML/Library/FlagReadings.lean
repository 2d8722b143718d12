import Mathlib.Data.List.Forall2
import Mathlib.Data.List.Nodup

/-!
# Flags that are read one after the other

A memory holds a flag for each cell and may be written between two reads, so that the flags that a
reader has read need not be the contents of the memory at any moment. `history` lists the contents
that the memory has had, and a `Reading` notes which of them the flag was read from.

Where at most one flag is set at each moment, several may be seen set all the same, and also none.
But those that are seen set were set one after the other, in the order in which they were read
(`ReadInTurn.shown_sublist`), so that there is at most one more than the memory was written
(`ReadInTurn.length_shown_le`); and when it was not written, the reader sees what it holds
(`ReadInTurn.shown_of_unchanged`).
-/

set_option autoImplicit false
set_option relaxedAutoImplicit false

namespace FlagReadings

variable {Cell : Type*}

/-- A flag that was read, with the index of the contents it was read from. -/
structure Reading (Cell : Type*) where
  cell : Cell
  value : Bool
  moment : ℕ

/-- The cells whose flags were seen set, in the order of the readings. -/
def shown (readings : List (Reading Cell)) : List Cell :=
  (readings.filter (·.value)).map (·.cell)

theorem shown_cons (reading : Reading Cell) (readings : List (Reading Cell)) :
    shown (reading :: readings) =
      if reading.value then reading.cell :: shown readings else shown readings := by
  cases hvalue : reading.value <;> simp [shown, hvalue]

theorem mem_cells_of_mem_shown {readings : List (Reading Cell)} {cell : Cell}
    (hshown : cell ∈ shown readings) : cell ∈ readings.map (·.cell) := by
  obtain ⟨reading, hreading, rfl⟩ := List.mem_map.mp hshown
  exact List.mem_map_of_mem (List.mem_of_mem_filter hreading)

/-- At most one flag is set. -/
def AtMostOne (flags : Cell → Bool) : Prop :=
  ∀ cell other, flags cell = true → flags other = true → cell = other

/-- The flags were read from the contents of their moments, one after the other. -/
structure ReadInTurn (history : List (Cell → Bool)) (readings : List (Reading Cell)) : Prop where
  read : ∀ reading ∈ readings,
    history[reading.moment]?.map (fun flags ↦ flags reading.cell) = some reading.value
  ordered : readings.Pairwise fun earlier later ↦ earlier.moment ≤ later.moment

namespace ReadInTurn

variable {history : List (Cell → Bool)} {readings : List (Reading Cell)}

theorem nil : ReadInTurn history [] :=
  ⟨fun _ hreading ↦ absurd hreading List.not_mem_nil, List.Pairwise.nil⟩

theorem singleton {flags : Cell → Bool} {moment : ℕ} (hflags : history[moment]? = some flags)
    (cell : Cell) : ReadInTurn history [⟨cell, flags cell, moment⟩] := by
  refine ⟨fun reading hreading ↦ ?_, List.pairwise_singleton _ _⟩
  rw [List.mem_singleton.mp hreading, hflags]
  rfl

theorem tail {reading : Reading Cell} (hread : ReadInTurn history (reading :: readings)) :
    ReadInTurn history readings :=
  ⟨fun other hother ↦ hread.read other (List.mem_cons_of_mem _ hother),
    (List.pairwise_cons.mp hread.ordered).2⟩

theorem moment_lt (hread : ReadInTurn history readings) {reading : Reading Cell}
    (hreading : reading ∈ readings) : reading.moment < history.length := by
  obtain ⟨flags, hflags, -⟩ := Option.map_eq_some_iff.mp (hread.read reading hreading)
  exact (List.getElem?_eq_some_iff.mp hflags).1

/-- Readings stay true when the memory is written. -/
theorem write (hread : ReadInTurn history readings) (flags : Cell → Bool) :
    ReadInTurn (history ++ [flags]) readings := by
  refine ⟨fun reading hreading ↦ ?_, hread.ordered⟩
  rw [List.getElem?_append_left (hread.moment_lt hreading)]
  exact hread.read reading hreading

/-- Readings of later moments follow those of earlier ones. -/
theorem append {later : List (Reading Cell)} (hread : ReadInTurn history readings)
    (hlater : ReadInTurn history later)
    (hordered : ∀ reading ∈ readings, ∀ other ∈ later, reading.moment ≤ other.moment) :
    ReadInTurn history (readings ++ later) :=
  ⟨fun reading hreading ↦
      (List.mem_append.mp hreading).elim (hread.read reading) (hlater.read reading),
    List.pairwise_append.mpr ⟨hread.ordered, hlater.ordered, hordered⟩⟩

theorem sublist {part : List (Reading Cell)} (hread : ReadInTurn history readings)
    (hpart : part.Sublist readings) : ReadInTurn history part :=
  ⟨fun reading hreading ↦ hread.read reading (hpart.subset hreading), hread.ordered.sublist hpart⟩

/-- The cells that are seen set were set one after the other, in the order of the readings. -/
theorem shown_sublist (hread : ReadInTurn history readings)
    (hnodup : (readings.map (·.cell)).Nodup) {since : ℕ}
    (hone : ∀ flags ∈ history.drop since, AtMostOne flags)
    (hsince : ∀ reading ∈ readings, since ≤ reading.moment) :
    List.SublistForall₂ (fun cell flags ↦ flags cell = true) (shown readings)
      (history.drop since) := by
  induction readings generalizing since with
  | nil => exact .nil
  | cons reading rest ih =>
    obtain ⟨hfirst, -⟩ := List.pairwise_cons.mp hread.ordered
    rw [List.map_cons, List.nodup_cons] at hnodup
    have hlater : (history.drop reading.moment).Sublist (history.drop since) :=
      List.drop_sublist_drop_left _ (hsince reading List.mem_cons_self)
    have hrest := ih hread.tail hnodup.2 (fun flags hflags ↦ hone flags (hlater.subset hflags))
      hfirst
    obtain ⟨flags, hflags, hvalue⟩ :=
      Option.map_eq_some_iff.mp (hread.read reading List.mem_cons_self)
    obtain ⟨hlt, hget⟩ := List.getElem?_eq_some_iff.mp hflags
    have hdrop : history.drop reading.moment = flags :: history.drop (reading.moment + 1) := by
      rw [List.drop_eq_getElem_cons hlt, hget]
    rw [shown_cons]
    split
    · rename_i hset
      -- the contents of this moment show no cell that is read later
      have hbehind : List.SublistForall₂ (fun cell flags ↦ flags cell = true) (shown rest)
          (history.drop (reading.moment + 1)) := by
        rw [hdrop] at hrest
        generalize hcells : shown rest = cells at hrest
        cases hrest with
        | nil => exact .nil
        | cons hother _ =>
          have hmem := mem_cells_of_mem_shown (hcells ▸ List.mem_cons_self)
          rw [hone flags (hlater.subset (hdrop ▸ List.mem_cons_self)) _ _ hother
            (hvalue.trans hset)] at hmem
          exact absurd hmem hnodup.1
        | cons_right hbehind => exact hbehind
      have hhere : List.SublistForall₂ (fun cell flags ↦ flags cell = true)
          (reading.cell :: shown rest) (history.drop reading.moment) :=
        hdrop ▸ .cons (hvalue.trans hset) hbehind
      obtain ⟨contents, hcontents, hsublist⟩ := List.sublistForall₂_iff.mp hhere
      exact List.sublistForall₂_iff.mpr ⟨contents, hcontents,
        hsublist.trans hlater⟩
    · exact ih hread.tail hnodup.2 hone fun other hother ↦
        hsince other (List.mem_cons_of_mem _ hother)

/-- At most one cell more is seen set than the memory was written. -/
theorem length_shown_le (hread : ReadInTurn history readings)
    (hnodup : (readings.map (·.cell)).Nodup) {since : ℕ}
    (hone : ∀ flags ∈ history.drop since, AtMostOne flags)
    (hsince : ∀ reading ∈ readings, since ≤ reading.moment) :
    (shown readings).length ≤ history.length - since := by
  obtain ⟨contents, hcontents, hsublist⟩ :=
    List.sublistForall₂_iff.mp (hread.shown_sublist hnodup hone hsince)
  rw [hcontents.length_eq, ← List.length_drop]
  exact hsublist.length_le

/-- What is read while the memory is not written is what it holds. -/
theorem shown_of_unchanged (hread : ReadInTurn history readings) {moment : ℕ} {flags : Cell → Bool}
    (hflags : history[moment]? = some flags)
    (hmoment : ∀ reading ∈ readings, reading.moment = moment) :
    shown readings = (readings.map (·.cell)).filter flags := by
  rw [shown, List.filter_map]
  congr 1
  refine List.filter_congr fun reading hreading ↦ ?_
  have hvalue := hread.read reading hreading
  rw [hmoment reading hreading, hflags] at hvalue
  exact (Option.some.inj hvalue).symm

end ReadInTurn

end FlagReadings
