import Mathlib.Algebra.Order.Round
import Mathlib.Data.Int.Log
import Mathlib.Tactic.FieldSimp
import Mathlib.Tactic.Linarith
import Mathlib.Tactic.NormNum
import Mathlib.Tactic.Positivity
import Mathlib.Tactic.Ring

/-!
# Rounding to a binary precision

`nearestEven` rounds to the nearest integer, and to the even one of two that are equally near.
`roundTo precision` rounds to the nearest number that has `precision` binary digits: it rounds the
multiple of the `quantum`, the distance of such numbers around the number. These are the roundings
of binary floating point as long as the exponent stays in the range of the format.

`roundTo_mono` says that rounding is monotone, `roundTo_eq_self` that numbers with few enough digits
stay, and `abs_sub_roundTo_le` that the error is half a quantum at most.
-/

set_option autoImplicit false
set_option relaxedAutoImplicit false

namespace BinaryRounding

variable {K : Type*} [Field K] [LinearOrder K] [IsStrictOrderedRing K] [FloorRing K]

/-! ### Rounding to an integer -/

/-- The nearest integer, and the even one of two. -/
def nearestEven (x : K) : ℤ :=
  if Int.fract x < 1 / 2 ∨ Int.fract x = 1 / 2 ∧ Even ⌊x⌋ then ⌊x⌋ else ⌊x⌋ + 1

omit [IsStrictOrderedRing K] in
theorem floor_le_nearestEven (x : K) : ⌊x⌋ ≤ nearestEven x := by
  unfold nearestEven
  split_ifs <;> omega

omit [IsStrictOrderedRing K] in
theorem nearestEven_le_floor_add_one (x : K) : nearestEven x ≤ ⌊x⌋ + 1 := by
  unfold nearestEven
  split_ifs <;> omega

theorem nearestEven_intCast (n : ℤ) : nearestEven (n : K) = n := by
  simp [nearestEven]

/-- Half-way above an even integer rounding goes down. -/
theorem nearestEven_add_half {n : ℤ} (heven : Even n) : nearestEven ((n : K) + 1 / 2) = n := by
  have hfloor : ⌊(n : K) + 1 / 2⌋ = n := by
    rw [Int.floor_intCast_add, Int.floor_eq_zero_iff.mpr ⟨by norm_num, by norm_num⟩, add_zero]
  have hfract : Int.fract ((n : K) + 1 / 2) = 1 / 2 := by
    rw [Int.fract, hfloor, add_sub_cancel_left]
  rw [nearestEven, hfloor, if_pos (Or.inr ⟨hfract, heven⟩)]

theorem nearestEven_mono {x y : K} (hxy : x ≤ y) : nearestEven x ≤ nearestEven y := by
  rcases (Int.floor_mono hxy).lt_or_eq with hlt | heq
  · calc nearestEven x ≤ ⌊x⌋ + 1 := nearestEven_le_floor_add_one x
      _ ≤ ⌊y⌋ := hlt
      _ ≤ nearestEven y := floor_le_nearestEven y
  · have hfract : Int.fract x ≤ Int.fract y := by
      rw [Int.fract, Int.fract, heq]
      exact sub_le_sub_right hxy _
    unfold nearestEven
    rw [heq]
    split_ifs with hx hy hy
    · exact le_refl _
    · omega
    · refine absurd ?_ hx
      rcases hy with hlow | ⟨htie, heven⟩
      · exact Or.inl (hfract.trans_lt hlow)
      · exact (hfract.trans_eq htie).lt_or_eq.imp_right fun h ↦ ⟨h, heven⟩
    · exact le_refl _

theorem abs_sub_nearestEven_le (x : K) : |x - nearestEven x| ≤ 1 / 2 := by
  have hfract : (⌊x⌋ : K) + Int.fract x = x := Int.floor_add_fract x
  have hnonneg := Int.fract_nonneg x
  have hlt := Int.fract_lt_one x
  unfold nearestEven
  rw [abs_le]
  split_ifs with hdown
  · have hhalf : Int.fract x ≤ 1 / 2 := hdown.elim le_of_lt fun h ↦ h.1.le
    constructor <;> linarith
  · have hhalf : 1 / 2 ≤ Int.fract x := not_lt.mp fun h ↦ hdown (Or.inl h)
    push_cast
    constructor <;> linarith

/-! ### Rounding to a precision -/

/-- The distance of the numbers with `precision` binary digits around a number. -/
def quantum (precision : ℕ) (x : K) : K :=
  2 ^ (Int.log 2 |x| + 1 - precision)

/-- The nearest number with `precision` binary digits. -/
def roundTo (precision : ℕ) (x : K) : K :=
  nearestEven (x / quantum precision x) * quantum precision x

variable {precision : ℕ} {x y : K}

theorem quantum_pos (precision : ℕ) (x : K) : 0 < quantum precision x :=
  zpow_pos two_pos _

/-- The exponent of a number between two powers of two. -/
theorem log_eq (exponent : ℤ) (hlow : 2 ^ exponent ≤ x) (hhigh : x < 2 ^ (exponent + 1)) :
    Int.log 2 x = exponent := by
  have hpos : 0 < x := (zpow_pos two_pos _).trans_le hlow
  refine le_antisymm ?_ ?_
  · refine Int.lt_add_one_iff.mp ((Int.lt_zpow_iff_log_lt one_lt_two hpos).mp ?_)
    exact_mod_cast hhigh
  · refine (Int.zpow_le_iff_le_log one_lt_two hpos).mp ?_
    exact_mod_cast hlow

theorem quantum_eq (exponent : ℤ) (hlow : 2 ^ exponent ≤ x) (hhigh : x < 2 ^ (exponent + 1)) :
    quantum precision x = 2 ^ (exponent + 1 - precision) := by
  have hpos : 0 < x := (zpow_pos two_pos _).trans_le hlow
  rw [quantum, abs_of_pos hpos, log_eq exponent hlow hhigh]

/-- Below a power of two the quantum is that of the numbers just below it, or less. -/
theorem quantum_le (exponent : ℤ) (hpos : 0 < x) (hhigh : x < 2 ^ exponent) :
    quantum precision x ≤ 2 ^ (exponent - precision) := by
  rw [quantum, abs_of_pos hpos]
  have hlog := (Int.lt_zpow_iff_log_lt one_lt_two hpos).mp (show x < ((2 : ℕ) : K) ^ exponent by
    exact_mod_cast hhigh)
  exact zpow_le_zpow_right₀ one_le_two (by omega)

/-- A multiple of its quantum stays. -/
theorem roundTo_eq_self {n : ℤ} (hx : x = n * quantum precision x) : roundTo precision x = x := by
  have hquotient : x / quantum precision x = n :=
    (div_eq_iff (quantum_pos precision x).ne').mpr hx
  rw [roundTo, hquotient, nearestEven_intCast, ← hx]

theorem abs_sub_roundTo_le (precision : ℕ) (x : K) :
    |x - roundTo precision x| ≤ quantum precision x / 2 := by
  have hquantum := quantum_pos precision x
  have hscaled : x - roundTo precision x =
      (x / quantum precision x - nearestEven (x / quantum precision x)) *
        quantum precision x := by
    rw [sub_mul, div_mul_cancel₀ x hquantum.ne', roundTo]
  rw [hscaled, abs_mul, abs_of_pos hquantum]
  calc |x / quantum precision x - nearestEven (x / quantum precision x)| * quantum precision x
      ≤ 1 / 2 * quantum precision x :=
        mul_le_mul_of_nonneg_right (abs_sub_nearestEven_le _) hquantum.le
    _ = quantum precision x / 2 := by ring

/-- The error relative to the number. -/
theorem abs_sub_roundTo_le_div (precision : ℕ) (hpos : 0 < x) :
    |x - roundTo precision x| ≤ x / 2 ^ precision := by
  have hlog : (2 : K) ^ Int.log 2 x ≤ x := by
    exact_mod_cast Int.zpow_log_le_self one_lt_two hpos
  calc |x - roundTo precision x| ≤ quantum precision x / 2 := abs_sub_roundTo_le precision x
    _ = 2 ^ Int.log 2 x / 2 ^ precision := by
        rw [quantum, abs_of_pos hpos, zpow_sub₀ two_ne_zero, zpow_add_one₀ two_ne_zero,
          zpow_natCast]
        field_simp
    _ ≤ x / 2 ^ precision := by gcongr

/-- The quantum of a number, `2 ^ k` times over, is a power of two. -/
theorem two_pow_mul_quantum (precision digits : ℕ) (hpos : 0 < x) :
    ((2 ^ digits : ℤ) : K) * quantum precision x =
      2 ^ (Int.log 2 x + 1 - precision + digits) := by
  rw [quantum, abs_of_pos hpos]
  push_cast
  rw [← zpow_natCast, ← zpow_add₀ two_ne_zero]
  congr 1
  omega

/-- Rounding stays below the next power of two. -/
theorem roundTo_le_zpow (hpos : 0 < x) :
    roundTo precision x ≤ 2 ^ (Int.log 2 x + 1) := by
  have hquantum := quantum_pos precision x
  have hpower := two_pow_mul_quantum precision precision hpos
  rw [sub_add_cancel] at hpower
  have hbelow : x / quantum precision x ≤ ((2 ^ precision : ℤ) : K) := by
    rw [div_le_iff₀ hquantum, hpower]
    exact_mod_cast (Int.lt_zpow_succ_log_self one_lt_two x).le
  have hrounded := nearestEven_mono hbelow
  rw [nearestEven_intCast] at hrounded
  rw [← hpower, roundTo]
  exact mul_le_mul_of_nonneg_right (by exact_mod_cast hrounded) hquantum.le

/-- Rounding stays above the last power of two. -/
theorem zpow_le_roundTo (hprecision : 1 ≤ precision) (hpos : 0 < x) :
    2 ^ Int.log 2 x ≤ roundTo precision x := by
  have hquantum := quantum_pos precision x
  have hpower := two_pow_mul_quantum precision (precision - 1) hpos
  rw [show Int.log 2 x + 1 - precision + ((precision - 1 : ℕ) : ℤ) = Int.log 2 x by omega] at hpower
  have habove : ((2 ^ (precision - 1) : ℤ) : K) ≤ x / quantum precision x := by
    rw [le_div_iff₀ hquantum, hpower]
    exact_mod_cast Int.zpow_log_le_self one_lt_two hpos
  have hrounded := nearestEven_mono habove
  rw [nearestEven_intCast] at hrounded
  rw [← hpower, roundTo]
  exact mul_le_mul_of_nonneg_right (by exact_mod_cast hrounded) hquantum.le

/-- A number from a power of two on is rounded to one from there on. -/
theorem zpow_le_roundTo_of_le (hprecision : 1 ≤ precision) (exponent : ℤ)
    (hle : 2 ^ exponent ≤ x) : 2 ^ exponent ≤ roundTo precision x := by
  have hpos : 0 < x := (zpow_pos two_pos _).trans_le hle
  have hlog : exponent ≤ Int.log 2 x := by
    refine (Int.zpow_le_iff_le_log one_lt_two hpos).mp ?_
    exact_mod_cast hle
  exact (zpow_le_zpow_right₀ one_le_two hlog).trans (zpow_le_roundTo hprecision hpos)

/-- Rounding of positive numbers is monotone. -/
theorem roundTo_mono (hprecision : 1 ≤ precision) (hpos : 0 < x) (hxy : x ≤ y) :
    roundTo precision x ≤ roundTo precision y := by
  have hpos' : 0 < y := hpos.trans_le hxy
  rcases (Int.log_mono_right hpos hxy : Int.log 2 x ≤ Int.log 2 y).lt_or_eq with hlt | heq
  · calc roundTo precision x ≤ 2 ^ (Int.log 2 x + 1) := roundTo_le_zpow hpos
      _ ≤ 2 ^ Int.log 2 y := zpow_le_zpow_right₀ one_le_two hlt
      _ ≤ roundTo precision y := zpow_le_roundTo hprecision hpos'
  · have hsame : quantum precision x = quantum precision y := by
      rw [quantum, quantum, abs_of_pos hpos, abs_of_pos hpos', heq]
    have hquantum := quantum_pos precision y
    have hrounded := nearestEven_mono (div_le_div_of_nonneg_right hxy hquantum.le)
    rw [roundTo, roundTo, hsame]
    exact mul_le_mul_of_nonneg_right (by exact_mod_cast hrounded) hquantum.le

end BinaryRounding
