import Mathlib.Algebra.Order.Field.Power
import Mathlib.Data.Int.Log
import Mathlib.Data.Rat.Floor
import Mathlib.Data.Nat.Sqrt
import Mathlib.Tactic.Linarith
import Mathlib.Tactic.FieldSimp
import Mathlib.Tactic.Positivity

/-!
# Round-to-nearest-even binary floating point over `ℚ`

A binary floating-point format is given by its precision and the exponent of its smallest
subnormal. A finite float is the rational number it denotes, and an arithmetic operation is the
exact operation followed by `Format.round`, which is the rule of IEEE 754 for the default rounding
mode. Signed zeros are identified, and infinities and NaN are absent: the programs this library
serves clamp their inputs and guard their divisions.

The one law that clients need is that rounding is monotone (`Format.round_mono`); from it follow
the sign of a rounded value and the order of rounded products and quotients.
-/

namespace LibApta.Rounding

/-- The nearest integer, ties to the even one. -/
def roundEven (x : ℚ) : ℤ :=
  if x - ⌊x⌋ < 1 / 2 then ⌊x⌋
  else if 1 / 2 < x - ⌊x⌋ then ⌊x⌋ + 1
  else if ⌊x⌋ % 2 = 0 then ⌊x⌋ else ⌊x⌋ + 1

/-- `roundEven` never leaves the interval between the floor and its successor. -/
theorem floor_le_roundEven (x : ℚ) : ⌊x⌋ ≤ roundEven x := by
  unfold roundEven
  split_ifs <;> omega

/-- `roundEven` never exceeds the successor of the floor. -/
theorem roundEven_le_floor_succ (x : ℚ) : roundEven x ≤ ⌊x⌋ + 1 := by
  unfold roundEven
  split_ifs <;> omega

/-- An integer rounds to itself. -/
@[simp] theorem roundEven_intCast (n : ℤ) : roundEven (n : ℚ) = n := by
  simp [roundEven]

/-- Rounding to the nearest integer is monotone. -/
theorem roundEven_mono {x y : ℚ} (hxy : x ≤ y) : roundEven x ≤ roundEven y := by
  rcases (Int.floor_le_floor hxy).lt_or_eq with hlt | heq
  · have hx := roundEven_le_floor_succ x
    have hy := floor_le_roundEven y
    omega
  · -- Same floor: the fractional parts are ordered, and so are the branches they select.
    unfold roundEven
    rw [heq]
    split_ifs <;> first | omega | (exfalso; linarith)

/-- An integer below a rational is below its rounding. -/
theorem le_roundEven {n : ℤ} {x : ℚ} (h : (n : ℚ) ≤ x) : n ≤ roundEven x := by
  simpa using roundEven_mono h

/-- An integer above a rational is above its rounding. -/
theorem roundEven_le {n : ℤ} {x : ℚ} (h : x ≤ n) : roundEven x ≤ n := by
  simpa using roundEven_mono h

/-- A binary floating-point format: `precision` significant bits, and values that are multiples of
`2 ^ minExponent`. -/
structure Format where
  precision : ℕ
  minExponent : ℤ
  precision_pos : 0 < precision

/-- IEEE 754 binary32. -/
def binary32 : Format := ⟨24, -149, by decide⟩

/-- IEEE 754 binary64. -/
def binary64 : Format := ⟨53, -1074, by decide⟩

namespace Format

variable (fmt : Format)

/-- The exponent of the unit in the last place of a magnitude. -/
def ulpExponent (x : ℚ) : ℤ := max (Int.log 2 x - (fmt.precision - 1 : ℤ)) fmt.minExponent

/-- Round a magnitude to the format. -/
def roundMagnitude (x : ℚ) : ℚ :=
  roundEven (x / 2 ^ fmt.ulpExponent x) * 2 ^ fmt.ulpExponent x

/-- Round a rational to the format, to nearest with ties to even. -/
def round (x : ℚ) : ℚ := if x < 0 then -fmt.roundMagnitude (-x) else fmt.roundMagnitude x

/-- The correctly rounded square root of a non-negative rational. -/
def sqrt (x : ℚ) : ℚ :=
  let e := max (Int.log 2 x / 2 - (fmt.precision - 1 : ℤ)) fmt.minExponent
  let scaled := x / 4 ^ e
  let root := Nat.sqrt ⌊scaled⌋₊
  let nearest :=
    if 4 * scaled < (2 * root + 1) ^ 2 then root
    else if ((2 * root + 1 : ℕ) : ℚ) ^ 2 < 4 * scaled then root + 1
    else if root % 2 = 0 then root else root + 1
  nearest * 2 ^ e

/-- Zero is exact. -/
@[simp] theorem roundMagnitude_zero : fmt.roundMagnitude 0 = 0 := by
  have h : roundEven 0 = 0 := by simpa using roundEven_intCast 0
  simp [roundMagnitude, h]

/-- The rounding of a magnitude is a magnitude. -/
theorem roundMagnitude_nonneg {x : ℚ} (hx : 0 ≤ x) : 0 ≤ fmt.roundMagnitude x := by
  unfold roundMagnitude
  have hq : ((0 : ℤ) : ℚ) ≤ x / 2 ^ fmt.ulpExponent x := by
    simpa using div_nonneg hx (by positivity)
  have hr : (0 : ℚ) ≤ (roundEven (x / 2 ^ fmt.ulpExponent x) : ℤ) := by
    exact_mod_cast le_roundEven hq
  exact mul_nonneg hr (by positivity)

/-- A power of two that is a multiple of the unit in the last place bounds the rounding of what
lies below it. -/
private theorem roundMagnitude_le_zpow {x : ℚ} {k : ℤ} (hk : fmt.ulpExponent x ≤ k)
    (hx : x ≤ 2 ^ k) : fmt.roundMagnitude x ≤ 2 ^ k := by
  obtain ⟨d, hd⟩ := Int.le.dest hk
  have hsplit : (2 : ℚ) ^ k = 2 ^ d * 2 ^ fmt.ulpExponent x := by
    rw [← hd, zpow_add₀ (by norm_num), zpow_natCast, mul_comm]
  have hq : x / 2 ^ fmt.ulpExponent x ≤ ((2 ^ d : ℤ) : ℚ) := by
    rw [div_le_iff₀ (by positivity)]
    push_cast
    rw [← hsplit]
    exact hx
  have hr : ((roundEven (x / 2 ^ fmt.ulpExponent x) : ℤ) : ℚ) ≤ 2 ^ d := by
    exact_mod_cast roundEven_le hq
  unfold roundMagnitude
  rw [hsplit]
  exact mul_le_mul_of_nonneg_right hr (by positivity)

/-- A power of two that is a multiple of the unit in the last place bounds the rounding of what
lies above it. -/
private theorem zpow_le_roundMagnitude {x : ℚ} {k : ℤ} (hk : fmt.ulpExponent x ≤ k)
    (hx : 2 ^ k ≤ x) : 2 ^ k ≤ fmt.roundMagnitude x := by
  obtain ⟨d, hd⟩ := Int.le.dest hk
  have hsplit : (2 : ℚ) ^ k = 2 ^ d * 2 ^ fmt.ulpExponent x := by
    rw [← hd, zpow_add₀ (by norm_num), zpow_natCast, mul_comm]
  have hq : ((2 ^ d : ℤ) : ℚ) ≤ x / 2 ^ fmt.ulpExponent x := by
    rw [le_div_iff₀ (by positivity)]
    push_cast
    rw [← hsplit]
    exact hx
  have hr : (2 : ℚ) ^ d ≤ ((roundEven (x / 2 ^ fmt.ulpExponent x) : ℤ) : ℚ) := by
    exact_mod_cast le_roundEven hq
  unfold roundMagnitude
  rw [hsplit]
  exact mul_le_mul_of_nonneg_right hr (by positivity)

/-- Rounding of magnitudes is monotone. -/
theorem roundMagnitude_mono {x y : ℚ} (hx : 0 ≤ x) (hxy : x ≤ y) :
    fmt.roundMagnitude x ≤ fmt.roundMagnitude y := by
  rcases hx.eq_or_lt with rfl | hpos
  · rw [roundMagnitude_zero]
    exact fmt.roundMagnitude_nonneg hxy
  have hlog := Int.log_mono_right (b := 2) hpos hxy
  have hexp : fmt.ulpExponent x ≤ fmt.ulpExponent y := by
    unfold ulpExponent
    omega
  rcases hexp.lt_or_eq with hlt | heq
  · -- The binade of `y` is a higher one: its lower end separates the two roundings.
    have hprec := fmt.precision_pos
    have hsep : fmt.ulpExponent y ≤ Int.log 2 y ∧ Int.log 2 x < Int.log 2 y := by
      unfold ulpExponent at hlt ⊢
      omega
    have hyle : (2 : ℚ) ^ Int.log 2 y ≤ y := by
      exact_mod_cast Int.zpow_log_le_self (b := 2) (by norm_num) (hpos.trans_le hxy)
    have hxlt : x < (2 : ℚ) ^ (Int.log 2 x + 1) := by
      exact_mod_cast Int.lt_zpow_succ_log_self (b := 2) (by norm_num) x
    have hxle : x ≤ (2 : ℚ) ^ Int.log 2 y :=
      hxlt.le.trans (zpow_le_zpow_right₀ (by norm_num) (by omega))
    exact (fmt.roundMagnitude_le_zpow (by omega) hxle).trans
      (fmt.zpow_le_roundMagnitude hsep.1 hyle)
  · unfold roundMagnitude
    rw [heq]
    have hq : x / 2 ^ fmt.ulpExponent y ≤ y / 2 ^ fmt.ulpExponent y :=
      div_le_div_of_nonneg_right hxy (by positivity)
    have hr : ((roundEven (x / 2 ^ fmt.ulpExponent y) : ℤ) : ℚ) ≤
        (roundEven (y / 2 ^ fmt.ulpExponent y) : ℤ) := by
      exact_mod_cast roundEven_mono hq
    exact mul_le_mul_of_nonneg_right hr (by positivity)

/-- Rounding to a format is monotone. -/
theorem round_mono {x y : ℚ} (hxy : x ≤ y) : fmt.round x ≤ fmt.round y := by
  unfold round
  split_ifs with hx hy hy
  · exact neg_le_neg (fmt.roundMagnitude_mono (by linarith) (by linarith))
  · have h₁ := fmt.roundMagnitude_nonneg (x := -x) (by linarith)
    have h₂ := fmt.roundMagnitude_nonneg (x := y) (by linarith)
    linarith
  · linarith
  · exact fmt.roundMagnitude_mono (by linarith) hxy

@[simp] theorem round_zero : fmt.round 0 = 0 := by simp [round]

/-- A non-negative value rounds to a non-negative one. -/
theorem round_nonneg {x : ℚ} (hx : 0 ≤ x) : 0 ≤ fmt.round x := by
  simpa using fmt.round_mono hx

end Format

end LibApta.Rounding
