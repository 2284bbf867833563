import LibApta.Lib.Rounding
import Mathlib.Tactic.Ring

/-!
# Error bounds for rounding

A rounding errs by at most half a unit in the last place. The bounds are absolute: `2 ^ k` is a unit
that the format does not exceed below `2 ^ (k + precision)`, so a client bounds the magnitude of its
operands once and adds up powers of two.
-/

namespace LibApta.Rounding

/-! ## The nearest integer -/

/-- The nearest integer is within one half. -/
theorem abs_roundEven_sub_le (x : ℚ) : |(roundEven x : ℚ) - x| ≤ 1 / 2 := by
  have hfloor := Int.floor_le x
  have hsucc := Int.lt_floor_add_one x
  rw [abs_le]
  unfold roundEven
  split_ifs <;> push_cast <;> constructor <;> linarith

/-- What is closer than one half to an integer rounds to it. -/
theorem roundEven_eq {n : ℤ} {x : ℚ} (h : |x - n| < 1 / 2) : roundEven x = n := by
  have herror := abs_le.mp (abs_roundEven_sub_le x)
  obtain ⟨hlow, hhigh⟩ := abs_lt.mp h
  have hbelow : (roundEven x : ℚ) < n + 1 := by linarith
  have habove : (n : ℚ) - 1 < roundEven x := by linarith
  have hbelow' : roundEven x < n + 1 := by exact_mod_cast hbelow
  have habove' : n - 1 < roundEven x := by exact_mod_cast habove
  omega

namespace Format

variable (fmt : Format)

/-! ## Rounding -/

theorem abs_roundMagnitude_sub_le (x : ℚ) :
    |fmt.roundMagnitude x - x| ≤ 2 ^ fmt.ulpExponent x / 2 := by
  have hpos : (0 : ℚ) < 2 ^ fmt.ulpExponent x := by positivity
  have hsplit : fmt.roundMagnitude x - x =
      (roundEven (x / 2 ^ fmt.ulpExponent x) - x / 2 ^ fmt.ulpExponent x) *
        2 ^ fmt.ulpExponent x := by
    unfold roundMagnitude
    rw [sub_mul, div_mul_cancel₀ _ hpos.ne']
  rw [hsplit, abs_mul, abs_of_pos hpos]
  calc |(roundEven (x / 2 ^ fmt.ulpExponent x) : ℚ) - x / 2 ^ fmt.ulpExponent x| *
        2 ^ fmt.ulpExponent x
      ≤ 1 / 2 * 2 ^ fmt.ulpExponent x :=
        mul_le_mul_of_nonneg_right (abs_roundEven_sub_le _) hpos.le
    _ = 2 ^ fmt.ulpExponent x / 2 := by ring

/-- The binary logarithm of what lies below a power of two. -/
private theorem log_lt {x : ℚ} {k : ℤ} (hpos : 0 < x) (hx : x < 2 ^ k) : Int.log 2 x < k := by
  have hle : (2 : ℚ) ^ Int.log 2 x ≤ x := by
    exact_mod_cast Int.zpow_log_le_self (b := 2) (by norm_num) hpos
  exact (zpow_lt_zpow_iff_right₀ (by norm_num : (1 : ℚ) < 2)).mp (hle.trans_lt hx)

theorem ulpExponent_le {x : ℚ} {k : ℤ} (hk : fmt.minExponent ≤ k) (hpos : 0 < x)
    (hx : x < 2 ^ (k + fmt.precision)) : fmt.ulpExponent x ≤ k := by
  have hlog := log_lt hpos hx
  unfold ulpExponent
  omega

private theorem abs_roundMagnitude_sub_le' {x : ℚ} {k : ℤ} (hk : fmt.minExponent ≤ k) (hx : 0 ≤ x)
    (hlt : x < 2 ^ (k + fmt.precision)) : |fmt.roundMagnitude x - x| ≤ 2 ^ k / 2 := by
  rcases hx.eq_or_lt with rfl | hpos
  · rw [roundMagnitude_zero, sub_zero, abs_zero]
    positivity
  · have hulp := fmt.ulpExponent_le hk hpos hlt
    have hunit : (2 : ℚ) ^ fmt.ulpExponent x ≤ 2 ^ k := zpow_le_zpow_right₀ (by norm_num) hulp
    exact (fmt.abs_roundMagnitude_sub_le x).trans (by linarith)

/-- Rounding errs by at most half a unit. -/
theorem abs_round_sub_le {x : ℚ} (k : ℤ) (hk : fmt.minExponent ≤ k)
    (hx : |x| < 2 ^ (k + fmt.precision)) : |fmt.round x - x| ≤ 2 ^ k / 2 := by
  unfold round
  split_ifs with hneg
  · rw [abs_of_neg hneg] at hx
    have h := fmt.abs_roundMagnitude_sub_le' hk (neg_nonneg.mpr hneg.le) hx
    rwa [← abs_neg, neg_sub, sub_neg_eq_add, add_comm, ← sub_neg_eq_add] 
  · rw [abs_of_nonneg (not_lt.mp hneg)] at hx
    exact fmt.abs_roundMagnitude_sub_le' hk (not_lt.mp hneg) hx

/-- A natural number within the precision is exact. -/
theorem round_natCast {n : ℕ} (hmin : fmt.minExponent ≤ 0) (hn : n < 2 ^ fmt.precision) :
    fmt.round n = n := by
  have hnonneg : ¬ (n : ℚ) < 0 := not_lt.mpr (Nat.cast_nonneg n)
  rw [round, if_neg hnonneg]
  rcases Nat.eq_zero_or_pos n with rfl | hpos
  · rw [Nat.cast_zero, roundMagnitude_zero]
  have hlt : (n : ℚ) < 2 ^ ((0 : ℤ) + fmt.precision) := by
    rw [zero_add, zpow_natCast]
    exact_mod_cast hn
  -- The unit is the inverse of a power of two, so the number is a multiple of it.
  obtain ⟨d, hd⟩ := Int.le.dest (fmt.ulpExponent_le hmin (Nat.cast_pos.mpr hpos) hlt)
  have hunit : (2 : ℚ) ^ fmt.ulpExponent n * 2 ^ d = 1 := by
    rw [← zpow_natCast, ← zpow_add₀ (by norm_num), hd, zpow_zero]
  have hquotient : (n : ℚ) / 2 ^ fmt.ulpExponent n = ((n * 2 ^ d : ℤ) : ℚ) := by
    rw [div_eq_iff (by positivity)]
    push_cast
    rw [mul_assoc, mul_comm (2 ^ d), hunit, mul_one]
  rw [roundMagnitude, hquotient, roundEven_intCast]
  push_cast
  rw [mul_assoc, mul_comm (2 ^ d), hunit, mul_one]

/-! ## Square roots -/

/-- The exponent of the unit of a square root. -/
def sqrtExponent (x : ℚ) : ℤ := max (Int.log 2 x / 2 - (fmt.precision - 1 : ℤ)) fmt.minExponent

theorem sqrtExponent_le {x : ℚ} {k : ℤ} (hk : fmt.minExponent ≤ k) (hprec : 1 - fmt.precision ≤ k)
    (hx : 0 ≤ x) (hlt : x < 4 ^ (k + fmt.precision)) : fmt.sqrtExponent x ≤ k := by
  have hfour : (4 : ℚ) ^ (k + fmt.precision) = 2 ^ (2 * (k + fmt.precision)) := by
    rw [zpow_mul]
    norm_num
  unfold sqrtExponent
  rcases hx.eq_or_lt with rfl | hpos
  · rw [Int.log_zero_right]
    omega
  · have hlog := log_lt hpos (hfour ▸ hlt)
    omega

/-- The integer nearest to a square root, as `sqrt` finds it. -/
def nearestRoot (x : ℚ) : ℕ :=
  let root := Nat.sqrt ⌊x⌋₊
  if 4 * x < (2 * root + 1) ^ 2 then root
  else if ((2 * root + 1 : ℕ) : ℚ) ^ 2 < 4 * x then root + 1
  else if root % 2 = 0 then root else root + 1

theorem sqrt_eq (x : ℚ) :
    fmt.sqrt x = nearestRoot (x / 4 ^ fmt.sqrtExponent x) * 2 ^ fmt.sqrtExponent x := rfl

/-- The nearest integer lies between the roots of its neighbours' midpoints. -/
theorem nearestRoot_bracket {x : ℚ} (hx : 0 ≤ x) :
    (nearestRoot x = 0 ∨ (2 * nearestRoot x - 1 : ℚ) ^ 2 ≤ 4 * x) ∧
      4 * x ≤ (2 * nearestRoot x + 1 : ℚ) ^ 2 := by
  have hroot : ((Nat.sqrt ⌊x⌋₊ : ℕ) : ℚ) ^ 2 ≤ x := by
    refine le_trans ?_ (Nat.floor_le hx)
    exact_mod_cast Nat.sqrt_le' _
  have hnext : x < ((Nat.sqrt ⌊x⌋₊ : ℕ) + 1 : ℚ) ^ 2 := by
    refine (Nat.lt_floor_add_one x).trans_le ?_
    exact_mod_cast Nat.lt_succ_sqrt' ⌊x⌋₊
  unfold nearestRoot
  simp only
  generalize Nat.sqrt ⌊x⌋₊ = root at hroot hnext ⊢
  have hnonneg : (0 : ℚ) ≤ root := Nat.cast_nonneg root
  -- Below the midpoint the root stands, above it the successor does.
  have hstay : 4 * x ≤ (2 * root + 1 : ℚ) ^ 2 →
      (root = 0 ∨ (2 * root - 1 : ℚ) ^ 2 ≤ 4 * x) ∧ 4 * x ≤ (2 * root + 1 : ℚ) ^ 2 := by
    intro hbelow
    refine ⟨?_, hbelow⟩
    rcases Nat.eq_zero_or_pos root with hzero | hpos
    · exact .inl hzero
    · have hone : (1 : ℚ) ≤ root := by exact_mod_cast hpos
      exact .inr (by nlinarith)
  have hmove : (2 * root + 1 : ℚ) ^ 2 ≤ 4 * x →
      (root + 1 = 0 ∨ (2 * ((root + 1 : ℕ) : ℚ) - 1) ^ 2 ≤ 4 * x) ∧
        4 * x ≤ (2 * ((root + 1 : ℕ) : ℚ) + 1) ^ 2 := by
    intro habove
    push_cast
    exact ⟨.inr (by nlinarith), by nlinarith⟩
  push_cast
  split_ifs with hbelow habove
  · exact hstay hbelow.le
  · exact_mod_cast hmove habove.le
  · exact hstay (not_lt.mp habove)
  · exact_mod_cast hmove (not_lt.mp hbelow)

/-- A square root is a multiple of its unit between the roots of its neighbours' midpoints. -/
theorem sqrt_bracket {x : ℚ} (hx : 0 ≤ x) :
    ∃ n : ℕ, fmt.sqrt x = n * 2 ^ fmt.sqrtExponent x ∧
      (n = 0 ∨ ((2 * n - 1) * 2 ^ fmt.sqrtExponent x) ^ 2 ≤ 4 * x) ∧
      4 * x ≤ ((2 * n + 1) * 2 ^ fmt.sqrtExponent x) ^ 2 := by
  refine ⟨_, fmt.sqrt_eq x, ?_⟩
  generalize fmt.sqrtExponent x = e
  have hfour : (0 : ℚ) < 4 ^ e := by positivity
  have hsquare : ∀ a : ℚ, (a * 2 ^ e) ^ 2 = a ^ 2 * 4 ^ e := by
    intro a
    rw [mul_pow, ← zpow_natCast ((2 : ℚ) ^ e), ← zpow_mul, mul_comm e, zpow_mul]
    norm_num
  have hx4 : 4 * x = 4 * (x / 4 ^ e) * 4 ^ e := by
    rw [mul_assoc, div_mul_cancel₀ _ hfour.ne']
  obtain ⟨hlow, hhigh⟩ := nearestRoot_bracket (div_nonneg hx hfour.le)
  rw [hsquare, hsquare, hx4]
  exact ⟨hlow.imp_right fun h => mul_le_mul_of_nonneg_right h hfour.le,
    mul_le_mul_of_nonneg_right hhigh hfour.le⟩

theorem sqrt_nonneg (x : ℚ) : 0 ≤ fmt.sqrt x := by
  rw [sqrt_eq]
  positivity

/-- A square root exceeds no root of a larger square by more than half a unit. -/
theorem sqrt_le {x y : ℚ} (k : ℤ) (hk : fmt.sqrtExponent x ≤ k) (hx : 0 ≤ x) (hy : 0 ≤ y)
    (h : x ≤ y ^ 2) : fmt.sqrt x ≤ y + 2 ^ k / 2 := by
  obtain ⟨n, heq, hlow, -⟩ := fmt.sqrt_bracket hx
  have hunit : (2 : ℚ) ^ fmt.sqrtExponent x ≤ 2 ^ k := zpow_le_zpow_right₀ (by norm_num) hk
  have hpos : (0 : ℚ) < 2 ^ k := by positivity
  rw [heq]
  rcases hlow with rfl | hlow
  · rw [Nat.cast_zero, zero_mul]
    linarith
  · have hroot : (2 * n - 1) * 2 ^ fmt.sqrtExponent x ≤ 2 * y :=
      le_of_sq_le_sq (by linarith) (by linarith)
    linarith

/-- A square root falls short of no root of a smaller square by more than half a unit. -/
theorem le_sqrt {x y : ℚ} (k : ℤ) (hk : fmt.sqrtExponent x ≤ k) (hx : 0 ≤ x) (h : y ^ 2 ≤ x) :
    y ≤ fmt.sqrt x + 2 ^ k / 2 := by
  obtain ⟨n, heq, -, hhigh⟩ := fmt.sqrt_bracket hx
  have hunit : (2 : ℚ) ^ fmt.sqrtExponent x ≤ 2 ^ k := zpow_le_zpow_right₀ (by norm_num) hk
  have hpos : (0 : ℚ) < 2 ^ fmt.sqrtExponent x := by positivity
  have hroot : 2 * y ≤ (2 * n + 1) * 2 ^ fmt.sqrtExponent x :=
    le_of_sq_le_sq (by linarith) (by positivity)
  rw [heq]
  linarith

end Format

end LibApta.Rounding
