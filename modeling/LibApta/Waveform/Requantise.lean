import LibApta.Lib.RoundingError
import LibApta.Waveform.Snapshot

/-!
# Quantising what was dequantised

Seeding turns the integers of a parsed column back into the numbers an accumulator holds, and the next
snapshot quantises them again. The root mean square comes back exactly; a peak comes back within one
count, and the count is off only at the most negative peak but one.
-/

namespace LibApta

open Rounding

/-! ## Errors of the two formats -/

theorem abs_f32_sub_le {x : ℚ} (k : ℤ) (hk : -149 ≤ k) (hx : |x| < 2 ^ (k + 24)) :
    |f32 x - x| ≤ 2 ^ k / 2 :=
  binary32.abs_round_sub_le k hk hx

theorem abs_f64_sub_le {x : ℚ} (k : ℤ) (hk : -1074 ≤ k) (hx : |x| < 2 ^ (k + 53)) :
    |f64 x - x| ≤ 2 ^ k / 2 :=
  binary64.abs_round_sub_le k hk hx

theorem f32_natCast {n : ℕ} (hn : n < 2 ^ 24) : f32 n = n :=
  binary32.round_natCast (by decide) hn

theorem f64_natCast {n : ℕ} (hn : n < 2 ^ 53) : f64 n = n :=
  binary64.round_natCast (by decide) hn

/-! ## Peaks -/

/-- A peak survives the round trip to within one count. -/
theorem abs_quantizePeak_sub_le {peak : ℤ} (hlow : -32768 ≤ peak) (hhigh : peak ≤ 32767) :
    |quantizePeak (fdiv peak 32767) - peak| ≤ 1 := by
  have hlow' : (-32768 : ℚ) ≤ peak := by exact_mod_cast hlow
  have hhigh' : (peak : ℚ) ≤ 32767 := by exact_mod_cast hhigh
  have hsize : |(peak : ℚ) / 32767| < 2 ^ ((-23 : ℤ) + 24) := by
    rw [abs_lt]
    constructor <;> norm_num <;> linarith
  have hfloat := abs_le.mp (abs_f32_sub_le (-23) (by norm_num) hsize)
  unfold fdiv
  generalize f32 ((peak : ℚ) / 32767) = value at hfloat ⊢
  norm_num at hfloat
  rw [abs_le]
  unfold quantizePeak
  split_ifs with hbottom htop
  · -- Full scale below: the peak is one of the last two.
    have hpeak : (peak : ℚ) < -32766 := by linarith
    have hpeak' : peak < -32766 := by exact_mod_cast hpeak
    omega
  · have hpeak : (32766 : ℚ) < peak := by linarith
    have hpeak' : 32766 < peak := by exact_mod_cast hpeak
    omega
  · have hproduct : |value * 32767| < 2 ^ ((-37 : ℤ) + 53) := by
      rw [abs_lt]
      constructor <;> norm_num <;> linarith
    have hdouble := abs_le.mp (abs_f64_sub_le (-37) (by norm_num) hproduct)
    norm_num at hdouble
    have hnear : roundEven (f64 (value * 32767)) = peak := by
      apply roundEven_eq
      rw [abs_lt]
      constructor <;> linarith
    rw [hnear]
    omega

/-! ## Root mean square -/

/-- The magnitude that seeding squares for a quantised root mean square. -/
def seededMagnitude (rms : ℕ) : ℕ := truncate (fmul (fdiv (f32 rms) 65535) 8388608)

theorem abs_seededMagnitude_sub_lt {rms : ℕ} (hrms : rms ≤ 65535) :
    |(seededMagnitude rms : ℚ) - rms / 65535 * 8388608| < 2 := by
  have hrms' : (rms : ℚ) ≤ 65535 := by exact_mod_cast hrms
  have hnonneg : (0 : ℚ) ≤ rms := Nat.cast_nonneg rms
  unfold seededMagnitude
  rw [f32_natCast (by omega)]
  unfold fmul fdiv truncate
  have hsize : |(rms : ℚ) / 65535| < 2 ^ ((-23 : ℤ) + 24) := by
    rw [abs_lt]
    constructor <;> norm_num <;> linarith
  have hquotient := abs_le.mp (abs_f32_sub_le (-23) (by norm_num) hsize)
  have hpos : 0 ≤ f32 ((rms : ℚ) / 65535) := binary32.round_nonneg (by positivity)
  generalize f32 ((rms : ℚ) / 65535) = quotient at hquotient hpos ⊢
  norm_num at hquotient
  have hproduct : |quotient * 8388608| < 2 ^ ((0 : ℤ) + 24) := by
    rw [abs_lt]
    constructor <;> norm_num <;> linarith
  have hscaled := abs_le.mp (abs_f32_sub_le 0 (by norm_num) hproduct)
  have hpos' : 0 ≤ f32 (quotient * 8388608) := binary32.round_nonneg (by positivity)
  generalize f32 (quotient * 8388608) = scaled at hscaled hpos' ⊢
  norm_num at hscaled
  have hfloor := Nat.floor_le hpos'
  have hsucc := Nat.lt_floor_add_one scaled
  rw [abs_lt]
  constructor <;> linarith

/-- The root mean square survives the round trip. -/
theorem quantizeRms_seeded {rms count : ℕ} (hrms : rms ≤ 65535) (hpos : 0 < count)
    (hcount : count ≤ 65536) :
    quantizeRms (seededMagnitude rms * seededMagnitude rms * count) count = rms := by
  have hrms' : (rms : ℚ) ≤ 65535 := by exact_mod_cast hrms
  have hnonneg : (0 : ℚ) ≤ rms := Nat.cast_nonneg rms
  have hcount' : (count : ℚ) ≤ 65536 := by exact_mod_cast hcount
  have hpos' : (1 : ℚ) ≤ count := by exact_mod_cast hpos
  have hseeded := abs_lt.mp (abs_seededMagnitude_sub_lt hrms)
  have hmagnitude : (0 : ℚ) ≤ seededMagnitude rms := Nat.cast_nonneg _
  generalize seededMagnitude rms = magnitude at hseeded hmagnitude ⊢
  have hbound : (magnitude : ℚ) ≤ 8388610 := by linarith
  have hsquare : (magnitude : ℚ) ^ 2 ≤ 8388610 ^ 2 := by gcongr
  unfold quantizeRms
  rw [if_neg hpos.ne', f64_natCast (n := count) (by omega)]
  -- The mean square, off by at most 513.
  have hsum : |((magnitude * magnitude * count : ℕ) : ℚ)| < 2 ^ ((10 : ℤ) + 53) := by
    rw [Nat.abs_cast]
    push_cast
    calc (magnitude : ℚ) * magnitude * count
        ≤ 8388610 ^ 2 * 65536 := by rw [← sq]; gcongr
      _ < 2 ^ ((10 : ℤ) + 53) := by norm_num
  have hsumError := abs_le.mp (abs_f64_sub_le 10 (by norm_num) hsum)
  have hsumPos : 0 ≤ f64 ((magnitude * magnitude * count : ℕ) : ℚ) :=
    binary64.round_nonneg (Nat.cast_nonneg _)
  generalize f64 ((magnitude * magnitude * count : ℕ) : ℚ) = sum at hsumError hsumPos ⊢
  push_cast at hsumError
  norm_num at hsumError
  have hquotient : (magnitude : ℚ) ^ 2 - 512 ≤ sum / count ∧ sum / count ≤ magnitude ^ 2 + 512 := by
    rw [le_div_iff₀ (by linarith), div_le_iff₀ (by linarith)]
    constructor <;> nlinarith
  have hquotientPos : 0 ≤ sum / count := by positivity
  generalize sum / (count : ℚ) = quotient at hquotient hquotientPos ⊢
  have hquotientSize : |quotient| < 2 ^ ((-5 : ℤ) + 53) := by
    rw [abs_of_nonneg hquotientPos]
    norm_num
    linarith
  have hmeanError := abs_le.mp (abs_f64_sub_le (-5) (by norm_num) hquotientSize)
  have hmeanPos : 0 ≤ f64 quotient := binary64.round_nonneg hquotientPos
  generalize f64 quotient = mean at hmeanError hmeanPos ⊢
  norm_num at hmeanError
  -- The root, off by at most 24.
  have hunit : binary64.sqrtExponent mean ≤ -29 := by
    refine binary64.sqrtExponent_le (by decide) (by decide) hmeanPos ?_
    change mean < 4 ^ ((-29 : ℤ) + 53)
    norm_num
    linarith
  have hrootHigh : binary64.sqrt mean ≤ magnitude + 24 := by
    have hroot := binary64.sqrt_le (-29) hunit hmeanPos (y := magnitude + 23) (by linarith)
      (by nlinarith)
    norm_num at hroot
    linarith
  have hrootLow : (magnitude : ℚ) - 24 ≤ binary64.sqrt mean := by
    rcases lt_or_ge (magnitude : ℚ) 23 with hsmall | hlarge
    · have hroot := binary64.sqrt_nonneg mean
      linarith
    · have hroot := binary64.le_sqrt (-29) hunit hmeanPos (y := magnitude - 23) (by nlinarith)
      norm_num at hroot
      linarith
  have hrootPos := binary64.sqrt_nonneg mean
  generalize binary64.sqrt mean = root at hrootHigh hrootLow hrootPos ⊢
  -- Scaled back, it is off by less than one half.
  have hratioSize : |root / 8388608| < 2 ^ ((-52 : ℤ) + 53) := by
    rw [abs_of_nonneg (by positivity)]
    norm_num
    linarith
  have hratioError := abs_le.mp (abs_f64_sub_le (-52) (by norm_num) hratioSize)
  generalize f64 (root / 8388608) = ratio at hratioError ⊢
  norm_num at hratioError
  simp only
  have hclampLow : (rms : ℚ) / 65535 - 1 / 200000 ≤ min (max ratio 0) 1 := by
    refine le_min (le_max_of_le_left ?_) ?_ <;> linarith
  have hclampHigh : min (max ratio 0) 1 ≤ (rms : ℚ) / 65535 + 1 / 200000 := by
    refine min_le_of_left_le (max_le ?_ ?_) <;> linarith
  have hclampPos : 0 ≤ min (max ratio 0) 1 := le_min (le_max_right _ _) zero_le_one
  have hclampOne : min (max ratio 0) 1 ≤ 1 := min_le_right _ _
  generalize min (max ratio 0) 1 = clamped at hclampLow hclampHigh hclampPos hclampOne ⊢
  have hvalueSize : |clamped * 65535| < 2 ^ ((-36 : ℤ) + 53) := by
    rw [abs_of_nonneg (by positivity)]
    norm_num
    linarith
  have hvalueError := abs_le.mp (abs_f64_sub_le (-36) (by norm_num) hvalueSize)
  norm_num at hvalueError
  have hnear : roundEven (f64 (clamped * 65535)) = rms := by
    apply roundEven_eq
    rw [abs_lt]
    push_cast
    constructor <;> linarith
  rw [hnear]
  omega

end LibApta
