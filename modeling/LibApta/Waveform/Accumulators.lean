import LibApta.Core.Types
import LibApta.Core.Environment
import LibApta.Lib.BinarySearch

/-!
# The overview accumulator store

One accumulator for each overview column that has received a frame or was seeded, kept sorted by
column index and looked up by binary search. Growing the store asks the allocator; a refusal leaves
the store as it was. The three band sums, a parallel array in the source that follows every
insertion, are a field of the accumulator here.
-/

namespace LibApta

/-! ## Band filter -/

/-- The two one-pole low-passes of the three-band split. -/
structure BandFilter where
  lowState : ℚ
  midState : ℚ
  lowCoefficient : ℚ
  midCoefficient : ℚ
deriving DecidableEq

/-- Low, mid and high values of one sample, or the sums of their magnitudes. -/
structure Bands (α : Type) where
  low : α
  mid : α
  high : α
deriving DecidableEq

/-- A filter for a sample rate, with silent state. -/
def BandFilter.init (libm : Libm) (sampleRate : ℕ) : BandFilter :=
  let rate := f32 sampleRate
  if rate ≤ 0 then ⟨0, 0, 0, 0⟩
  else
    let corner (hertz : ℚ) := fsub 1 (libm.expf (fdiv (fmul (f32 (-6.2831853)) hertz) rate))
    ⟨0, 0, min (max (corner 200) 0) 1, min (max (corner 2000) 0) 1⟩

/-- Advance the filter by one sample and split the sample three ways. -/
def BandFilter.split (filter : BandFilter) (sample : ℚ) : Bands ℚ × BandFilter :=
  let low := fadd filter.lowState (fmul filter.lowCoefficient (fsub sample filter.lowState))
  let mid := fadd filter.midState (fmul filter.midCoefficient (fsub sample filter.midState))
  (⟨low, fsub mid low, fsub sample mid⟩, { filter with lowState := low, midState := mid })

/-! ## Accumulators -/

/-- The running summary of one waveform column. -/
structure Accumulator where
  columnIndex : ℕ
  sampleCount : ℕ
  sumSquares : ℕ
  minimum : ℚ
  maximum : ℚ
  clipped : Bool
  complete : Bool
  bandSums : Bands ℕ
deriving DecidableEq

namespace Accumulator

/-- A column that has seen no frame. -/
def new (columnIndex : ℕ) : Accumulator where
  columnIndex := columnIndex
  sampleCount := 0
  sumSquares := 0
  minimum := 1
  maximum := -1
  clipped := false
  complete := false
  bandSums := ⟨0, 0, 0⟩

/-- Account for one sample. The square is of the magnitude scaled by `2 ^ 23`. -/
def addSample (acc : Accumulator) (sample : ℚ) : Accumulator :=
  { acc with
    minimum := if sample < acc.minimum then sample else acc.minimum
    maximum := if acc.maximum < sample then sample else acc.maximum
    sumSquares :=
      acc.sumSquares + scaledMagnitude 8388608 sample * scaledMagnitude 8388608 sample
    sampleCount := acc.sampleCount + 1
    clipped := acc.clipped || decide (sample ≤ -1) || decide (1 ≤ sample) }

/-- Account for the three band values of one sample. -/
def addBands (acc : Accumulator) (bands : Bands ℚ) : Accumulator :=
  { acc with
    bandSums :=
      ⟨acc.bandSums.low + scaledMagnitude 32768 bands.low,
       acc.bandSums.mid + scaledMagnitude 32768 bands.mid,
       acc.bandSums.high + scaledMagnitude 32768 bands.high⟩ }

end Accumulator

/-! ## The store -/

/-- The overview state of a session. -/
structure Overview where
  accumulators : List Accumulator
  capacity : ℕ
  completeCount : ℕ
  bandFilter : BandFilter
deriving DecidableEq

/-- The next capacity of a growing array that must hold `needed` entries: doubled until it fits,
`none` when doubling would leave 32 bits. -/
def grownCapacity (capacity needed : ℕ) : ℕ → Option ℕ
  | 0 => none
  | fuel + 1 =>
      if capacity < needed then
        if uint32Max / 2 < capacity then none else grownCapacity (capacity * 2) needed fuel
      else some capacity

/-- A grown capacity is enough. -/
theorem le_of_grownCapacity {capacity needed fuel grown : ℕ}
    (h : grownCapacity capacity needed fuel = some grown) : needed ≤ grown := by
  induction fuel generalizing capacity with
  | zero => cases h
  | succ fuel ih =>
      rw [grownCapacity] at h
      split_ifs at h with hshort
      · exact ih h
      · exact Option.some.inj h ▸ not_lt.mp hshort

/-- A capacity that doubling from sixteen reaches in 32 bits, or none. -/
def Doubled (capacity : ℕ) : Prop := capacity = 0 ∨ ∃ k ≤ 27, capacity = 16 * 2 ^ k

theorem Doubled.le {capacity : ℕ} (h : Doubled capacity) : capacity ≤ 2147483648 := by
  obtain rfl | ⟨k, hk, rfl⟩ := h
  · exact Nat.zero_le _
  · exact (Nat.mul_le_mul_left 16 (Nat.pow_le_pow_right (by omega) hk)).trans (by norm_num)

/-- The capacity that growing starts from. -/
theorem Doubled.start {capacity : ℕ} (h : Doubled capacity) :
    ∃ k ≤ 27, (if capacity = 0 then 16 else capacity) = 16 * 2 ^ k := by
  obtain rfl | ⟨k, hk, rfl⟩ := h
  · exact ⟨0, by omega, rfl⟩
  · exact ⟨k, hk, if_neg (by positivity)⟩

/-- Growing doubles. -/
theorem doubled_of_grownCapacity {k needed fuel grown : ℕ} (hk : k ≤ 27)
    (h : grownCapacity (16 * 2 ^ k) needed fuel = some grown) : Doubled grown := by
  induction fuel generalizing k with
  | zero => cases h
  | succ fuel ih =>
      rw [grownCapacity] at h
      split_ifs at h with hshort hlimit
      · have hlt : k ≠ 27 := by
          rintro rfl
          exact hlimit (by norm_num [uint32Max])
        rw [Nat.mul_assoc, ← Nat.pow_succ] at h
        exact ih (by omega) h
      · exact .inr ⟨k, hk, (Option.some.inj h).symm⟩

/-- Doubling reaches every capacity up to half of 32 bits. -/
theorem grownCapacity_isSome {capacity needed fuel : ℕ} (hneeded : needed ≤ uint32Max / 2 + 1)
    (hfuel : needed ≤ capacity * 2 ^ fuel) :
    ∃ grown, grownCapacity capacity needed (fuel + 1) = some grown := by
  induction fuel generalizing capacity with
  | zero =>
      rw [pow_zero, Nat.mul_one] at hfuel
      exact ⟨capacity, by rw [grownCapacity, if_neg (not_lt.mpr hfuel)]⟩
  | succ fuel ih =>
      unfold grownCapacity
      split_ifs with hshort hlimit
      · omega
      · refine ih ?_
        rwa [Nat.mul_assoc, ← Nat.pow_succ']
      · exact ⟨capacity, rfl⟩

namespace Overview

/-- Make room for `needed` accumulators. The band sums grow with a second allocation, and a refusal
of either leaves the capacity unchanged. -/
def ensureCapacity (hasBands : Bool) (overview : Overview) (needed : ℕ) (env : Environment) :
    Status × Overview × Environment :=
  if needed ≤ overview.capacity then (.ok, overview, env)
  else
    match grownCapacity (if overview.capacity = 0 then 16 else overview.capacity) needed 33 with
    | none => (.error .limitExceeded, overview, env)
    | some capacity =>
        match env.allocate with
        | (false, env) => (.error .outOfMemory, overview, env)
        | (true, env) =>
            if hasBands then
              match env.allocate with
              | (false, env) => (.error .outOfMemory, overview, env)
              | (true, env) => (.ok, { overview with capacity := capacity }, env)
            else (.ok, { overview with capacity := capacity }, env)

/-- Where a column stands, or would be inserted. -/
def position (overview : Overview) (columnIndex : ℕ) : ℕ :=
  lowerBound (fun index =>
      decide (((overview.accumulators.map Accumulator.columnIndex).getD index 0) < columnIndex))
    0 overview.accumulators.length

/-- Find the accumulator of a column, inserting a new one where there is none. The index returned
is its position in the store. -/
def findOrInsert (hasBands : Bool) (overview : Overview) (columnIndex : ℕ) (env : Environment) :
    Except Status ℕ × Overview × Environment :=
  let position := overview.position columnIndex
  if (overview.accumulators.map Accumulator.columnIndex)[position]? = some columnIndex then
    (.ok position, overview, env)
  else
    match overview.ensureCapacity hasBands (overview.accumulators.length + 1) env with
    | (.ok, overview, env) =>
        (.ok position,
          { overview with
            accumulators := overview.accumulators.insertIdx position (.new columnIndex) }, env)
    | (status, overview, env) => (.error status, overview, env)

end Overview

end LibApta
