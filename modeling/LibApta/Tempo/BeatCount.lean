import LibApta.Lib.Progression
import LibApta.Tempo.Estimate

/-!
# The beats a segment counts

By the specification the beat of ordinal `k` lies at the anchor and `k - anchorOrdinal` periods, for
every integer `k`. Both counters of the library walk from the anchor forwards only, and by the period
rounded up to whole frames. They count the beats of the applicability range when no beat of the range
comes before the anchor and the rounding moves as many beats over the start of the range as over its
end (`segmentBeatCount_law_iff`).
-/

namespace LibApta

namespace GridSegment

variable (segment : GridSegment)

/-! ## Specification -/

/-- The position of the beat of an ordinal. -/
def beatPosition (ordinal : ℤ) : ℚ :=
  (segment.anchorFrame + segment.anchorFraction / 4294967296) +
    (ordinal - segment.anchorOrdinal) *
      (segment.periodFrames + segment.periodFraction / 4294967296)

/-- The ordinals of the beats inside the applicability range. -/
def beatOrdinals : Set ℤ :=
  {k | (segment.applicabilityRange.firstFrame : ℚ) ≤ segment.beatPosition k ∧
    segment.beatPosition k < segment.applicabilityRange.endFrame}

/-- The anchor in units of `2 ^ -32` frames. -/
def anchorQ32 : ℕ := 4294967296 * segment.anchorFrame + segment.anchorFraction

/-- The period in units of `2 ^ -32` frames. -/
def periodQ32 : ℕ := 4294967296 * segment.periodFrames + segment.periodFraction

/-- The start of the applicability range in units of `2 ^ -32` frames. -/
def firstQ32 : ℕ := 4294967296 * segment.applicabilityRange.firstFrame

/-- The end of the applicability range in units of `2 ^ -32` frames. -/
def endQ32 : ℕ := 4294967296 * segment.applicabilityRange.endFrame

/-- The fields of a segment fit the words that hold them. -/
structure WordSized : Prop where
  first : segment.applicabilityRange.firstFrame ≤ uint64Max
  past : segment.applicabilityRange.endFrame ≤ uint64Max
  anchor : segment.anchorFrame ≤ uint64Max
  anchorFraction : segment.anchorFraction ≤ uint32Max
  period : segment.periodFrames ≤ uint64Max
  periodFraction : segment.periodFraction ≤ uint32Max

theorem beatPosition_eq (ordinal : ℤ) :
    segment.beatPosition ordinal =
      (segment.anchorQ32 + (ordinal - segment.anchorOrdinal) * segment.periodQ32 : ℤ) /
        4294967296 := by
  unfold beatPosition anchorQ32 periodQ32
  push_cast
  ring

theorem beatOrdinals_eq :
    segment.beatOrdinals =
      {k : ℤ | (segment.firstQ32 : ℤ) ≤
          segment.anchorQ32 + (k - segment.anchorOrdinal) * segment.periodQ32 ∧
        (segment.anchorQ32 + (k - segment.anchorOrdinal) * segment.periodQ32 : ℤ) <
          segment.endQ32} := by
  ext k
  simp only [beatOrdinals, beatPosition_eq, Set.mem_ofPred_eq, firstQ32, endQ32]
  rw [le_div_iff₀ (by norm_num), div_lt_iff₀ (by norm_num), mul_comm, mul_comm (Nat.cast _)]
  exact and_congr (by exact_mod_cast Iff.rfl) (by exact_mod_cast Iff.rfl)

variable {segment}

theorem mem_beatOrdinals (hperiod : 0 < segment.periodQ32) {k : ℤ} :
    k ∈ segment.beatOrdinals ↔
      Progression.index segment.anchorQ32 segment.periodQ32 segment.firstQ32 ≤
          k - segment.anchorOrdinal ∧
        k - segment.anchorOrdinal <
          Progression.index segment.anchorQ32 segment.periodQ32 segment.endQ32 := by
  rw [Progression.index_le_iff hperiod, Progression.lt_index_iff hperiod, beatOrdinals_eq]
  rfl

theorem ncard_beatOrdinals (hperiod : 0 < segment.periodQ32) :
    segment.beatOrdinals.ncard =
      (Progression.index segment.anchorQ32 segment.periodQ32 segment.endQ32 -
        Progression.index segment.anchorQ32 segment.periodQ32 segment.firstQ32).toNat := by
  rw [beatOrdinals_eq, Progression.ncard_terms hperiod]

end GridSegment

namespace S4State

open Progression GridSegment

variable (segment : GridSegment)

/-! ## Counting by whole frames -/

/-- The period rounded up to whole frames. -/
def roundedPeriod : ℕ := segment.periodFrames + (if segment.periodFraction ≠ 0 then 1 else 0)

/-- The sums a count forms that nothing guards stay below `2 ^ 64`. -/
structure CountsUnwrapped : Prop where
  period : roundedPeriod segment ≤ uint64Max
  offset : segment.anchorFrame < segment.applicabilityRange.firstFrame →
    segment.applicabilityRange.firstFrame - segment.anchorFrame + roundedPeriod segment - 1 ≤
      uint64Max

/-- The beats the rounded period places inside the applicability range. -/
def roundedBeats : ℕ :=
  before segment.anchorFrame (roundedPeriod segment) segment.applicabilityRange.endFrame -
    before segment.anchorFrame (roundedPeriod segment) segment.applicabilityRange.firstFrame

/-- The beats from the anchor on that lie before a frame, but not when the period is rounded up. -/
def displacedBeats (frame : ℕ) : ℕ :=
  before segment.anchorQ32 segment.periodQ32 (4294967296 * frame) -
    before segment.anchorFrame (roundedPeriod segment) frame

/-- The beat count of a segment is the number of its beats, and no sum of the count wraps. -/
def CountLaw : Prop :=
  (segment.applicabilityRange.firstFrame < segment.applicabilityRange.endFrame →
    segment.periodFrames ≠ 0 → CountsUnwrapped segment) ∧
    segmentBeatCount segment = segment.beatOrdinals.ncard

/-- The period has whole frames, no sum wraps, no beat of the range comes before the anchor, the beats
of the range fit 32 bits, and rounding the period up moves as many of them over the end of the range as
it moves over its start. Where the range has as many beats as 32 bits show, it may move more over the
start. -/
structure CountsExactly : Prop where
  whole : segment.periodFrames ≠ 0
  unwrapped : CountsUnwrapped segment
  fromAnchor : ∀ k ∈ segment.beatOrdinals, segment.anchorOrdinal ≤ k
  fits : segment.beatOrdinals.ncard ≤ uint32Max
  noneLost : displacedBeats segment segment.applicabilityRange.endFrame ≤
    displacedBeats segment segment.applicabilityRange.firstFrame
  noneGained : segment.beatOrdinals.ncard < uint32Max →
    displacedBeats segment segment.applicabilityRange.firstFrame ≤
      displacedBeats segment segment.applicabilityRange.endFrame

variable {segment}

theorem roundedPeriod_pos (hwhole : segment.periodFrames ≠ 0) : 0 < roundedPeriod segment := by
  unfold roundedPeriod
  omega

/-- The terms from one inside the range on, counted by a division. -/
theorem before_sub_eq {start step past steps : ℕ} (hstep : 0 < step)
    (hsteps : start + steps * step < past) :
    before start step past - steps = 1 + (past - 1 - (start + steps * step)) / step := by
  have hlast := Nat.div_mul_le_self (past - 1 - (start + steps * step)) step
  have hnext := Nat.lt_div_mul_add (a := past - 1 - (start + steps * step)) hstep
  generalize (past - 1 - (start + steps * step)) / step = more at hlast hnext ⊢
  have hmore : steps + more < before start step past := by
    rw [lt_before_iff hstep, Nat.add_mul]
    omega
  have hend : before start step past ≤ steps + (more + 1) := by
    rw [before_le_iff hstep, Nat.add_mul, Nat.add_mul, Nat.one_mul]
    omega
  omega

/-- What the counters compute. -/
theorem segmentBeatCount_eq (hword : segment.WordSized)
    (hrange : segment.applicabilityRange.firstFrame < segment.applicabilityRange.endFrame)
    (hwhole : segment.periodFrames ≠ 0) (h : CountsUnwrapped segment) :
    segmentBeatCount segment = min (roundedBeats segment) uint32Max := by
  have hpos := roundedPeriod_pos hwhole
  have hperiod := h.period
  have hoffset := h.offset
  have hpast := hword.past
  simp only [uint64Max] at hperiod hoffset hpast
  unfold segmentBeatCount roundedBeats
  rw [if_neg (by omega)]
  have hrounded : segment.periodFrames + (if segment.periodFraction ≠ 0 then 1 else 0) =
      roundedPeriod segment := rfl
  simp only [hrounded]
  generalize roundedPeriod segment = period at hpos hperiod hoffset ⊢
  generalize segment.applicabilityRange.firstFrame = first at hrange hoffset ⊢
  generalize segment.applicabilityRange.endFrame = past at hrange hpast ⊢
  generalize segment.anchorFrame = anchor at hoffset ⊢
  rw [Nat.mod_eq_of_lt (by omega : period < 18446744073709551616)]
  by_cases hanchor : anchor < first
  · rw [Nat.mod_eq_of_lt (by have := hoffset hanchor; omega)]
    rw [show (first - anchor + period - 1) / period = before anchor period first from rfl]
    have hfirst := le_before_term hpos anchor first
    generalize before anchor period first = steps at hfirst ⊢
    simp only [hanchor, true_and, if_true]
    split_ifs with hguard hpassed
    · -- The first beat is past every frame.
      simp only [uint64Max] at hguard
      rw [Nat.div_lt_iff_lt_mul hpos] at hguard
      have hnone : before anchor period past ≤ steps := (before_le_iff hpos).mpr (by omega)
      omega
    · have hnone : before anchor period past ≤ steps := (before_le_iff hpos).mpr (by omega)
      omega
    · rw [before_sub_eq hpos (by omega)]
  · simp only [hanchor, false_and, if_false]
    rw [before_eq_zero hpos (not_lt.mp hanchor)]
    split_ifs with hpassed
    · rw [before_eq_zero hpos hpassed]
      rfl
    · rw [before_sub_eq hpos (by omega), Nat.zero_mul, Nat.add_zero]

/-! ## The two counts -/

/-- Rounding the period up moves beats back only. -/
theorem before_rounded_le (hword : segment.WordSized) (hwhole : segment.periodFrames ≠ 0)
    (frame : ℕ) :
    before segment.anchorFrame (roundedPeriod segment) frame ≤
      before segment.anchorQ32 segment.periodQ32 (4294967296 * frame) := by
  have hanchor := hword.anchorFraction
  have hfraction := hword.periodFraction
  simp only [uint32Max] at hanchor hfraction
  have hpos : 0 < segment.periodQ32 := by unfold periodQ32; omega
  refine before_le_before (roundedPeriod_pos hwhole) hpos fun n hn => ?_
  have hstep : segment.periodQ32 ≤ 4294967296 * roundedPeriod segment := by
    unfold periodQ32 roundedPeriod
    split_ifs <;> omega
  have hterm := Nat.mul_le_mul_left n hstep
  unfold anchorQ32
  rw [Nat.mul_left_comm] at hterm
  omega

theorem before_eq_rounded_add (hword : segment.WordSized) (hwhole : segment.periodFrames ≠ 0)
    (frame : ℕ) :
    before segment.anchorQ32 segment.periodQ32 (4294967296 * frame) =
      before segment.anchorFrame (roundedPeriod segment) frame + displacedBeats segment frame :=
  (Nat.add_sub_of_le (before_rounded_le hword hwhole frame)).symm

/-- No beat of the range comes before the anchor when the first one does not, or when there is none. -/
theorem fromAnchor_iff (hperiod : 0 < segment.periodQ32) :
    (∀ k ∈ segment.beatOrdinals, segment.anchorOrdinal ≤ k) ↔
      0 ≤ index segment.anchorQ32 segment.periodQ32 segment.firstQ32 ∨
        index segment.anchorQ32 segment.periodQ32 segment.endQ32 ≤
          index segment.anchorQ32 segment.periodQ32 segment.firstQ32 := by
  constructor
  · intro h
    by_contra hnot
    have hmem := h (segment.anchorOrdinal +
      index segment.anchorQ32 segment.periodQ32 segment.firstQ32)
      ((mem_beatOrdinals hperiod).mpr (by omega))
    omega
  · intro h k hk
    have hk := (mem_beatOrdinals hperiod).mp hk
    omega

/-- A range of a whole frame has a beat when the period is shorter than a frame. -/
theorem index_lt_of_fraction (hword : segment.WordSized) (hperiod : 0 < segment.periodQ32)
    (hrange : segment.applicabilityRange.firstFrame < segment.applicabilityRange.endFrame)
    (hwhole : segment.periodFrames = 0) :
    index segment.anchorQ32 segment.periodQ32 segment.firstQ32 <
      index segment.anchorQ32 segment.periodQ32 segment.endQ32 := by
  have hfraction := hword.periodFraction
  simp only [uint32Max] at hfraction
  rw [lt_index_iff hperiod]
  have hbefore := (lt_index_iff hperiod).mp
    (sub_one_lt (index segment.anchorQ32 segment.periodQ32 segment.firstQ32))
  rw [Int.sub_mul, Int.one_mul] at hbefore
  have hshort : segment.periodQ32 + segment.firstQ32 ≤ segment.endQ32 := by
    unfold periodQ32 firstQ32 endQ32
    omega
  omega

/-- Rounding up a period of whole frames moves no beat. -/
theorem displacedBeats_of_whole (hword : segment.WordSized) (hwhole : segment.periodFrames ≠ 0)
    (hfraction : segment.periodFraction = 0) (frame : ℕ) : displacedBeats segment frame = 0 := by
  have hanchor := hword.anchorFraction
  simp only [uint32Max] at hanchor
  have hpos : 0 < segment.periodQ32 := by unfold periodQ32; omega
  have hrounded : roundedPeriod segment = segment.periodFrames := by
    unfold roundedPeriod
    rw [if_neg (not_not_intro hfraction), Nat.add_zero]
  refine Nat.sub_eq_zero_of_le (before_le_before hpos (roundedPeriod_pos hwhole) fun n hn => ?_)
  unfold anchorQ32 periodQ32 at hn
  rw [hfraction, Nat.add_zero, Nat.mul_left_comm] at hn
  rw [hrounded]
  omega

/-- No beat of the range comes before an anchor less than a period behind its start. -/
theorem fromAnchor_of_lt (hperiod : 0 < segment.periodQ32)
    (h : segment.anchorQ32 < segment.firstQ32 + segment.periodQ32) :
    ∀ k ∈ segment.beatOrdinals, segment.anchorOrdinal ≤ k := by
  refine (fromAnchor_iff hperiod).mpr (.inl (Int.le_of_sub_one_lt ?_))
  rw [lt_index_iff hperiod]
  omega

/-! ## The law -/

/-- The beat count of a segment is the number of its beats where the range is empty or the segment
counts exactly, and nowhere else. -/
theorem segmentBeatCount_law_iff (hword : segment.WordSized) (hperiod : 0 < segment.periodQ32) :
    CountLaw segment ↔
      segment.applicabilityRange.endFrame ≤ segment.applicabilityRange.firstFrame ∨
        CountsExactly segment := by
  unfold CountLaw
  rw [ncard_beatOrdinals hperiod]
  by_cases hrange : segment.applicabilityRange.endFrame ≤ segment.applicabilityRange.firstFrame
  · have hindex : index segment.anchorQ32 segment.periodQ32 segment.endQ32 ≤
        index segment.anchorQ32 segment.periodQ32 segment.firstQ32 :=
      index_mono hperiod _ (Nat.mul_le_mul_left _ hrange)
    have hcount : segmentBeatCount segment = 0 := by
      unfold segmentBeatCount
      rw [if_pos (.inl hrange)]
    simp only [hrange, true_or, iff_true, hcount]
    exact ⟨fun hlt => absurd hrange (not_le.mpr hlt), by omega⟩
  have hrange' := not_le.mp hrange
  by_cases hwhole : segment.periodFrames = 0
  · have hindex := index_lt_of_fraction hword hperiod hrange' hwhole
    have hcount : segmentBeatCount segment = 0 := by
      unfold segmentBeatCount
      rw [if_pos (.inr hwhole)]
    rw [hcount]
    refine iff_of_false (fun h => ?_) ?_
    · have := h.2
      omega
    · rintro (h | h)
      · exact hrange h
      · exact h.whole hwhole
  by_cases hunwrapped : CountsUnwrapped segment
  · have hmono : index segment.anchorQ32 segment.periodQ32 segment.firstQ32 ≤
        index segment.anchorQ32 segment.periodQ32 segment.endQ32 :=
      index_mono hperiod _ (Nat.mul_le_mul_left _ hrange'.le)
    have hrounded := before_mono (roundedPeriod_pos hwhole) segment.anchorFrame hrange'.le
    have hfirst := before_eq_rounded_add hword hwhole segment.applicabilityRange.firstFrame
    have hend := before_eq_rounded_add hword hwhole segment.applicabilityRange.endFrame
    rw [← firstQ32, ← toNat_index hperiod] at hfirst
    rw [← endQ32, ← toNat_index hperiod] at hend
    have hcount := segmentBeatCount_eq hword hrange' hwhole hunwrapped
    have hanchor := fromAnchor_iff hperiod
    rw [hcount]
    unfold roundedBeats
    constructor
    · rintro ⟨-, heq⟩
      refine .inr ⟨hwhole, hunwrapped, hanchor.mpr ?_, ?_, ?_, ?_⟩
      · omega
      · rw [ncard_beatOrdinals hperiod]
        omega
      · omega
      · rw [ncard_beatOrdinals hperiod]
        omega
    · rintro (h | h)
      · exact absurd h hrange
      · have hfrom := hanchor.mp h.fromAnchor
        have hfits := h.fits
        have hlost := h.noneLost
        have hgained := h.noneGained
        rw [ncard_beatOrdinals hperiod] at hfits hgained
        refine ⟨fun _ _ => hunwrapped, ?_⟩
        omega
  · refine iff_of_false (fun h => hunwrapped (h.1 hrange' hwhole)) ?_
    rintro (h | h)
    · exact hrange h
    · exact hunwrapped h.unwrapped

/-- A segment of a tempo over a range, anchored at the start of the range. -/
def segmentOfTempo (sampleRate tempo : ℕ) (range : FrameRange) : GridSegment where
  applicabilityRange := range
  anchorFrame := range.firstFrame
  anchorFraction := 0
  anchorOrdinal := 0
  periodFrames := (periodOfTempo sampleRate tempo).1
  periodFraction := (periodOfTempo sampleRate tempo).2
  beatCount := 0
  nominalTempoMillibpm := tempo
  confidence := 100
  state := .stable
  flags := 0
  segmentId := 1
  revision := 1

/-- At 120 beats a minute a beat takes 22050 frames, and a minute has 120 beats. -/
theorem segmentBeatCount_law_even : CountLaw (segmentOfTempo 44100 120000 ⟨0, 2646000⟩) := by
  have hword : (segmentOfTempo 44100 120000 ⟨0, 2646000⟩).WordSized := by
    constructor <;> decide
  have hunwrapped : CountsUnwrapped (segmentOfTempo 44100 120000 ⟨0, 2646000⟩) := by
    constructor <;> decide
  refine (segmentBeatCount_law_iff hword (by decide)).mpr
    (.inr ⟨by decide, hunwrapped, ?_, ?_, ?_, fun _ => ?_⟩)
  · exact fromAnchor_of_lt (by decide) (by decide)
  · rw [ncard_beatOrdinals (by decide)]
    decide
  · rw [displacedBeats_of_whole hword (by decide) (by decide)]
    exact Nat.zero_le _
  · rw [displacedBeats_of_whole hword (by decide) (by decide)]
    exact Nat.zero_le _

/-- At 128 beats a minute a beat takes 20671.875 frames. The range has the beats zero to a thousand;
the rounded period has lost the last of them. -/
theorem segmentBeatCount_loses_beat :
    (segmentOfTempo 44100 128000 ⟨0, 20671876⟩).WordSized ∧
      0 < (segmentOfTempo 44100 128000 ⟨0, 20671876⟩).periodQ32 ∧
      segmentBeatCount (segmentOfTempo 44100 128000 ⟨0, 20671876⟩) = 1000 ∧
      (segmentOfTempo 44100 128000 ⟨0, 20671876⟩).beatOrdinals.ncard = 1001 := by
  refine ⟨by constructor <;> decide, by decide, by decide, ?_⟩
  rw [ncard_beatOrdinals (by decide)]
  decide

end S4State

end LibApta
