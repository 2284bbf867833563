import LibApta.Beatgrid.Commit
import LibApta.Lib.Tiling
import LibApta.Tempo.BeatCount

/-!
# The explicit beats of a grid

The beats of the segments are generated in order, in fixed-point arithmetic of 32 fractional bits and
with one counter of ordinals. A generation whose arithmetic fits 64 bits lists the positions of its
segments up to the capacity of the beat array (`generateBeats_eq`).

Every segment gets the ordinal of its first beat as the ordinal of its anchor, but keeps the anchor;
and a segment that is left out keeps the beat count it came with. So the expansion is exact when no
beat comes from an anchor before its range and the segments left out count no beats
(`generateBeats_exact_iff`).
-/

namespace LibApta

/-- The position of a beat in units of `2 ^ -32` frames. -/
def Beat.positionQ32 (beat : Beat) : ℕ := 4294967296 * beat.frame + beat.fraction

namespace S6State

open Progression Tiling

/-! ## One segment of a generation -/

/-- A recursion over a list, one element on. -/
theorem brecOn_cons {α : Type*} {motive : List α → Type*} (head : α) (tail : List α)
    (step : ∀ l, List.below (motive := motive) l → motive l) :
    List.brecOn (motive := motive) (head :: tail) step =
      step (head :: tail) (List.brecOn.go tail step) := rfl

/-- A segment lies in the frames that 32 bits number, and so does its period. -/
structure FrameSized (segment : GridSegment) : Prop where
  period : segment.periodFrames ≤ uint32Max
  anchor : segment.anchorFrame ≤ uint32Max
  first : segment.applicabilityRange.firstFrame ≤ uint32Max
  past : segment.applicabilityRange.endFrame ≤ uint32Max

/-- The segments whose beats are generated. -/
structure Expanded (segment : GridSegment) : Prop extends FrameSized segment where
  whole : segment.periodFrames ≠ 0

variable {segment : GridSegment}

theorem not_expanded_iff : ¬Expanded segment ↔
    segment.periodFrames = 0 ∨ uint32Max < segment.periodFrames ∨
      uint32Max < segment.anchorFrame ∨ uint32Max < segment.applicabilityRange.firstFrame ∨
      uint32Max < segment.applicabilityRange.endFrame := by
  constructor
  · intro h
    by_contra hnot
    simp only [not_or, not_lt] at hnot
    exact h ⟨⟨hnot.2.1, hnot.2.2.1, hnot.2.2.2.1, hnot.2.2.2.2⟩, hnot.1⟩
  · rintro h ⟨⟨hperiod, hanchor, hfirst, hpast⟩, hwhole⟩
    omega

set_option linter.auxLemma false in
/-- One segment of the generation. -/
theorem generateBeats_step (segment : GridSegment) (rest : List GridSegment) (done : GeneratedBeats) :
    (¬Expanded segment ∧
      generateBeats (segment :: rest) done = generateBeats rest { done with
        segments := done.segments ++ [segment], flags := done.flags ||| gridFlagDegraded }) ∨
    (Expanded segment ∧ firstBeatPosition segment segment.periodQ32 = none ∧
      generateBeats (segment :: rest) done =
        (.error .limitExceeded, { done with segments := done.segments ++ segment :: rest })) ∨
    (Expanded segment ∧ ∃ position wanted,
      firstBeatPosition segment segment.periodQ32 = some position ∧
      wanted = beatsFrom segment segment.periodQ32 segment.endQ32
        (globalMaxBeats - done.beats.length + 1) position done.beats.length ∧
      generateBeats (segment :: rest) done = generateBeats rest {
        segments := done.segments ++
          [{ segment with
              anchorOrdinal := done.beats.length
              beatCount := (wanted.take (globalMaxBeats - done.beats.length)).length }]
        beats := done.beats ++ wanted.take (globalMaxBeats - done.beats.length)
        flags := if globalMaxBeats - done.beats.length < wanted.length then
            done.flags ||| gridFlagDegraded
          else done.flags }) := by
  have hrest : generateBeats rest = (List.brecOn.go rest generateBeats._f).1 := by
    delta generateBeats
    rfl
  have hcons : generateBeats (segment :: rest) done =
      generateBeats._f (segment :: rest) (List.brecOn.go rest generateBeats._f) done := by
    delta generateBeats
    rw [brecOn_cons]
  rw [hrest]
  generalize generateBeats (segment :: rest) done = out at hcons ⊢
  generalize List.brecOn.go rest generateBeats._f = below at hcons ⊢
  delta generateBeats._f at hcons
  dsimp -zeta only at hcons
  split at hcons
  · next h => exact .inl ⟨not_expanded_iff.mpr h, hcons⟩
  · next h =>
    have h := not_not.mp (fun hnot => h (not_expanded_iff.mp hnot))
    -- The period and the end are put behind variables: they are products with `2 ^ 32`, which no
    -- comparison of terms may evaluate.
    extract_lets -underBinder period past at hcons
    have hperiod : period = segment.periodQ32 := by
      simp only [period, GridSegment.periodQ32, Nat.mul_comm]
    have hpast : past = segment.endQ32 := by
      simp only [past, GridSegment.endQ32, Nat.mul_comm]
    rw [← hperiod, ← hpast]
    clear_value period past
    cases hfirst : firstBeatPosition segment period with
    | none =>
        rw [hfirst] at hcons
        exact .inr (.inl ⟨h, rfl, hcons⟩)
    | some position =>
        rw [hfirst] at hcons
        exact .inr (.inr ⟨h, position, _, rfl, rfl, hcons⟩)

/-- Generating beats clears no flag. -/
theorem generateBeats_flags (segments : List GridSegment) (done : GeneratedBeats) {bit : ℕ}
    (h : done.flags.testBit bit = true) :
    (generateBeats segments done).2.flags.testBit bit = true := by
  induction segments generalizing done with
  | nil => exact h
  | cons segment rest ih =>
      have hadd : (done.flags ||| gridFlagDegraded).testBit bit = true := by
        rw [Nat.testBit_or, h, Bool.true_or]
      rcases generateBeats_step segment rest done with
        ⟨-, heq⟩ | ⟨-, -, heq⟩ | ⟨-, _, _, -, -, heq⟩
      · rw [heq]
        exact ih _ hadd
      · rw [heq]
        exact h
      · rw [heq]
        refine ih _ ?_
        split_ifs
        · exact hadd
        · exact h

/-! ## Positions -/

/-- The beat of a segment at a position. -/
def beatAt (segment : GridSegment) (position : ℕ) (ordinal : ℤ) : Beat :=
  ⟨position / 4294967296, position % 4294967296, ordinal, segment.confidence, segment.flags,
    segment.revision⟩

@[simp]
theorem positionQ32_beatAt (segment : GridSegment) (position : ℕ) (ordinal : ℤ) :
    (beatAt segment position ordinal).positionQ32 = position := Nat.div_add_mod _ _

@[simp]
theorem ordinal_beatAt (segment : GridSegment) (position : ℕ) (ordinal : ℤ) :
    (beatAt segment position ordinal).ordinal = ordinal := rfl

/-- Beats from a position are one period apart, as far as the fuel and the segment go. -/
theorem beatsFrom_eq (segment : GridSegment) {period past : ℕ} (hperiod : 0 < period)
    (hpast : past ≤ uint64Max) (fuel position : ℕ) (ordinal : ℤ) :
    beatsFrom segment period past fuel position ordinal =
      (List.range (min fuel (before position period past))).map fun n =>
        beatAt segment (position + n * period) (ordinal + n) := by
  induction fuel generalizing position ordinal with
  | zero => simp [beatsFrom]
  | succ fuel ih =>
      unfold beatsFrom
      by_cases hlt : position < past
      · have hbefore : 0 < before position period past := by
          rw [lt_before_iff hperiod]
          omega
        have hnext := before_add_mul hperiod position past 1
        rw [Nat.one_mul] at hnext
        have hmin : min (fuel + 1) (before position period past) =
            min fuel (before (position + period) period past) + 1 := by omega
        have hlast : uint64Max - period < position →
            before (position + period) period past = 0 :=
          fun h => before_eq_zero hperiod (by omega)
        rw [if_pos hlt, hmin, List.range_succ_eq_map, List.map_cons, List.map_map]
        congr 1
        · simp [beatAt]
        · split_ifs with hguard
          · rw [hlast hguard, Nat.min_zero]
            rfl
          · rw [ih]
            refine List.map_congr_left fun n _ => ?_
            simp only [Function.comp_apply, Nat.cast_succ, Nat.succ_mul]
            congr 1
            · omega
            · ring
      · rw [if_neg hlt, before_eq_zero hperiod (not_lt.mp hlt)]
        rfl

theorem firstBeatPosition_eq (segment : GridSegment) (period : ℕ) :
    firstBeatPosition segment period =
      if segment.anchorQ32 < segment.firstQ32 then
        if (uint64Max - segment.anchorQ32) / period <
            (segment.firstQ32 - segment.anchorQ32 + period - 1) % 18446744073709551616 / period
        then none
        else some (segment.anchorQ32 +
          (segment.firstQ32 - segment.anchorQ32 + period - 1) % 18446744073709551616 / period *
            period)
      else some segment.anchorQ32 := by
  unfold firstBeatPosition GridSegment.anchorQ32 GridSegment.firstQ32
  simp only [Nat.mul_comm _ 4294967296]

/-- The arithmetic that finds the first beat of a segment fits 64 bits. -/
structure Fits (segment : GridSegment) : Prop where
  offset : segment.anchorQ32 < segment.firstQ32 →
    segment.firstQ32 - segment.anchorQ32 + segment.periodQ32 - 1 ≤ uint64Max
  position : segment.anchorQ32 +
    before segment.anchorQ32 segment.periodQ32 segment.firstQ32 * segment.periodQ32 ≤ uint64Max

theorem periodQ32_pos (h : Expanded segment) : 0 < segment.periodQ32 := by
  have hwhole := h.whole
  unfold GridSegment.periodQ32
  omega

theorem anchorQ32_le (hword : segment.WordSized) (h : Expanded segment) :
    segment.anchorQ32 ≤ uint64Max := by
  have hanchor := h.anchor
  have hfraction := hword.anchorFraction
  simp only [uint32Max] at hanchor hfraction
  simp only [GridSegment.anchorQ32, uint64Max]
  omega

theorem endQ32_le (h : FrameSized segment) : segment.endQ32 ≤ uint64Max := by
  have hpast := h.past
  simp only [uint32Max] at hpast
  simp only [GridSegment.endQ32, uint64Max]
  omega

/-- The first beat of a segment is the first term of its progression in the range, unless it does not
fit 64 bits. -/
theorem firstBeatPosition_of_offset (hword : segment.WordSized) (h : Expanded segment)
    (hoffset : segment.anchorQ32 < segment.firstQ32 →
      segment.firstQ32 - segment.anchorQ32 + segment.periodQ32 - 1 ≤ uint64Max) :
    firstBeatPosition segment segment.periodQ32 =
      if uint64Max < segment.anchorQ32 +
          before segment.anchorQ32 segment.periodQ32 segment.firstQ32 * segment.periodQ32 then none
      else some (segment.anchorQ32 +
        before segment.anchorQ32 segment.periodQ32 segment.firstQ32 * segment.periodQ32) := by
  have hpos := periodQ32_pos h
  have hanchor := anchorQ32_le hword h
  rw [firstBeatPosition_eq]
  by_cases hlt : segment.anchorQ32 < segment.firstQ32
  · have hsum := hoffset hlt
    simp only [uint64Max] at hsum hanchor ⊢
    rw [if_pos hlt, Nat.mod_eq_of_lt (by omega)]
    rw [show (segment.firstQ32 - segment.anchorQ32 + segment.periodQ32 - 1) / segment.periodQ32 =
      before segment.anchorQ32 segment.periodQ32 segment.firstQ32 from rfl]
    refine if_congr ?_ rfl rfl
    rw [Nat.div_lt_iff_lt_mul hpos]
    omega
  · rw [if_neg hlt, before_eq_zero hpos (not_lt.mp hlt), Nat.zero_mul, Nat.add_zero,
      if_neg (not_lt.mpr hanchor)]

/-! ## A whole generation -/

instance (segment : GridSegment) : Decidable (Expanded segment) :=
  decidable_of_iff _ (Iff.trans (not_congr not_expanded_iff.symm) not_not)

/-- The positions a generation lists for a segment. -/
def listedPositions (segment : GridSegment) : List ℕ :=
  if Expanded segment then
    within segment.anchorQ32 segment.periodQ32 segment.firstQ32 segment.endQ32
  else []

/-- The beats a generation lists for a segment after a number of others. -/
def listedBeats (segment : GridSegment) (count : ℕ) : List Beat :=
  (((listedPositions segment).take (globalMaxBeats - count)).zipIdx count).map fun entry =>
    beatAt segment entry.1 entry.2

/-- A segment after the generation of its beats. -/
def listedSegment (segment : GridSegment) (count : ℕ) : GridSegment :=
  if Expanded segment then
    { segment with anchorOrdinal := count, beatCount := (listedBeats segment count).length }
  else segment

/-- The segments after a generation, each with its beats. -/
def listing : ℕ → List GridSegment → List (GridSegment × List Beat)
  | _, [] => []
  | count, segment :: rest =>
      (listedSegment segment count, listedBeats segment count) ::
        listing (count + (listedBeats segment count).length) rest

theorem length_listedPositions (h : Expanded segment) : (listedPositions segment).length =
    before segment.anchorQ32 segment.periodQ32 segment.endQ32 -
      before segment.anchorQ32 segment.periodQ32 segment.firstQ32 := by
  rw [listedPositions, if_pos h, length_within]

theorem length_listedBeats (segment : GridSegment) (count : ℕ) : (listedBeats segment count).length =
    min (globalMaxBeats - count) (listedPositions segment).length := by
  simp only [listedBeats, List.length_map, List.length_zipIdx, List.length_take]

theorem listedBeats_of_not (h : ¬Expanded segment) (count : ℕ) : listedBeats segment count = [] := by
  simp only [listedBeats, listedPositions, if_neg h, List.take_nil, List.zipIdx_nil, List.map_nil]

theorem listedSegment_of_not (h : ¬Expanded segment) (count : ℕ) :
    listedSegment segment count = segment := if_neg h

theorem beatCount_listedSegment (h : Expanded segment) (count : ℕ) :
    (listedSegment segment count).beatCount = (listedBeats segment count).length := by
  rw [listedSegment, if_pos h]

theorem getElem_listedBeats (h : Expanded segment) (count : ℕ) {n : ℕ}
    (hn : n < (listedBeats segment count).length) :
    (listedBeats segment count)[n] = beatAt segment (segment.anchorQ32 +
      (before segment.anchorQ32 segment.periodQ32 segment.firstQ32 + n) * segment.periodQ32)
      (count + n) := by
  simp only [listedBeats, listedPositions, if_pos h, within, List.getElem_map, List.getElem_zipIdx,
    List.getElem_take, List.getElem_range', Nat.one_mul]
  rfl

/-- The walk from the first beat of a segment, one beat further than there is room. -/
theorem beatsFrom_first (h : Expanded segment) (count : ℕ) :
    beatsFrom segment segment.periodQ32 segment.endQ32 (globalMaxBeats - count + 1)
      (segment.anchorQ32 +
        before segment.anchorQ32 segment.periodQ32 segment.firstQ32 * segment.periodQ32) count =
      (List.range (min (globalMaxBeats - count + 1) (listedPositions segment).length)).map fun n =>
        beatAt segment (segment.anchorQ32 +
          before segment.anchorQ32 segment.periodQ32 segment.firstQ32 * segment.periodQ32 +
            n * segment.periodQ32) (count + n) := by
  rw [beatsFrom_eq segment (periodQ32_pos h) (endQ32_le h.toFrameSized), before_add_mul (periodQ32_pos h),
    length_listedPositions h]

theorem take_beatsFrom (h : Expanded segment) (count : ℕ) :
    (beatsFrom segment segment.periodQ32 segment.endQ32 (globalMaxBeats - count + 1)
      (segment.anchorQ32 +
        before segment.anchorQ32 segment.periodQ32 segment.firstQ32 * segment.periodQ32)
      count).take (globalMaxBeats - count) = listedBeats segment count := by
  rw [beatsFrom_first h, ← List.map_take, List.take_range]
  refine List.ext_getElem ?_ fun n hn hn' => ?_
  · rw [List.length_map, List.length_range, length_listedBeats]
    omega
  · rw [getElem_listedBeats h, List.getElem_map, List.getElem_range, Nat.add_mul, Nat.add_assoc]

/-- A generation whose arithmetic fits lists its beats, and marks what it leaves out. -/
theorem generateBeats_eq (segments : List GridSegment) (done : GeneratedBeats)
    (hword : ∀ segment ∈ segments, segment.WordSized)
    (hfits : ∀ segment ∈ segments, Expanded segment → Fits segment) :
    (generateBeats segments done).1 = .ok ∧
      (generateBeats segments done).2.segments =
        done.segments ++ (listing done.beats.length segments).map Prod.fst ∧
      (generateBeats segments done).2.beats =
        done.beats ++ (listing done.beats.length segments).flatMap Prod.snd := by
  induction segments generalizing done with
  | nil =>
      simp only [listing, List.map_nil, List.flatMap_nil, List.append_nil]
      exact ⟨rfl, rfl, rfl⟩
  | cons segment rest ih =>
      have ih := fun done => ih done (fun s hs => hword s (List.mem_cons_of_mem _ hs))
        (fun s hs => hfits s (List.mem_cons_of_mem _ hs))
      have hmem : segment ∈ segment :: rest := List.mem_cons_self
      simp only [listing, List.map_cons, List.flatMap_cons]
      rcases generateBeats_step segment rest done with
        ⟨hskip, heq⟩ | ⟨h, hnone, -⟩ | ⟨h, position, wanted, hfirst, hwanted, heq⟩
      · rw [heq, listedBeats_of_not hskip, listedSegment_of_not hskip]
        obtain ⟨hok, hsegments, hbeats⟩ := ih _
        refine ⟨hok, hsegments.trans ?_, hbeats⟩
        simp
      · have hfit := hfits segment hmem h
        rw [firstBeatPosition_of_offset (hword segment hmem) h hfit.offset,
          if_neg (not_lt.mpr hfit.position)] at hnone
        cases hnone
      · have hfit := hfits segment hmem h
        rw [firstBeatPosition_of_offset (hword segment hmem) h hfit.offset,
          if_neg (not_lt.mpr hfit.position)] at hfirst
        obtain rfl := Option.some.inj hfirst
        have hlisted := take_beatsFrom h done.beats.length
        rw [← hwanted] at hlisted
        rw [heq, hlisted]
        obtain ⟨hok, hsegments, hbeats⟩ := ih _
        refine ⟨hok, hsegments.trans ?_, hbeats.trans ?_⟩
        · simp [listedSegment, h]
        · simp

/-- A generation stops at a segment whose first beat does not fit 64 bits. -/
theorem generateBeats_overflow (segments : List GridSegment) (done : GeneratedBeats)
    (hword : ∀ segment ∈ segments, segment.WordSized)
    (hoffset : ∀ segment ∈ segments, Expanded segment → segment.anchorQ32 < segment.firstQ32 →
      segment.firstQ32 - segment.anchorQ32 + segment.periodQ32 - 1 ≤ uint64Max)
    (hover : ∃ segment ∈ segments, Expanded segment ∧ ¬Fits segment) :
    (generateBeats segments done).1 ≠ .ok := by
  induction segments generalizing done with
  | nil =>
      obtain ⟨_, hmem, -⟩ := hover
      cases hmem
  | cons segment rest ih =>
      have ih := fun done => ih done (fun s hs => hword s (List.mem_cons_of_mem _ hs))
        (fun s hs => hoffset s (List.mem_cons_of_mem _ hs))
      obtain ⟨meeting, hmem, hexpanded, hnot⟩ := hover
      rcases generateBeats_step segment rest done with
        ⟨hskip, heq⟩ | ⟨h, -, heq⟩ | ⟨h, position, _, hfirst, -, heq⟩
      · rw [heq]
        rcases List.mem_cons.mp hmem with rfl | hrest
        · exact absurd hexpanded hskip
        · exact ih _ ⟨meeting, hrest, hexpanded, hnot⟩
      · rw [heq]
        exact nofun
      · rw [heq]
        rcases List.mem_cons.mp hmem with rfl | hrest
        · have hoffset := hoffset meeting hmem h
          rw [firstBeatPosition_of_offset (hword meeting hmem) h hoffset] at hfirst
          split_ifs at hfirst with hle
          exact absurd ⟨hoffset, not_lt.mp hle⟩ hnot
        · exact ih _ ⟨meeting, hrest, hexpanded, hnot⟩

/-- What a generation leaves out is marked. -/
theorem generateBeats_marks (segments : List GridSegment) (done : GeneratedBeats)
    (hword : ∀ segment ∈ segments, segment.WordSized)
    (hfits : ∀ segment ∈ segments, Expanded segment → Fits segment)
    (hroom : done.beats.length ≤ globalMaxBeats)
    (hout : (∃ segment ∈ segments, ¬Expanded segment) ∨
      globalMaxBeats < done.beats.length + (segments.flatMap listedPositions).length) :
    (generateBeats segments done).2.flags.testBit 7 = true := by
  induction segments generalizing done with
  | nil =>
      rcases hout with ⟨_, hmem, -⟩ | hlt
      · cases hmem
      · simp only [List.flatMap_nil, List.length_nil] at hlt
        omega
  | cons segment rest ih =>
      have ih := fun done => ih done (fun s hs => hword s (List.mem_cons_of_mem _ hs))
        (fun s hs => hfits s (List.mem_cons_of_mem _ hs))
      have hmem : segment ∈ segment :: rest := List.mem_cons_self
      have hadd : (done.flags ||| gridFlagDegraded).testBit 7 = true := by
        rw [Nat.testBit_or]
        exact Bool.or_true _
      rcases generateBeats_step segment rest done with
        ⟨hskip, heq⟩ | ⟨h, hnone, -⟩ | ⟨h, position, wanted, hfirst, hwanted, heq⟩
      · rw [heq]
        exact generateBeats_flags _ _ hadd
      · have hfit := hfits segment hmem h
        rw [firstBeatPosition_of_offset (hword segment hmem) h hfit.offset,
          if_neg (not_lt.mpr hfit.position)] at hnone
        cases hnone
      · have hfit := hfits segment hmem h
        rw [firstBeatPosition_of_offset (hword segment hmem) h hfit.offset,
          if_neg (not_lt.mpr hfit.position)] at hfirst
        obtain rfl := Option.some.inj hfirst
        have hlength : wanted.length =
            min (globalMaxBeats - done.beats.length + 1) (listedPositions segment).length := by
          rw [hwanted, beatsFrom_first h, List.length_map, List.length_range]
        rw [heq]
        split_ifs with hfull
        · exact generateBeats_flags _ _ hadd
        · refine ih _ ?_ ?_
          · simp only [List.length_append, List.length_take]
            omega
          · refine hout.imp ?_ fun hlt => ?_
            · rintro ⟨other, hother, hnot⟩
              rcases List.mem_cons.mp hother with rfl | hrest
              · exact absurd h hnot
              · exact ⟨other, hrest, hnot⟩
            · simp only [List.flatMap_cons, List.length_append] at hlt
              simp only [List.length_append, List.length_take]
              omega

/-! ## What is listed -/

theorem listing_append (count : ℕ) (earlier later : List GridSegment) :
    listing count (earlier ++ later) = listing count earlier ++
      listing (count + ((listing count earlier).flatMap Prod.snd).length) later := by
  induction earlier generalizing count with
  | nil => rfl
  | cons segment rest ih =>
      simp only [List.cons_append, listing, ih, List.flatMap_cons, List.length_append, Nat.add_assoc]

theorem positions_listing (count : ℕ) (segments : List GridSegment) :
    ((listing count segments).flatMap Prod.snd).map Beat.positionQ32 =
      (segments.flatMap listedPositions).take (globalMaxBeats - count) := by
  induction segments generalizing count with
  | nil => rw [List.flatMap_nil, List.take_nil, listing, List.flatMap_nil, List.map_nil]
  | cons segment rest ih =>
      have hbeats : (listedBeats segment count).map Beat.positionQ32 =
          (listedPositions segment).take (globalMaxBeats - count) := by
        simp only [listedBeats, List.map_map, Function.comp_def, positionQ32_beatAt]
        exact List.zipIdx_map_fst _ _
      simp only [listing, List.flatMap_cons, List.map_append, ih, hbeats, List.take_append]
      rw [length_listedBeats]
      congr 2
      omega

theorem ordinals_listing (count : ℕ) (segments : List GridSegment) :
    ((listing count segments).flatMap Prod.snd).map Beat.ordinal =
      (List.range' count ((listing count segments).flatMap Prod.snd).length).map Nat.cast := by
  induction segments generalizing count with
  | nil => rfl
  | cons segment rest ih =>
      have hbeats : (listedBeats segment count).map Beat.ordinal =
          (List.range' count (listedBeats segment count).length).map Nat.cast := by
        rw [listedBeats, List.length_map, List.length_zipIdx, ← List.zipIdx_map_snd, List.map_map,
          List.map_map]
        rfl
      simp only [listing, List.flatMap_cons, List.map_append, ih, hbeats, List.length_append]
      rw [← List.map_append, List.range'_append_1]

theorem length_listing (count : ℕ) (segments : List GridSegment) :
    ((listing count segments).flatMap Prod.snd).length =
      min (globalMaxBeats - count) (segments.flatMap listedPositions).length := by
  rw [← List.length_map Beat.positionQ32, positions_listing, List.length_take]

/-- An entry of a listing is a segment, after the beats of the segments before it. -/
theorem listing_mem {count : ℕ} {segments : List GridSegment} {entry : GridSegment × List Beat}
    (h : entry ∈ listing count segments) :
    ∃ earlier segment later, segments = earlier ++ segment :: later ∧
      entry = (listedSegment segment (count + ((listing count earlier).flatMap Prod.snd).length),
        listedBeats segment (count + ((listing count earlier).flatMap Prod.snd).length)) := by
  induction segments generalizing count with
  | nil => cases h
  | cons segment rest ih =>
      rcases List.mem_cons.mp h with rfl | hrest
      · exact ⟨[], segment, rest, rfl, rfl⟩
      · obtain ⟨earlier, other, later, rfl, rfl⟩ := ih hrest
        refine ⟨segment :: earlier, other, later, rfl, ?_⟩
        simp only [listing, List.flatMap_cons, List.length_append, Nat.add_assoc]

/-- A listed beat is a term of the progression of its segment, and lies in its range. -/
theorem mem_listedBeats {count : ℕ} {beat : Beat} (h : beat ∈ listedBeats segment count) :
    Expanded segment ∧ count < globalMaxBeats ∧ beat.positionQ32 ∈ listedPositions segment ∧
      ∃ n : ℕ, beat = beatAt segment (segment.anchorQ32 +
        (before segment.anchorQ32 segment.periodQ32 segment.firstQ32 + n) * segment.periodQ32)
        (count + n) := by
  have hexpanded : Expanded segment := by
    by_contra hnot
    rw [listedBeats_of_not hnot] at h
    cases h
  obtain ⟨n, hn, hbeat⟩ := List.getElem_of_mem h
  have hlength := length_listedBeats segment count
  refine ⟨hexpanded, by omega, ?_, n, ?_⟩
  · obtain ⟨⟨position, ordinal⟩, hmem, rfl⟩ := List.mem_map.mp h
    rw [positionQ32_beatAt]
    exact List.mem_of_mem_take (List.fst_mem_of_mem_zipIdx hmem)
  · rw [← hbeat, getElem_listedBeats hexpanded]

/-- Of the beat counts, those of the segments left out count beats that are not listed. -/
theorem counts_listing (count : ℕ) (segments : List GridSegment) :
    (((listing count segments).map Prod.fst).map GridSegment.beatCount).sum =
      ((listing count segments).flatMap Prod.snd).length +
        ((segments.filter fun segment => ¬Expanded segment).map GridSegment.beatCount).sum := by
  induction segments generalizing count with
  | nil => rfl
  | cons segment rest ih =>
      simp only [listing, List.map_cons, List.sum_cons, List.flatMap_cons, List.length_append, ih]
      by_cases h : Expanded segment
      · rw [beatCount_listedSegment h, List.filter_cons_of_neg (by simpa using h)]
        omega
      · rw [listedBeats_of_not h, listedSegment_of_not h, List.filter_cons_of_pos (by simpa using h),
          List.map_cons, List.sum_cons, List.length_nil]
        omega

/-! ## The positions of a grid -/

/-- The positions of a segment from its anchor on that lie in its range. -/
def segmentPositions (segment : GridSegment) : Set ℕ :=
  {x | (∃ n : ℕ, x = segment.anchorQ32 + n * segment.periodQ32) ∧
    segment.firstQ32 ≤ x ∧ x < segment.endQ32}

/-- The positions of the segments that lie in the frames 32 bits number. -/
def gridPositions (segments : List GridSegment) : Set ℕ :=
  {x | ∃ segment ∈ segments, FrameSized segment ∧ x ∈ segmentPositions segment}

/-- The segments follow one another, and no two of them overlap. -/
def Disjoint (segments : List GridSegment) : Prop :=
  segments.Pairwise fun a b => a.applicabilityRange.endFrame ≤ b.applicabilityRange.firstFrame

theorem mem_listedPositions {x : ℕ} :
    x ∈ listedPositions segment ↔ Expanded segment ∧ x ∈ segmentPositions segment := by
  unfold listedPositions
  split_ifs with h
  · rw [mem_within (periodQ32_pos h)]
    exact (and_iff_right h).symm
  · exact iff_of_false List.not_mem_nil fun hmem => h hmem.1

theorem mem_flatMap_listed {segments : List GridSegment} {x : ℕ} :
    x ∈ segments.flatMap listedPositions ↔
      ∃ segment ∈ segments, Expanded segment ∧ x ∈ segmentPositions segment := by
  simp only [List.mem_flatMap, mem_listedPositions]

theorem listed_subset (segments : List GridSegment) :
    ∀ x ∈ segments.flatMap listedPositions, x ∈ gridPositions segments := by
  intro x hx
  obtain ⟨segment, hmem, hexpanded, hx⟩ := mem_flatMap_listed.mp hx
  exact ⟨segment, hmem, hexpanded.toFrameSized, hx⟩

theorem listed_pairwise {segments : List GridSegment} (hsorted : Disjoint segments) :
    (segments.flatMap listedPositions).Pairwise (· < ·) := by
  rw [List.pairwise_flatMap]
  refine ⟨fun segment _ => ?_, hsorted.imp fun {a b} hab x hx y hy => ?_⟩
  · unfold listedPositions
    split_ifs with h
    · exact within_pairwise (periodQ32_pos h)
    · exact List.Pairwise.nil
  · have hx := (mem_listedPositions.mp hx).2.2.2
    have hy := (mem_listedPositions.mp hy).2.2.1
    unfold GridSegment.endQ32 at hx
    unfold GridSegment.firstQ32 at hy
    omega

theorem gridPositions_finite (segments : List GridSegment) : (gridPositions segments).Finite := by
  refine (Set.finite_lt_nat (uint64Max + 1)).subset ?_
  rintro x ⟨segment, -, hsized, -, -, hlt⟩
  exact Nat.lt_succ_of_le (hlt.le.trans (endQ32_le hsized))

theorem length_listed_le {segments : List GridSegment} (hsorted : Disjoint segments) :
    (segments.flatMap listedPositions).length ≤ (gridPositions segments).ncard := by
  have hnodup : (segments.flatMap listedPositions).Nodup :=
    (listed_pairwise hsorted).imp Nat.ne_of_lt
  rw [← List.toFinset_card_of_nodup hnodup, ← Set.ncard_coe_finset]
  refine Set.ncard_le_ncard (fun x hx => ?_) (gridPositions_finite segments)
  exact listed_subset segments x (List.mem_toFinset.mp hx)

/-! ## Exact expansions -/

/-- The generation of the beats of a grid. -/
def expansion (segments : List GridSegment) (flags : ℕ) : Status × GeneratedBeats :=
  generateBeats segments ⟨[], [], flags⟩

/-- The positions a generation lists, in order. -/
def expandedPositions (segments : List GridSegment) (flags : ℕ) : List ℕ :=
  (expansion segments flags).2.beats.map Beat.positionQ32

/-- The grid is flagged as degraded. -/
def Degraded (flags : ℕ) : Prop := flags.testBit 7 = true

/-- The expansion of a grid is exact: it succeeds without a sum that wraps, lists positions of the grid
in increasing order and with consecutive ordinals, and leaves out only those for which the beat array
has no room; what is left out for want of room or as too large is flagged; every listed beat lies where
the formula of its segment puts its ordinal; and the segments count the listed beats. -/
structure ExpandsExactly (segments : List GridSegment) (flags : ℕ) : Prop where
  succeeds : (expansion segments flags).1 = .ok
  unwrapped : ∀ segment ∈ segments, Expanded segment → segment.anchorQ32 < segment.firstQ32 →
    segment.firstQ32 - segment.anchorQ32 + segment.periodQ32 - 1 ≤ uint64Max
  increasing : (expandedPositions segments flags).Pairwise (· < ·)
  sound : ∀ x ∈ expandedPositions segments flags, x ∈ gridPositions segments
  complete : ∀ x ∈ gridPositions segments, x ∉ expandedPositions segments flags →
    (expandedPositions segments flags).length = globalMaxBeats ∧
      (∀ y ∈ expandedPositions segments flags, y < x) ∧ Degraded (expansion segments flags).2.flags
  limited : ∀ segment ∈ segments, ¬FrameSized segment → Degraded (expansion segments flags).2.flags
  ordinals : (expansion segments flags).2.beats.map Beat.ordinal =
    (List.range (expansion segments flags).2.beats.length).map Nat.cast
  formula : ∀ segment ∈ (expansion segments flags).2.segments, FrameSized segment →
    ∀ beat ∈ (expansion segments flags).2.beats,
      segment.firstQ32 ≤ beat.positionQ32 → beat.positionQ32 < segment.endQ32 →
        (beat.positionQ32 : ℤ) =
          segment.anchorQ32 + (beat.ordinal - segment.anchorOrdinal) * segment.periodQ32
  counts : ((expansion segments flags).2.segments.map GridSegment.beatCount).sum =
    (expansion segments flags).2.beats.length

/-- The arithmetic of every segment fits 64 bits; a segment with beats, as long as there is room for
them, has whole frames in its period and does not start before its range; and a segment that is left
out comes with no beats. -/
structure Expandable (segments : List GridSegment) : Prop where
  fits : ∀ segment ∈ segments, Expanded segment → Fits segment
  reached : ∀ earlier segment later, segments = earlier ++ segment :: later → FrameSized segment →
    (gridPositions earlier).ncard < globalMaxBeats → (segmentPositions segment).Nonempty →
      segment.periodFrames ≠ 0 ∧ segment.firstQ32 ≤ segment.anchorQ32
  leftOut : ∀ segment ∈ segments, ¬Expanded segment → segment.beatCount = 0

variable {segments : List GridSegment} {flags : ℕ}

/-- What an expansion lists when its arithmetic fits. -/
theorem expansion_eq (flags : ℕ) (hword : ∀ segment ∈ segments, segment.WordSized)
    (hfits : ∀ segment ∈ segments, Expanded segment → Fits segment) :
    (expansion segments flags).1 = .ok ∧
      (expansion segments flags).2.segments = (listing 0 segments).map Prod.fst ∧
      (expansion segments flags).2.beats = (listing 0 segments).flatMap Prod.snd := by
  obtain ⟨hok, hsegments, hbeats⟩ := generateBeats_eq segments ⟨[], [], flags⟩ hword hfits
  exact ⟨hok, hsegments, hbeats⟩

theorem expandedPositions_eq (flags : ℕ) (hword : ∀ segment ∈ segments, segment.WordSized)
    (hfits : ∀ segment ∈ segments, Expanded segment → Fits segment) :
    expandedPositions segments flags = (segments.flatMap listedPositions).take globalMaxBeats := by
  rw [expandedPositions, (expansion_eq flags hword hfits).2.2, positions_listing]
  rfl

theorem applicabilityRange_listedSegment (segment : GridSegment) (count : ℕ) :
    (listedSegment segment count).applicabilityRange = segment.applicabilityRange := by
  unfold listedSegment
  split_ifs <;> rfl

theorem frameSized_listedSegment (h : FrameSized segment) (count : ℕ) :
    FrameSized (listedSegment segment count) := by
  unfold listedSegment
  split_ifs
  · exact ⟨h.period, h.anchor, h.first, h.past⟩
  · exact h

/-- The entries of a listing lie apart, as their segments do. -/
theorem listing_apart (hsorted : Disjoint segments) (count : ℕ) :
    (listing count segments).Pairwise (Apart (fun entry => entry.1.firstQ32)
      fun entry => entry.1.endQ32) := by
  induction segments generalizing count with
  | nil => exact List.Pairwise.nil
  | cons segment rest ih =>
      obtain ⟨hhead, hrest⟩ := List.pairwise_cons.mp hsorted
      refine List.pairwise_cons.mpr ⟨fun entry hentry => ?_, ih hrest _⟩
      obtain ⟨earlier, other, later, rfl, rfl⟩ := listing_mem hentry
      have hle := hhead other (List.mem_append_right _ List.mem_cons_self)
      left
      simp only [GridSegment.firstQ32, GridSegment.endQ32, applicabilityRange_listedSegment]
      omega

/-! ## Exact when expandable -/

theorem ncard_le_listed (h : ∀ x ∈ gridPositions segments, x ∈ segments.flatMap listedPositions) :
    (gridPositions segments).ncard ≤ (segments.flatMap listedPositions).length := by
  refine le_trans ?_ (List.toFinset_card_le _)
  rw [← Set.ncard_coe_finset]
  exact Set.ncard_le_ncard fun x hx => List.mem_toFinset.mpr (h x hx)

/-- As long as there is room the positions of the grid are listed. -/
theorem listed_or_full (segments : List GridSegment)
    (hreached : ∀ earlier segment later, segments = earlier ++ segment :: later →
      FrameSized segment → (gridPositions earlier).ncard < globalMaxBeats →
        (segmentPositions segment).Nonempty → segment.periodFrames ≠ 0) :
    (∀ x ∈ gridPositions segments, x ∈ segments.flatMap listedPositions) ∨
      globalMaxBeats ≤ (segments.flatMap listedPositions).length := by
  induction segments using List.reverseRecOn with
  | nil =>
      left
      rintro x ⟨segment, hmem, -⟩
      cases hmem
  | append_singleton earlier segment ih =>
      rw [List.flatMap_append, List.length_append]
      rcases ih fun a s b hsplit => hreached a s (b ++ [segment]) (by rw [hsplit]; simp) with
        hall | hfull
      · by_cases hroom : (earlier.flatMap listedPositions).length < globalMaxBeats
        · left
          rintro x ⟨other, hmem, hsized, hx⟩
          rcases List.mem_append.mp hmem with hmem | hmem
          · exact List.mem_append_left _ (hall x ⟨other, hmem, hsized, hx⟩)
          · obtain rfl := List.mem_singleton.mp hmem
            have hwhole := hreached earlier other [] rfl hsized
              ((ncard_le_listed hall).trans_lt hroom) ⟨x, hx⟩
            refine List.mem_append_right _ (mem_flatMap_listed.mpr ?_)
            exact ⟨other, List.mem_singleton_self _, ⟨hsized, hwhole⟩, hx⟩
        · right
          omega
      · right
        omega

/-- A position of the grid that is not listed is left out for want of room: the array is full, and of
lower positions. -/
theorem full_of_not_listed (hsorted : Disjoint segments)
    (hreached : ∀ earlier segment later, segments = earlier ++ segment :: later →
      FrameSized segment → (gridPositions earlier).ncard < globalMaxBeats →
        (segmentPositions segment).Nonempty → segment.periodFrames ≠ 0) {x : ℕ}
    (hx : x ∈ gridPositions segments)
    (hnot : x ∉ (segments.flatMap listedPositions).take globalMaxBeats) :
    ((segments.flatMap listedPositions).take globalMaxBeats).length = globalMaxBeats ∧
      (∀ y ∈ (segments.flatMap listedPositions).take globalMaxBeats, y < x) ∧
      ((∃ segment ∈ segments, ¬Expanded segment) ∨
        globalMaxBeats < (segments.flatMap listedPositions).length) := by
  obtain ⟨segment, hmem, hsized, hin⟩ := hx
  obtain ⟨earlier, later, rfl⟩ := List.append_of_mem hmem
  have hlisted := listed_pairwise hsorted
  have hreached' : ∀ a s b, earlier = a ++ s :: b → FrameSized s →
      (gridPositions a).ncard < globalMaxBeats → (segmentPositions s).Nonempty →
        s.periodFrames ≠ 0 :=
    fun a s b hsplit => hreached a s (b ++ segment :: later) (by rw [hsplit]; simp)
  have hown : Expanded segment → x ∈ (segment :: later).flatMap listedPositions := fun h =>
    mem_flatMap_listed.mpr ⟨segment, List.mem_cons_self, h, hin⟩
  rw [List.flatMap_append] at hlisted hnot ⊢
  by_cases hfull : globalMaxBeats ≤ (earlier.flatMap listedPositions).length
  · -- The segments before fill the array.
    rw [List.take_append_of_le_length hfull, List.length_take, List.length_append]
    refine ⟨min_eq_left hfull, fun y hy => ?_, ?_⟩
    · obtain ⟨other, hother, -, -, -, hlt⟩ := mem_flatMap_listed.mp (List.mem_of_mem_take hy)
      have hle := (List.pairwise_append.mp hsorted).2.2 other hother segment List.mem_cons_self
      have hfirst := hin.2.1
      unfold GridSegment.endQ32 at hlt
      unfold GridSegment.firstQ32 at hfirst
      omega
    · by_cases h : Expanded segment
      · have hpos := List.length_pos_of_mem (hown h)
        right
        omega
      · exact .inl ⟨segment, hmem, h⟩
  · -- There is room for the segment, so the position is listed behind the last one in the array.
    have hall := (listed_or_full earlier hreached').resolve_right hfull
    have hwhole := hreached earlier segment later rfl hsized
      ((ncard_le_listed hall).trans_lt (not_le.mp hfull)) ⟨x, hin⟩
    have hx := List.mem_append_right (earlier.flatMap listedPositions) (hown ⟨hsized, hwhole⟩)
    rw [← List.take_append_drop globalMaxBeats (_ ++ _)] at hx
    have hdrop := (List.mem_append.mp hx).resolve_left hnot
    have hlong := List.length_pos_of_mem hdrop
    rw [List.length_drop] at hlong
    refine ⟨?_, fun y hy => hlisted.rel_of_mem_take_of_mem_drop hy hdrop, .inr (by omega)⟩
    rw [List.length_take]
    omega

/-- Every listed beat lies where the formula of the segment of its range puts its ordinal. -/
theorem formula_listing (hsorted : Disjoint segments) (h : Expandable segments)
    {segment : GridSegment} (hsegment : segment ∈ (listing 0 segments).map Prod.fst) {beat : Beat}
    (hbeat : beat ∈ (listing 0 segments).flatMap Prod.snd)
    (hfirst : segment.firstQ32 ≤ beat.positionQ32) (hpast : beat.positionQ32 < segment.endQ32) :
    (beat.positionQ32 : ℤ) =
      segment.anchorQ32 + (beat.ordinal - segment.anchorOrdinal) * segment.periodQ32 := by
  obtain ⟨entry, hentry, rfl⟩ := List.mem_map.mp hsegment
  obtain ⟨source, hsource, hlisted⟩ := List.mem_flatMap.mp hbeat
  obtain ⟨earlier, origin, later, rfl, hlisting⟩ := listing_mem hsource
  rw [hlisting, Nat.zero_add, length_listing] at hlisted
  obtain ⟨hexpanded, hcount, hposition, n, hat⟩ := mem_listedBeats hlisted
  have hin := (mem_listedPositions.mp hposition).2
  -- The range is that of the segment the beat is listed for.
  have hsame : entry = source := by
    refine eq_of_apart (listing_apart hsorted 0) hentry hsource ⟨hfirst, hpast⟩ ?_
    rw [hlisting]
    simp only [GridSegment.firstQ32, GridSegment.endQ32, applicabilityRange_listedSegment]
    exact hin.2
  -- There was room for the beat, so the anchor is not before the range.
  have hroom : (gridPositions earlier).ncard < globalMaxBeats := by
    have hall := (listed_or_full earlier fun a s b hsplit hsized hlt hpositions =>
      (h.reached a s (b ++ origin :: later) (by rw [hsplit]; simp) hsized hlt hpositions).1
      ).resolve_right (by omega)
    have hlt := ncard_le_listed hall
    omega
  have hanchor := (h.reached earlier origin later rfl hexpanded.toFrameSized hroom ⟨_, hin⟩).2
  have hzero := before_eq_zero (periodQ32_pos hexpanded) hanchor
  rw [hsame, hlisting, Nat.zero_add, length_listing, hat, positionQ32_beatAt, ordinal_beatAt, hzero,
    listedSegment, if_pos hexpanded]
  simp only [GridSegment.anchorQ32, GridSegment.periodQ32]
  push_cast
  ring

/-- The expansion of an expandable grid is exact. -/
theorem expandsExactly_of_expandable (hword : ∀ segment ∈ segments, segment.WordSized)
    (hsorted : Disjoint segments) (h : Expandable segments) : ExpandsExactly segments flags := by
  obtain ⟨hok, hsegments, hbeats⟩ := expansion_eq flags hword h.fits
  have hpositions := expandedPositions_eq flags hword h.fits
  have hmarks := generateBeats_marks segments ⟨[], [], flags⟩ hword h.fits (Nat.zero_le _)
  rw [List.length_nil, Nat.zero_add] at hmarks
  constructor
  · exact hok
  · exact fun segment hmem hexpanded => (h.fits segment hmem hexpanded).offset
  · rw [hpositions]
    exact (listed_pairwise hsorted).sublist (List.take_sublist _ _)
  · intro x hx
    rw [hpositions] at hx
    exact listed_subset segments x (List.mem_of_mem_take hx)
  · intro x hx hnot
    rw [hpositions] at hnot ⊢
    obtain ⟨hfull, hlower, hout⟩ := full_of_not_listed hsorted
      (fun a s b hsplit hsized hlt hne => (h.reached a s b hsplit hsized hlt hne).1) hx hnot
    exact ⟨hfull, hlower, hmarks hout⟩
  · exact fun segment hmem hnot => hmarks (.inl ⟨segment, hmem, fun hexpanded =>
      hnot hexpanded.toFrameSized⟩)
  · rw [hbeats, ordinals_listing, List.range_eq_range']
  · rw [hsegments, hbeats]
    exact fun segment hsegment _ beat hbeat => formula_listing hsorted h hsegment hbeat
  · have hleft : ((segments.filter fun segment => ¬Expanded segment).map
        GridSegment.beatCount).sum = 0 := by
      refine List.sum_eq_zero fun count hcount => ?_
      obtain ⟨segment, hmem, rfl⟩ := List.mem_map.mp hcount
      obtain ⟨hmem, hnot⟩ := List.mem_filter.mp hmem
      exact h.leftOut segment hmem (by simpa using hnot)
    rw [hsegments, hbeats, counts_listing, hleft, Nat.add_zero]

/-- The first beat listed for a segment with beats, when there is room. -/
theorem head_listedBeats {count : ℕ} (hroom : count < globalMaxBeats) {x : ℕ}
    (hx : x ∈ listedPositions segment) :
    ∃ position ∈ listedPositions segment, beatAt segment position count ∈ listedBeats segment count := by
  obtain ⟨hexpanded, -⟩ := mem_listedPositions.mp hx
  have hpos := List.length_pos_of_mem hx
  have hlength := length_listedBeats segment count
  have hmem := List.getElem_mem (l := listedBeats segment count) (n := 0) (by omega)
  obtain ⟨-, -, hposition, -⟩ := mem_listedBeats hmem
  rw [getElem_listedBeats hexpanded] at hmem hposition
  rw [positionQ32_beatAt] at hposition
  exact ⟨_, hposition, by simpa using hmem⟩

/-- A position of a segment that is not listed is listed for no other segment, and what is listed below
it is listed for the segments before. -/
theorem listed_below {earlier later : List GridSegment}
    (hsorted : Disjoint (earlier ++ segment :: later)) (hskip : ¬Expanded segment) {x y : ℕ}
    (hx : x ∈ segmentPositions segment)
    (hy : y ∈ (earlier ++ segment :: later).flatMap listedPositions) :
    y ≠ x ∧ (y < x → y ∈ earlier.flatMap listedPositions) := by
  obtain ⟨-, hlater, hacross⟩ := List.pairwise_append.mp hsorted
  obtain ⟨other, hother, hexpanded, hin⟩ := mem_flatMap_listed.mp hy
  have hx := hx.2
  have hy := hin.2
  unfold GridSegment.firstQ32 GridSegment.endQ32 at hx hy
  rcases List.mem_append.mp hother with hmem | hmem
  · have hle := hacross other hmem segment List.mem_cons_self
    exact ⟨by omega, fun _ => mem_flatMap_listed.mpr ⟨other, hmem, hexpanded, hin⟩⟩
  · rcases List.mem_cons.mp hmem with rfl | hmem
    · exact absurd hexpanded hskip
    · have hle := (List.pairwise_cons.mp hlater).1 other hmem
      exact ⟨by omega, by omega⟩

/-- A grid whose expansion is exact is expandable. -/
theorem expandable_of_exactly (hword : ∀ segment ∈ segments, segment.WordSized)
    (hsorted : Disjoint segments) (h : ExpandsExactly segments flags) : Expandable segments := by
  have hfits : ∀ segment ∈ segments, Expanded segment → Fits segment := by
    intro segment hmem hexpanded
    by_contra hnot
    exact generateBeats_overflow segments ⟨[], [], flags⟩ hword h.unwrapped
      ⟨segment, hmem, hexpanded, hnot⟩ h.succeeds
  obtain ⟨-, hsegments, hbeats⟩ := expansion_eq flags hword hfits
  have hpositions := expandedPositions_eq flags hword hfits
  refine ⟨hfits, ?_, ?_⟩
  · rintro earlier segment later rfl hsized hroom ⟨x, hx⟩
    have hmem : segment ∈ earlier ++ segment :: later :=
      List.mem_append_right _ List.mem_cons_self
    obtain ⟨hearlier, hlater, hacross⟩ := List.pairwise_append.mp hsorted
    have hshort := (length_listed_le hearlier).trans_lt hroom
    have hwhole : segment.periodFrames ≠ 0 := by
      intro hzero
      have hskip : ¬Expanded segment := fun hexpanded => hexpanded.whole hzero
      have hbelow := fun y => listed_below hsorted hskip (y := y) hx
      obtain ⟨hfull, hlower, -⟩ := h.complete x ⟨segment, hmem, hsized, hx⟩ (by
        rw [hpositions]
        exact fun hlisted => (hbelow x (List.mem_of_mem_take hlisted)).1 rfl)
      -- The array is full, but only of the positions of the segments before.
      have hnodup : (expandedPositions _ flags).Nodup := h.increasing.imp Nat.ne_of_lt
      rw [hpositions] at hfull hlower hnodup
      have hle := (hnodup.subperm fun y hy =>
        (hbelow y (List.mem_of_mem_take hy)).2 (hlower y hy)).length_le
      omega
    refine ⟨hwhole, ?_⟩
    by_contra hbehind
    have hexpanded : Expanded segment := ⟨hsized, hwhole⟩
    obtain ⟨position, hposition, hlisted⟩ :=
      head_listedBeats hshort (mem_listedPositions.mpr ⟨hexpanded, hx⟩)
    have hentry : (listedSegment segment (earlier.flatMap listedPositions).length,
        listedBeats segment (earlier.flatMap listedPositions).length) ∈
        listing 0 (earlier ++ segment :: later) := by
      rw [listing_append, length_listing, Nat.zero_add, min_eq_right (by omega)]
      exact List.mem_append_right _ List.mem_cons_self
    have hin := (mem_listedPositions.mp hposition).2.2
    have hformula := h.formula _ (hsegments ▸ List.mem_map_of_mem hentry)
      (frameSized_listedSegment hsized _) _ (hbeats ▸ List.mem_flatMap_of_mem hentry hlisted)
      (by simpa only [GridSegment.firstQ32, applicabilityRange_listedSegment, positionQ32_beatAt]
        using hin.1)
      (by simpa only [GridSegment.endQ32, applicabilityRange_listedSegment, positionQ32_beatAt]
        using hin.2)
    rw [positionQ32_beatAt, ordinal_beatAt, listedSegment, if_pos hexpanded] at hformula
    simp only [sub_self, zero_mul, add_zero, Nat.cast_inj] at hformula
    -- The first beat listed would be the anchor, which lies before the range.
    exact hbehind (hin.1.trans_eq hformula)
  · intro segment hmem hnot
    have hcounts := h.counts
    rw [hsegments, hbeats, counts_listing] at hcounts
    have hzero : ((segments.filter fun segment => ¬Expanded segment).map
        GridSegment.beatCount).sum = 0 := by omega
    refine List.sum_eq_zero_iff.mp hzero _ (List.mem_map_of_mem ?_)
    exact List.mem_filter.mpr ⟨hmem, by simpa using hnot⟩

/-- The expansion of segments that follow one another is exact when they are expandable, and only
then. -/
theorem generateBeats_exact_iff (segments : List GridSegment) (flags : ℕ)
    (hword : ∀ segment ∈ segments, segment.WordSized) (hsorted : Disjoint segments) :
    ExpandsExactly segments flags ↔ Expandable segments :=
  ⟨expandable_of_exactly hword hsorted, expandsExactly_of_expandable hword hsorted⟩

/-- Two segments, of 120 and then of 100 beats a minute. -/
def slowing : List GridSegment :=
  [S4State.segmentOfTempo 44100 120000 ⟨0, 66150⟩,
    S4State.segmentOfTempo 44100 100000 ⟨66150, 145530⟩]

theorem expandsExactly_slowing : ExpandsExactly slowing 0 := by
  have hall : ∀ segment ∈ slowing, segment.WordSized ∧ Expanded segment ∧ Fits segment ∧
      segment.firstQ32 ≤ segment.anchorQ32 := by
    intro segment hmem
    simp only [slowing, List.mem_cons, List.not_mem_nil, or_false] at hmem
    rcases hmem with rfl | rfl
    all_goals
      refine ⟨by constructor <;> decide, by decide, by constructor <;> decide, by decide⟩
  have hsorted : Disjoint slowing := by
    unfold Disjoint slowing
    decide
  refine (generateBeats_exact_iff slowing 0 (fun s hs => (hall s hs).1) hsorted).mpr ⟨?_, ?_, ?_⟩
  · exact fun segment hmem _ => (hall segment hmem).2.2.1
  · intro earlier segment later hsplit _ _ _
    have hmem : segment ∈ slowing := by
      rw [hsplit]
      exact List.mem_append_right _ List.mem_cons_self
    exact ⟨(hall segment hmem).2.1.whole, (hall segment hmem).2.2.2⟩
  · exact fun segment hmem hnot => absurd (hall segment hmem).2.1 hnot

/-- A segment of two seconds from frame `2 ^ 32` on, as a commit counts it. -/
def distantSegment : GridSegment :=
  { S4State.segmentOfTempo 44100 120000 ⟨4294967296, 4295055496⟩ with
    beatCount := S4State.segmentBeatCount
      (S4State.segmentOfTempo 44100 120000 ⟨4294967296, 4295055496⟩) }

/-- A segment anchored a beat before its range. -/
def anchoredBefore : GridSegment :=
  { S4State.segmentOfTempo 44100 120000 ⟨22050, 66150⟩ with anchorFrame := 0 }

/-- No beat is listed for the distant segment, and it counts four; and the first beat of the other one
gets the ordinal of the anchor a beat before it. -/
theorem expansion_not_exact :
    (distantSegment.WordSized ∧ Disjoint [distantSegment] ∧ ¬ExpandsExactly [distantSegment] 0) ∧
      (anchoredBefore.WordSized ∧ Disjoint [anchoredBefore] ∧
        ¬ExpandsExactly [anchoredBefore] 0) := by
  refine ⟨⟨by constructor <;> decide, List.pairwise_singleton _ _, fun h => ?_⟩,
    ⟨by constructor <;> decide, List.pairwise_singleton _ _, fun h => ?_⟩⟩
  · exact absurd h.counts (by decide)
  · have hformula := h.formula
      { anchoredBefore with anchorOrdinal := 0, beatCount := 2 } (by decide)
      (by constructor <;> decide) ⟨22050, 0, 0, 100, 0, 1⟩ (by decide) (by decide) (by decide)
    exact absurd hformula (by decide)

end S6State

end LibApta
