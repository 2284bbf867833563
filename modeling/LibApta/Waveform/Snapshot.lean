import LibApta.Core.Result
import LibApta.Waveform.Detail

/-!
# Waveform views of a result

Quantisation of accumulators, the overview as spans of consecutive complete columns, and the
published runs of the detail tiles. The general and the bounded result builders compute the same
views and differ in the features they announce.
-/

namespace LibApta

/-! ## Quantisation -/

/-- Quantise a peak to sixteen bits. -/
def quantizePeak (value : ℚ) : ℤ :=
  if value ≤ -1 then -32768
  else if 1 ≤ value then 32767
  else min (max (Rounding.roundEven (f64 (value * 32767))) (-32768)) 32767

/-- Quantise the root mean square of a column to sixteen bits. -/
def quantizeRms (sumSquares sampleCount : ℕ) : ℕ :=
  if sampleCount = 0 then 0
  else
    let rms := f64 (Rounding.binary64.sqrt (f64 (f64 sumSquares / f64 sampleCount)) / 8388608)
    (min (max (Rounding.roundEven (f64 (min (max rms 0) 1 * 65535))) 0) 65535).toNat

/-- Quantise the mean magnitude of a band to a byte. -/
def quantizeBand (sum sampleCount : ℕ) : ℕ :=
  if sampleCount = 0 then 0 else min (sum * 255 / (sampleCount * 32768)) 255

/-- The published column of an accumulator, with its bands when they are computed. -/
def waveformColumn (hasBands : Bool) (acc : Accumulator) : WaveformColumn where
  minimum := quantizePeak acc.minimum
  maximum := quantizePeak acc.maximum
  rms := quantizeRms acc.sumSquares acc.sampleCount
  low := if hasBands then quantizeBand acc.bandSums.low acc.sampleCount else 0
  mid := if hasBands then quantizeBand acc.bandSums.mid acc.sampleCount else 0
  high := if hasBands then quantizeBand acc.bandSums.high acc.sampleCount else 0
  clipped := acc.clipped
  has3Band := hasBands

/-! ## Overview -/

/-- Clip the end of a range to the end of input. -/
def clipToEnd (endOfInput : Option ℕ) (frame : ℕ) : ℕ :=
  match endOfInput with
  | some finalEnd => min frame finalEnd
  | none => frame

/-- Group accumulators into maximal runs of consecutive column indices. -/
def columnRuns : List Accumulator → List (List Accumulator)
  | [] => []
  | acc :: rest =>
      match columnRuns rest with
      | (next :: run) :: runs =>
          if next.columnIndex = acc.columnIndex + 1 then (acc :: next :: run) :: runs
          else [acc] :: (next :: run) :: runs
      | _ => [[acc]]

/-- The span of a run of columns. -/
def waveformSpan (hasBands : Bool) (framesPerColumn : ℕ) (endOfInput : Option ℕ)
    (run : List Accumulator) : WaveformSpan :=
  let first := (run.map Accumulator.columnIndex).headD 0
  { firstColumnIndex := first
    sourceRange :=
      ⟨first * framesPerColumn, clipToEnd endOfInput ((first + run.length) * framesPerColumn)⟩
    columns := run.map (waveformColumn hasBands) }

/-- The spans of the complete columns of a store. -/
def overviewSpans (hasBands : Bool) (framesPerColumn : ℕ) (endOfInput : Option ℕ)
    (accumulators : List Accumulator) : List WaveformSpan :=
  (columnRuns (accumulators.filter Accumulator.complete)).map
    (waveformSpan hasBands framesPerColumn endOfInput)

/-- Percentage of the expected columns that are complete, when confidence was requested and the
length of the track is known. -/
def overviewConfidence (config : Config) (framesPerColumn : ℕ) (endOfInput : Option ℕ)
    (completeColumns : ℕ) : ℕ :=
  if !config.requests .confidence then confidenceUnknown
  else
    match endOfInput.or config.totalFrames with
    | none => confidenceUnknown
    | some total =>
        -- The sum wraps for the largest totals, which then count as unknown.
        let expected := (total + framesPerColumn - 1) % 18446744073709551616 / framesPerColumn
        if expected = 0 then confidenceUnknown
        else if expected ≤ completeColumns then confidenceMax
        else completeColumns * confidenceMax / expected

/-- The spans are one run of all frames of the ended input. -/
def fullCoverage (endOfInput : Option ℕ) (spans : List WaveformSpan) : Bool :=
  match endOfInput, spans with
  | some finalEnd, [span] => decide (span.sourceRange = ⟨0, finalEnd⟩)
  | _, _ => false

/-- The overview of a snapshot; none while no column is complete. -/
def overviewSnapshot (config : Config) (framesPerColumn : ℕ) (endOfInput : Option ℕ)
    (state : SessionState) (overview : Overview) : Option OverviewView :=
  if !config.requests .waveformOverview || overview.completeCount = 0 then none
  else
    let spans := overviewSpans (config.requests .waveform3Band) framesPerColumn endOfInput
      overview.accumulators
    some {
      framesPerColumn := framesPerColumn
      confidence := overviewConfidence config framesPerColumn endOfInput
        (overview.accumulators.countP Accumulator.complete)
      state :=
        if fullCoverage endOfInput spans then
          if state = .completed then .final else .stable
        else .part
      spans := spans }

/-- The features an overview makes available. The bounded builder does not announce the bands. -/
def overviewAvailable (config : Config) (view : Option OverviewView) : FeatureMask :=
  match view with
  | none => ∅
  | some _ =>
      {.waveformOverview} ∪
        (if config.requests .waveform3Band && !config.boundedResultSlots then {.waveform3Band}
          else ∅) ∪
        (if config.requests .confidence then {.confidence} else ∅)

/-! ## Detail -/

/-- The view of the published run of a tile. -/
def detailTileView (endOfInput : Option ℕ) (tile : DetailTile) (first count : ℕ) :
    DetailTileView where
  tileIndex := tile.tileIndex
  firstColumnIndex := tile.tileIndex * detailColumnsPerTile + first
  sourceRange := Detail.runRange endOfInput tile first count
  state :=
    if first = 0 ∧ count = Detail.expectedTileColumns endOfInput tile.tileIndex then
      if endOfInput.isSome then .final else .stable
    else .part
  columns := ((tile.accumulators.drop first).take count).map (waveformColumn false)

/-- The views of the tiles with a published run, by tile index. -/
def detailSnapshot (config : Config) (endOfInput : Option ℕ) (detail : Detail) :
    List DetailTileView :=
  if !config.requests .waveformDetail then []
  else
    stageSort (fun view other => decide (view.tileIndex < other.tileIndex))
      (detail.tiles.filterMap fun slot => match slot with
        | some tile => match tile.run with
          | some (first, count) =>
              if count = 0 then none else some (detailTileView endOfInput tile first count)
          | none => none
        | none => none)

end LibApta
