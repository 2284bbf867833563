import LibApta.Memory.PoolLayout
import LibApta.Query.Published
import LibApta.Session.StoreInvariants
import LibApta.Waveform.SnapshotPasses

/-!
# The builders of a pooled result

A session with bounded result slots writes its snapshot into the arrays of a slot. Each builder counts
what it is going to write, refuses what is too much for the slot, and then writes; a write past the end
of an array would be a fault, and so would be a read past the end of the columns of a tile.
-/

namespace LibApta

open Check Memory

/-- What the builders have written to the arrays of a slot. -/
structure PooledArrays where
  metadata : List UInt8
  overviewSpans : List SpanRecord
  overviewColumns : List WaveformColumn
  detailTiles : List DetailTileView
  detailColumns : List WaveformColumn
  tempoCandidates : List TempoCandidate
  localGridCoverage : List FrameRange
  localGridSegments : List GridSegment
  globalGridState : List (GridView × GridRevision)
  globalGridCoverage : List FrameRange
  globalGridSegments : List GridSegment
  globalGridBeats : List Beat

namespace PooledArrays

/-- A slot that has just been taken. -/
def cleared : PooledArrays := ⟨[], [], [], [], [], [], [], [], [], [], [], []⟩

end PooledArrays

/-- The texts of the metadata, in the order in which they are stored. -/
def Metadata.texts (metadata : Metadata) : List (List UInt8) :=
  [metadata.producerName.getD [], metadata.producerVersionString.getD [],
    metadata.backendName.getD [], metadata.backendVersion.getD [],
    (metadata.applicationSourceId.map SourceId.payload).getD [], metadata.comments.getD []]

/-- `apta_pool_region_is_valid` for an array of the slot. -/
def regionIsValid (p : Platform) (layout : ResultPoolLayout) (array : SlotArray) :
    Check ErrorCode Unit := do
  let region := (layout.regions.lookup array).getD ⟨0, 0, 0⟩
  let bytes ← within p.sizeMax (layout.capacity array * region.size)
  rejectIf (layout.slotBytes < region.offset ∨ layout.slotBytes - region.offset < bytes) .internal

namespace SnapshotFill

/-- Close the last span, which must be there once a column is written. -/
def closeWithin (framesPerColumn : ℕ) (endOfInput : Option ℕ) (fill : SnapshotFill) :
    Check ErrorCode SnapshotFill :=
  if fill.previous.isSome then do
    let _ ← minus fill.spans.length 1
    .ok (fill.close framesPerColumn endOfInput)
  else .ok fill

/-- Open a span in an array with room for `capacity` spans. -/
def openWithin (capacity framesPerColumn : ℕ) (endOfInput : Option ℕ) (columnIndex : ℕ)
    (fill : SnapshotFill) : Check ErrorCode SnapshotFill :=
  if startsSpan fill.previous columnIndex then do
    let closed ← fill.closeWithin framesPerColumn endOfInput
    let spans ← push capacity closed.spans
      ⟨columnIndex, columnIndex * framesPerColumn, 0, closed.columns.length, 0⟩
    .ok { closed with spanStart := closed.columns.length, spans := spans }
  else .ok fill

/-- One entry of the second pass of the pooled builder. -/
def stepWithin (layout : ResultPoolLayout) (hasBands : Bool) (framesPerColumn : ℕ)
    (endOfInput : Option ℕ) (acc : Accumulator) (fill : SnapshotFill) :
    Check ErrorCode SnapshotFill :=
  if !acc.complete then .ok fill
  else do
    let opened ← fill.openWithin (layout.capacity .overviewSpans) framesPerColumn endOfInput
      acc.columnIndex
    let columns ← push (layout.capacity .overviewColumns) opened.columns
      (waveformColumn hasBands acc)
    .ok { opened with columns := columns, previous := some acc.columnIndex }

end SnapshotFill

/-- Note the published run of a slot of the tile cache: the runs so far, and their columns. -/
def countRun (slot : Option DetailTile) (state : List (DetailTile × ℕ × ℕ) × ℕ) :
    Check ErrorCode (List (DetailTile × ℕ × ℕ) × ℕ) :=
  match slot with
  | some tile =>
      match tile.run with
      | some (first, count) =>
          if count = 0 then .ok state
          else do
            rejectIf (uint32Max - state.2 < count) .limitExceeded
            .ok (state.1 ++ [(tile, first, count)], state.2 + count)
      | none => .ok state
  | none => .ok state

/-- Write a column of a tile. -/
def writeColumn (capacity first : ℕ) (tile : DetailTile) (column : ℕ)
    (written : List WaveformColumn) : Check ErrorCode (List WaveformColumn) :=
  match tile.accumulators[first + column]? with
  | some acc => push capacity written (waveformColumn false acc)
  | none => fault

/-- Write the view of a published run, and its columns. -/
def writeRun (layout : ResultPoolLayout) (endOfInput : Option ℕ) (run : DetailTile × ℕ × ℕ)
    (written : List DetailTileView × List WaveformColumn) :
    Check ErrorCode (List DetailTileView × List WaveformColumn) := do
  let tiles ← push (layout.capacity .detailTiles) written.1
    (detailTileView endOfInput run.1 run.2.1 run.2.2)
  let columns ← loop (writeColumn (layout.capacity .detailColumns) run.2.1 run.1) 0 run.2.2 written.2
  .ok (tiles, columns)

namespace Session

section Builders

variable (p : Platform) (layout : ResultPoolLayout) (s : Session)

/-- `apta_pool_build_metadata`. -/
def poolBuildMetadata (arrays : PooledArrays) : Check ErrorCode PooledArrays :=
  match s.metadata with
  | none => .ok arrays
  | some metadata => do
      rejectIf (layout.capacity .metadata < metadata.storageSize) .limitExceeded
      regionIsValid p layout .metadata
      let storage ← walk (fun _ text written => copy (layout.capacity .metadata) written text) 0
        metadata.texts []
      rejectIf (storage.length ≠ metadata.storageSize) .internal
      .ok { arrays with metadata := storage }

/-- `apta_pool_build_overview`. -/
def poolBuildOverview (arrays : PooledArrays) : Check ErrorCode PooledArrays :=
  if !s.config.requests .waveformOverview || s.overview.completeCount = 0 then .ok arrays
  else do
    rejectIf (layout.capacity .overviewColumns < s.overview.completeCount ∨
      layout.capacity .overviewSpans < spanCount s.overview.accumulators) .limitExceeded
    regionIsValid p layout .overviewSpans
    regionIsValid p layout .overviewColumns
    let fill ← walk (fun _ => SnapshotFill.stepWithin layout (s.config.requests .waveform3Band)
      s.framesPerColumn s.endOfInput) 0 s.overview.accumulators .empty
    let fill ← fill.closeWithin s.framesPerColumn s.endOfInput
    .ok { arrays with overviewSpans := fill.spans, overviewColumns := fill.columns }

/-- `apta_pool_build_detail`. -/
def poolBuildDetail (arrays : PooledArrays) : Check ErrorCode PooledArrays :=
  if !s.config.requests .waveformDetail then .ok arrays
  else do
    let counted ← walk (fun _ => countRun) 0 s.detail.tiles ([], 0)
    if counted.1 = [] then .ok arrays
    else do
      rejectIf (layout.capacity .detailTiles < counted.1.length ∨
        layout.capacity .detailColumns < counted.2) .limitExceeded
      regionIsValid p layout .detailTiles
      regionIsValid p layout .detailColumns
      let written ← walk (fun _ => writeRun layout s.endOfInput) 0
        (stageSort (fun run other => decide (run.1.tileIndex < other.1.tileIndex)) counted.1) ([], [])
      .ok { arrays with detailTiles := written.1, detailColumns := written.2 }

/-- The tempo part of `apta_s4_pool_build`. -/
def poolBuildTempo (arrays : PooledArrays) : Check ErrorCode PooledArrays :=
  if s.s4.estimate.isSome && s.config.requests .bpm then do
    rejectIf (layout.capacity .tempoCandidates < s.s4.candidateCount) .limitExceeded
    let candidates ← copy (layout.capacity .tempoCandidates) []
      (s.s4.candidates.take s.s4.candidateCount)
    .ok { arrays with tempoCandidates := candidates }
  else .ok arrays

/-- The local grid of `apta_s4_pool_build`. -/
def poolBuildLocalGrid (arrays : PooledArrays) : Check ErrorCode PooledArrays :=
  match s.s4.estimate with
  | none => .ok arrays
  | some estimate =>
      if s.config.requests .localBeatgrid then do
        rejectIf (layout.capacity .localGridCoverage < 1 ∨ layout.capacity .localGridSegments < 1)
          .limitExceeded
        let coverage ← push (layout.capacity .localGridCoverage) [] estimate.coverageRange
        let segments ← push (layout.capacity .localGridSegments) []
          { estimate.segment with state := s.finalized estimate.segment.state }
        .ok { arrays with localGridCoverage := coverage, localGridSegments := segments }
      else .ok arrays

/-- `apta_s6_pool_build`. -/
def poolBuildGlobalGrid (arrays : PooledArrays) : Check ErrorCode PooledArrays :=
  match s.s6 with
  | none => .ok arrays
  | some s6 =>
      if !s6.hasGlobalGrid then .ok arrays
      else do
        rejectIf (layout.capacity .globalGridCoverage < 1 ∨
          layout.capacity .globalGridSegments < s6.segments.length ∨
          layout.capacity .globalGridBeats < s6.beats.length) .limitExceeded
        let state ← push (layout.capacity .globalGridState) []
          ({
            requestedRange := s6.requestedRange
            evidenceRange := s6.evidenceRange
            applicabilityRange := s6.applicabilityRange
            coverageRange := s6.coverageRange
            representation := s6.representation
            state := s.finalized s6.state
            confidence := s6.confidence
            flags := s6.flags
            segments := s6.segments.map fun segment =>
              { segment with state := s.finalized segment.state }
            beats := s6.beats }, s6.revision)
        let coverage ← push (layout.capacity .globalGridCoverage) [] s6.coverageRange
        let segments ← copy (layout.capacity .globalGridSegments) []
          (s6.segments.map fun segment => { segment with state := s.finalized segment.state })
        let beats ← copy (layout.capacity .globalGridBeats) [] s6.beats
        .ok { arrays with
          globalGridState := state
          globalGridCoverage := coverage
          globalGridSegments := segments
          globalGridBeats := beats }

/-- `apta_internal_result_pool_create_session_result` in a slot that is free. -/
def createPooledResult : Check ErrorCode PooledArrays := do
  regionIsValid p layout .result
  let arrays ← s.poolBuildMetadata p layout .cleared
  let arrays ← s.poolBuildOverview p layout arrays
  let arrays ← s.poolBuildDetail p layout arrays
  let arrays ← s.poolBuildTempo layout arrays
  let arrays ← s.poolBuildLocalGrid layout arrays
  s.poolBuildGlobalGrid layout arrays

end Builders

end Session

end LibApta
