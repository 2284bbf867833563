import LibApta.Serialization.Assembly
import LibApta.Serialization.Detail
import LibApta.Serialization.Overview

/-!
# Writing the waveform sections

The two inner layers of the writer. The first lays out a container with an overview section; the
second moves the overview payload and adds a section with the detail tiles. The payloads read back
as the spans, tiles and columns they were made of.
-/

namespace LibApta.Container

open LittleEndian Packing

/-! ## Options and sizes -/

/-- Serialize options. A zero limit means no limit. -/
structure SerializeOptions where
  flags : ℕ
  maximumOutputBytes : ℕ
  reserved32 : List ℕ
  reserved64 : List ℕ
deriving DecidableEq

/-- The options a caller may pass: no unknown flag, no reserved field in use. -/
def serializationOptionsAreValid : Option SerializeOptions → Bool
  | none => true
  | some options => decide (options.flags < 2) && options.reserved32.all (· == 0) &&
      options.reserved64.all (· == 0)

/-- The options allow an output of this size. -/
def outputAllowed : Option SerializeOptions → ℕ → Bool
  | none, _ => true
  | some options, total =>
      decide (options.maximumOutputBytes = 0) || decide (total ≤ options.maximumOutputBytes)

/-- The next multiple of eight in 64 bits. -/
def align8 (value : ℕ) : Check Status ℕ := do
  Check.rejectIf (uint64Max - 7 < value) (.error .limitExceeded)
  return alignUp sectionAlignment value

/-- A buffer of `capacity` bytes holds the output. -/
def requireRoom (capacity total : ℕ) : Check Status Unit := do
  Check.rejectIf (uint64Max < total) (.error .limitExceeded)
  Check.rejectIf (capacity < total) (.error .bufferTooSmall)

/-- The fingerprint of a source is valid for its kind. -/
def sourceFingerprintIsValid (kind : ℕ) (fingerprint : Bytes) : Bool :=
  if kind = 0 then fingerprint.all fun byte => decide (byte = 0)
  else decide (kind = 1) || decide (kind = 2)

/-! ## Columns -/

/-- The packed record of a column. -/
def packColumn (column : Column) : Bytes :=
  encode 2 (unsigned 65536 column.minimum) ++ encode 2 (unsigned 65536 column.maximum) ++
    encode 2 column.rms ++ encode 1 column.low ++ encode 1 column.mid ++ encode 1 column.high ++
    encode 1 column.flags

/-- The packed records of columns. -/
def packColumns (columns : List Column) : Bytes := (columns.map packColumn).flatten

/-! ## Overview -/

/-- The layout of a container with an overview. -/
structure WovrLayout where
  totalSize : ℕ
  payloadSize : ℕ
  packedColumnCount : ℕ
  logicalColumnCount : ℕ
  containerFlags : ℕ
  wovrFlags : ℕ
deriving DecidableEq

/-- The totals of the spans measured so far. -/
structure SpanTotals where
  packedColumns : ℕ
  logicalColumns : ℕ
  previousEnd : ℕ
deriving DecidableEq

/-- The column after the last one of the span. -/
def Span.endColumn (span : Span) : ℕ := span.firstColumnIndex + span.columns.length

/-- The overview of a result; an absent one has no columns per frame. -/
def requireOverview (data : ResultData) : Check Status Overview :=
  match data.overview with
  | none => Check.reject (.error .internal)
  | some overview => .ok overview

/-- Check a span and add it to the totals. -/
def measureSpan (index : ℕ) (span : Span) (totals : SpanTotals) : Check Status SpanTotals := do
  Check.rejectIf (span.sourceRange.endFrame ≤ span.sourceRange.firstFrame ∨ span.columns = [] ∨
    (index ≠ 0 ∧ span.sourceRange.firstFrame < totals.previousEnd) ∨
    uint32Max - span.firstColumnIndex < span.columns.length) (.error .internal)
  Check.rejectIf (uint32Max - totals.packedColumns < span.columns.length) (.error .limitExceeded)
  Check.rejectIf (span.columns.any (fun column => column.flags.testBit columnFlagValid &&
    decide (column.maximum < column.minimum)) = true) (.error .internal)
  return ⟨totals.packedColumns + span.columns.length, max totals.logicalColumns span.endColumn,
    span.sourceRange.endFrame⟩

/-- The logical columns: those of a known duration, or up to the end of the last span. -/
def measureLogicalColumns (data : ResultData) (overview : Overview) (spanColumns : ℕ) :
    Check Status ℕ :=
  if data.totalSourceFrames = totalFramesUnknown then .ok spanColumns
  else do
    Check.rejectIf (data.totalSourceFrames < overview.originFrame) (.error .internal)
    let required :=
      requiredColumns overview.framesPerColumn (data.totalSourceFrames - overview.originFrame)
    Check.rejectIf (uint32Max < required ∨ required < spanColumns) (.error .limitExceeded)
    return required

/-- The container flags of a result by its overview, its session and its duration. -/
def overviewContainerFlags (data : ResultData) (overview : Overview) : ℕ :=
  let flags :=
    if overview.state ≠ stateFinal ∨ data.sessionState ≠ .completed then 2 ^ flagPartialResult
    else 0
  if data.totalSourceFrames = totalFramesUnknown then
    flags ||| (2 ^ flagPartialResult ||| 2 ^ flagDurationUnknown)
  else flags

/-- Lay out a container with an overview. -/
def serializationCalculateLayout (data : ResultData) (options : Option SerializeOptions) :
    Check Status WovrLayout := do
  Check.rejectIf (serializationOptionsAreValid options = false) (.error .invalidArgument)
  Check.rejectIf (Feature.waveformOverview ∉ data.availableFeatures) .notAvailable
  let overview ← requireOverview data
  Check.rejectIf (overview.framesPerColumn = 0 ∨ overview.spans = [] ∨
    overview.state < statePartial ∨ stateFinal < overview.state ∨ data.sourceSampleRate = 0 ∨
    data.sourceChannelCount = 0 ∨ 65535 < data.sourceChannelCount ∨
    65535 < data.sourceChannelLayout ∨
    sourceFingerprintIsValid data.fingerprintKind data.fingerprint = false) (.error .internal)
  let totals ← Check.walk measureSpan 0 overview.spans ⟨0, 0, 0⟩
  let logicalColumns ← measureLogicalColumns data overview totals.logicalColumns
  Check.rejectIf (logicalColumns = 0 ∨ uint32Max < logicalColumns) (.error .internal)
  let spanBytes := overview.spans.length * wovrSpanSize
  let columnBytes := totals.packedColumns * packedColumnSize
  Check.rejectIf (uint64Max - wovrHeaderSize < spanBytes ∨
    uint64Max - (wovrHeaderSize + spanBytes) < columnBytes) (.error .limitExceeded)
  let payloadSize := wovrHeaderSize + spanBytes + columnBytes
  Check.rejectIf (uint64Max - payloadStart 1 < payloadSize) (.error .limitExceeded)
  let totalSize := payloadStart 1 + payloadSize
  Check.rejectIf (outputAllowed options totalSize = false) (.error .limitExceeded)
  return {
    totalSize, payloadSize
    packedColumnCount := totals.packedColumns
    logicalColumnCount := logicalColumns
    containerFlags := overviewContainerFlags data overview
    wovrFlags := overview.state % 8 }

/-- The span records of an overview; the columns of a span start behind those of the spans before
it. -/
def spanEntries : (packedOffset : ℕ) → List Span → List SpanEntry
  | _, [] => []
  | packedOffset, span :: rest =>
      { firstFrame := span.sourceRange.firstFrame
        endFrame := span.sourceRange.endFrame
        firstColumn := span.firstColumnIndex
        columnCount := span.columns.length
        dataColumnOffset := packedOffset
        reserved := 0 } :: spanEntries (packedOffset + span.columns.length) rest

/-- A record of the span directory. -/
def packSpanEntry (span : SpanEntry) : Bytes :=
  encode 8 span.firstFrame ++ encode 8 span.endFrame ++ encode 4 span.firstColumn ++
    encode 4 span.columnCount ++ encode 4 span.dataColumnOffset ++ encode 4 span.reserved

/-- The header of an overview payload. -/
def packWovrHeader (header : WovrHeader) : Bytes :=
  encode 4 header.levelId ++ encode 4 header.framesPerColumn ++ encode 8 header.originFrame ++
    encode 4 header.logicalColumnCount ++ encode 4 header.spanCount ++
    encode 8 header.spanDirectoryOffset ++ encode 8 header.columnDataOffset ++
    encode 4 header.flags ++ encode 4 header.reserved

/-- The header the writer gives an overview. -/
def wovrHeaderFor (overview : Overview) (logicalColumnCount flags : ℕ) : WovrHeader where
  levelId := overview.levelId
  framesPerColumn := overview.framesPerColumn
  originFrame := overview.originFrame
  logicalColumnCount := logicalColumnCount
  spanCount := overview.spans.length
  spanDirectoryOffset := wovrHeaderSize
  columnDataOffset := wovrHeaderSize + overview.spans.length * wovrSpanSize
  flags := flags
  reserved := 0

/-- The payload of an overview section. -/
def wovrPayload (overview : Overview) (logicalColumnCount flags : ℕ) : Bytes :=
  packWovrHeader (wovrHeaderFor overview logicalColumnCount flags) ++
    (((spanEntries 0 overview.spans).map packSpanEntry).flatten ++
      packColumns (overview.spans.flatMap Span.columns))

/-- Write a container with an overview. -/
def resultSerializeWovr (data : ResultData) (options : Option SerializeOptions) (capacity : ℕ) :
    Check Status Bytes := do
  let layout ← serializationCalculateLayout data options
  requireRoom capacity layout.totalSize
  let overview ← requireOverview data
  let payload := wovrPayload overview layout.logicalColumnCount layout.wovrFlags
  return sealHeader (headerBytes data layout.containerFlags 1 layout.totalSize) ++
    (recordOf SectionTag.overview.bytes payload (2 ^ flagRequired) (payloadStart 1) ++ payload)

/-- The size of a container with an overview. -/
def resultQuerySerializedSizeWovr (data : ResultData) (options : Option SerializeOptions) :
    Check Status ℕ := do
  let layout ← serializationCalculateLayout data options
  return layout.totalSize

/-! ## Detail tiles -/

/-- The layout of a container with an overview and perhaps detail tiles. -/
structure WdtlLayout where
  baseSize : ℕ
  wovrPayloadSize : ℕ
  wdtlPayloadSize : ℕ
  wdtlPayloadOffset : ℕ
  totalSize : ℕ
  containerFlagsOr : ℕ
  hasWdtl : Bool
deriving DecidableEq

/-- The column after the last one of the tile. -/
def Tile.endColumn (tile : Tile) : ℕ := tile.firstColumnIndex + tile.columns.length

/-- A tile that does not come after another in level and index. -/
def Tile.outOfOrder (previous tile : Tile) : Bool :=
  decide (tile.levelId < previous.levelId) ||
    (decide (tile.levelId = previous.levelId) && decide (tile.tileIndex ≤ previous.tileIndex))

/-- Check a tile against the source and the tile before it. -/
def wdtlValidateTile (totalSourceFrames : ℕ) (previous : Option Tile) (tile : Tile) :
    Check Status Unit := do
  Check.rejectIf (tile.levelId ≠ wdtlLevelId) (.error .unsupported)
  Check.rejectIf (previous.any (fun previous => previous.outOfOrder tile) = true) (.error .internal)
  Check.rejectIf (tile.sourceRange.endFrame ≤ tile.sourceRange.firstFrame ∨ tile.columns = [] ∨
    tile.state < statePartial ∨ stateFinal < tile.state ∨ tile.flags ≠ 0 ∨
    confidenceIsValid tile.confidence = false) (.error .internal)
  Check.rejectIf (uint32Max / wdtlColumnsPerTile < tile.tileIndex) (.error .limitExceeded)
  let tileFirstColumn := tile.tileIndex * wdtlColumnsPerTile
  Check.rejectIf (tile.firstColumnIndex < tileFirstColumn ∨
    tileFirstColumn + wdtlColumnsPerTile < tile.endColumn) (.error .internal)
  let expectedFirst := tile.firstColumnIndex * wdtlFramesPerColumn
  let expectedEnd := tile.endColumn * wdtlFramesPerColumn
  Check.rejectIf (tile.sourceRange.firstFrame ≠ expectedFirst) (.error .internal)
  Check.rejectIf (tile.sourceRange.endFrame ≠ expectedEnd ∧
    (totalSourceFrames = totalFramesUnknown ∨ tile.sourceRange.endFrame ≠ totalSourceFrames ∨
      expectedEnd ≤ totalSourceFrames)) (.error .internal)
  Check.rejectIf (totalSourceFrames ≠ totalFramesUnknown ∧
    totalSourceFrames < tile.sourceRange.endFrame) (.error .internal)
  Check.rejectIf (tile.state = stateFinal ∧ totalSourceFrames = totalFramesUnknown)
    (.error .internal)
  Check.rejectIf (tile.columns.any (columnRejected true) = true) (.error .internal)

/-- The totals of the tiles measured so far. -/
structure WdtlTotals where
  packedColumns : ℕ
  containerFlagsOr : ℕ
  previous : Option Tile
deriving DecidableEq

/-- Check a tile and add it to the totals. -/
def wdtlMeasureTile (totalSourceFrames : ℕ) (_index : ℕ) (tile : Tile) (totals : WdtlTotals) :
    Check Status WdtlTotals := do
  wdtlValidateTile totalSourceFrames totals.previous tile
  Check.rejectIf (uint32Max - tile.columns.length < totals.packedColumns) (.error .limitExceeded)
  return ⟨totals.packedColumns + tile.columns.length,
    if tile.state = stateFinal then totals.containerFlagsOr
    else totals.containerFlagsOr ||| 2 ^ flagPartialResult, some tile⟩

/-- Lay out a container with an overview and perhaps detail tiles. -/
def wdtlCalculateLayout (data : ResultData) (options : Option SerializeOptions) :
    Check Status WdtlLayout := do
  let baseSize ← resultQuerySerializedSizeWovr data options
  Check.rejectIf (baseSize < payloadStart 1) (.error .internal)
  if Feature.waveformDetail ∉ data.availableFeatures ∨ data.detailTiles = [] then
    return ⟨baseSize, 0, 0, 0, baseSize, 0, false⟩
  else do
    let totals ← Check.walk (wdtlMeasureTile data.totalSourceFrames) 0 data.detailTiles
      ⟨0, 0, none⟩
    let tileBytes := data.detailTiles.length * wdtlTileSize
    let columnBytes := totals.packedColumns * packedColumnSize
    Check.rejectIf (uint64Max - wdtlHeaderSize < tileBytes ∨
      uint64Max - (wdtlHeaderSize + tileBytes) < columnBytes) (.error .limitExceeded)
    let wovrPayloadSize := baseSize - payloadStart 1
    let wdtlPayloadSize := wdtlHeaderSize + tileBytes + columnBytes
    Check.rejectIf (uint64Max - payloadStart 2 < wovrPayloadSize) (.error .limitExceeded)
    let wdtlPayloadOffset ← align8 (payloadStart 2 + wovrPayloadSize)
    Check.rejectIf (uint64Max - wdtlPayloadOffset < wdtlPayloadSize) (.error .limitExceeded)
    let totalSize := wdtlPayloadOffset + wdtlPayloadSize
    Check.rejectIf (outputAllowed options totalSize = false) (.error .limitExceeded)
    return {
      baseSize, wovrPayloadSize, wdtlPayloadSize, wdtlPayloadOffset, totalSize
      containerFlagsOr := totals.containerFlagsOr
      hasWdtl := true }

/-- The descriptors of tiles; the columns of a tile start behind those of the tiles before it. -/
def tileEntries (columnsOffset : ℕ) : (packedOffset : ℕ) → List Tile → List TileEntry
  | _, [] => []
  | packedOffset, tile :: rest =>
      { levelId := tile.levelId
        tileIndex := tile.tileIndex
        firstFrame := tile.sourceRange.firstFrame
        endFrame := tile.sourceRange.endFrame
        firstColumn := tile.firstColumnIndex
        columnCount := tile.columns.length
        columnsOffset := columnsOffset + packedOffset * packedColumnSize
        state := tile.state
        flags := 0
        confidence := tile.confidence
        reserved := 0 } :: tileEntries columnsOffset (packedOffset + tile.columns.length) rest

/-- A tile descriptor. -/
def packTileEntry (tile : TileEntry) : Bytes :=
  encode 4 tile.levelId ++ encode 4 tile.tileIndex ++ encode 8 tile.firstFrame ++
    encode 8 tile.endFrame ++ encode 4 tile.firstColumn ++ encode 4 tile.columnCount ++
    encode 8 tile.columnsOffset ++ encode 4 tile.state ++ encode 2 tile.flags ++
    encode 1 tile.confidence ++ encode 1 tile.reserved

/-- Where the columns of a detail payload start. -/
def wdtlColumnsOffset (tiles : List Tile) : ℕ := wdtlHeaderSize + tiles.length * wdtlTileSize

/-- The payload of a detail section. -/
def wdtlPayload (tiles : List Tile) : Bytes :=
  encode 4 tiles.length ++ encode 4 0 ++ encode 8 wdtlHeaderSize ++
    (((tileEntries (wdtlColumnsOffset tiles) 0 tiles).map packTileEntry).flatten ++
      packColumns (tiles.flatMap Tile.columns))

/-- Write a container with an overview and perhaps detail tiles. The overview payload moves behind
the second directory record. -/
def resultSerializeWaveform (data : ResultData) (options : Option SerializeOptions)
    (capacity : ℕ) : Check Status Bytes := do
  let layout ← wdtlCalculateLayout data options
  requireRoom capacity layout.totalSize
  let base ← resultSerializeWovr data options capacity
  if layout.hasWdtl = false then return base
  else do
    Check.rejectIf (base.length ≠ layout.baseSize) (.error .internal)
    let overview := slice base (payloadStart 1) layout.wovrPayloadSize
    let detail := wdtlPayload data.detailTiles
    let flagged := patch (base.take 92) 16
      (encode 4 (field 4 base 16 ||| layout.containerFlagsOr))
    let counted := patch flagged 20 (encode 4 2)
    let header := patch counted 32 (encode 8 layout.totalSize)
    return sealHeader header ++
      (recordOf SectionTag.overview.bytes overview (2 ^ flagRequired) (payloadStart 2) ++
        (recordOf SectionTag.detail.bytes detail 0 layout.wdtlPayloadOffset ++
          (overview ++ (List.replicate
            (layout.wdtlPayloadOffset - (payloadStart 2 + layout.wovrPayloadSize)) 0 ++ detail))))

/-- The size of a container with an overview and perhaps detail tiles. -/
def resultQuerySerializedSizeWaveform (data : ResultData) (options : Option SerializeOptions) :
    Check Status ℕ := do
  let layout ← wdtlCalculateLayout data options
  return layout.totalSize

end LibApta.Container
