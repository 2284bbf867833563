import LibApta.Serialization.Detail
import LibApta.Serialization.GlobalGrid
import LibApta.Serialization.MetaPayload
import LibApta.Serialization.Overview
import LibApta.Serialization.Sections
import LibApta.Serialization.Storage

/-!
# The parser

`resultParse` is built in layers. The base layer validates the container and the overview and builds
a result; each later layer runs the layer below, extends its result, and releases it when it finds
a fault in the data or gets no memory.
-/

namespace LibApta.Container

open LittleEndian

/-! ## Bytes a result takes -/

/-- The arrays of a result: element count and element size. -/
def allocationTerms (sizes : Sizes) (data : ResultData) : List (ℕ × ℕ) :=
  let spans := (data.overview.map Overview.spans).getD []
  (spans.length, sizes.span) :: spans.map (fun span => (span.columns.length, sizes.column)) ++
    (data.detailTiles.length, sizes.tile) ::
      data.detailTiles.map (fun tile => (tile.columns.length, sizes.column)) ++
    [((data.metadata.map Metadata.storageSize).getD 0, 1),
      ((data.tempo.map fun tempo => tempo.candidates.length).getD 0, sizes.candidate),
      (data.localGrid.toList.length, sizes.range),
      ((data.localGrid.map fun grid => grid.segments.length).getD 0, sizes.segment)] ++
    match data.globalGrid with
    | none => []
    | some (grid, _) =>
        [(1, sizes.gridState), (1, sizes.range), (grid.segments.length, sizes.segment),
          (grid.beats.length, sizes.beat)]

/-- Add an array to a total, unless the sum leaves 64 bits. -/
def allocationAdd (total : ℕ) (term : ℕ × ℕ) : Option ℕ :=
  if term.1 ≠ 0 ∧ (uint64Max - total) / term.1 < term.2 then none
  else some (total + term.1 * term.2)

/-- The bytes a result takes, if they fit 64 bits. -/
def resultAllocationBytes (sizes : Sizes) (data : ResultData) : Option ℕ :=
  (allocationTerms sizes data).foldlM allocationAdd sizes.result

/-- The limit leaves room for more bytes besides those of the result. -/
def resultAllocationFits (sizes : Sizes) (data : ResultData) (additional limit : ℕ) : Bool :=
  match resultAllocationBytes sizes data with
  | none => false
  | some existing => decide (existing ≤ limit) && decide (additional ≤ limit - existing)

/-! ## Base layer -/

/-- The data of a result nothing was written to. -/
def emptyData : ResultData where
  specificationMajor := 0
  specificationMinor := 0
  producerApiVersion := 0
  containerVersion := 0
  generation := 0
  availableFeatures := ∅
  changedFeatures := ∅
  sessionState := .created
  totalSourceFrames := 0
  sourceSampleRate := 0
  sourceChannelCount := 0
  sourceChannelLayout := 0
  fingerprintKind := 0
  fingerprint := []
  overview := none
  detailTiles := []
  metadata := none
  tempo := none
  localGrid := none
  globalGrid := none

/-- A result without data and without arrays. -/
def Parsed.empty : Parsed := ⟨emptyData, fun _ => none⟩

/-- The data of a result with an overview. -/
def baseData (container : Header) (header : WovrHeader) (spans : List Span)
    (columns : List Column) : ResultData where
  specificationMajor := container.specificationMajor
  specificationMinor := container.specificationMinor
  producerApiVersion := container.producerApiVersion
  containerVersion := 1
  generation := 1
  availableFeatures :=
    if columns.any Column.has3Band then {.waveformOverview, .waveform3Band}
    else {.waveformOverview}
  changedFeatures := {.waveformOverview}
  sessionState := if container.isPartial then .active else .completed
  totalSourceFrames := container.totalSourceFrames
  sourceSampleRate := container.sourceSampleRate
  sourceChannelCount := container.sourceChannelCount
  sourceChannelLayout := container.sourceChannelLayout
  fingerprintKind := container.fingerprintKind
  fingerprint := container.fingerprint
  overview := some
    { levelId := header.levelId
      framesPerColumn := header.framesPerColumn
      originFrame := header.originFrame
      state := header.state
      confidence := unknownConfidence
      spans := spans }
  detailTiles := []
  metadata := none
  tempo := none
  localGrid := none
  globalGrid := none

/-- Build the result of an overview that was validated. -/
def buildParsedResult (sizes : Sizes) (options : EffectiveOptions) (input : WovrInput)
    (packedColumnCount : ℕ) : Attempt Work ErrorCode Unit := do
  let header ← Attempt.check (readWovrHeader input.payload)
  let needed ← Attempt.check (Check.within uint64Max (sizes.result +
    header.spanCount * sizes.span + packedColumnCount * sizes.column))
  Attempt.rejectIf (options.maximumAllocationBytes < needed) .limitExceeded
  allocateInto .result sizes.result
  (allocateInto .overviewSpans (header.spanCount * sizes.span)).onReject (freeSlots [.result])
  (allocateInto .overviewColumns (packedColumnCount * sizes.column)).onReject
    (freeSlots [.overviewSpans, .result])
  let copied ← Attempt.check
    (copyOverview header.spanCount packedColumnCount input.payload header)
  setData fun _ => baseData input.header header copied.1 copied.2
  countResult (· + 1)

/-- Validate the container and its overview and build the result. -/
def parseBase (sizes : Sizes) (options : Option ParseOptions) (bytes : Bytes) :
    Attempt Work ErrorCode Unit := do
  let effective ← Attempt.check (resolveParseOptions options)
  let input ← Attempt.check (validateContainer effective bytes)
  let packedColumnCount ← Attempt.check (validateWovrGeometry effective input)
  buildParsedResult sizes effective input packedColumnCount

/-! ## Stages -/

/-- Check the coverage and the packed intervals of the overview. -/
def hardenWovr (bytes : Bytes) : Attempt Work ErrorCode Unit := do
  let found ← Attempt.check (findWovrPayload bytes)
  let totalSourceFrames ← Attempt.check (Check.read 8 bytes 40)
  match found with
  | none => Attempt.reject .corruptData
  | some payload => do
      let header ← Attempt.check (readWovrHeader payload)
      Attempt.rejectIf (uint64Max < header.spanCount * intervalSize) .limitExceeded
      let intervals ← allocateTemporary (header.spanCount * intervalSize)
      (Attempt.check (hardenIntervals header.spanCount totalSourceFrames payload header)).ensuring
        (deallocateTemporary intervals)

/-- Measure the detail sections into an interval array and test the intervals. -/
def validateDetail (options : Option ParseOptions) (capacity : ℕ) (bytes : Bytes) :
    Check ErrorCode DetailLayout := do
  let layout ← measureDetail options (some capacity) bytes
  Check.rejectIf (Interval.collides (Interval.sorted layout.totals.intervals) = true) .corruptData
  return layout

/-- Attach the detail tiles. -/
def attachDetail (sizes : Sizes) (options : Option ParseOptions) (bytes : Bytes) :
    Attempt Work ErrorCode Unit := do
  let layout ← Attempt.check (measureDetail options none bytes)
  if layout.sectionCount = 0 then pure ()
  else do
    let needed ← Attempt.check (Check.within uint64Max
      (layout.tileCount * (sizes.tile + intervalSize) + layout.totals.columnCount * sizes.column))
    let work ← Attempt.get
    Attempt.rejectIf
      (resultAllocationFits sizes work.parsed.data needed (allocationLimit options) = false ∨
        uint64Max < layout.tileCount * intervalSize) .limitExceeded
    let intervals ← allocateTemporary (layout.tileCount * intervalSize)
    let layout ← (Attempt.check (validateDetail options layout.tileCount bytes)).ensuring
      (deallocateTemporary intervals)
    allocateInto .detailTiles (layout.tileCount * sizes.tile)
    allocateInto .detailColumns (layout.totals.columnCount * sizes.column)
    let copied ← Attempt.check (copyDetail layout.tileCount layout.totals.columnCount bytes)
    let tiles ← Attempt.check (sortTiles copied.1)
    setData fun data => { data with
      detailTiles := tiles
      availableFeatures := insert .waveformDetail data.availableFeatures
      changedFeatures := insert .waveformDetail data.changedFeatures }

/-- The texts of the metadata in the order they are stored. -/
def metadataTexts (metadata : Metadata) : List Bytes :=
  [metadata.producerName.getD [], metadata.producerVersionString.getD [],
    metadata.backendName.getD [], metadata.backendVersion.getD [],
    (metadata.applicationSourceId.map SourceId.payload).getD [], metadata.comments.getD []]

/-- Store a text behind the texts already stored. -/
def storeText (capacity : ℕ) (_index : ℕ) (text written : Bytes) : Check ErrorCode Bytes :=
  if written.length + text.length ≤ capacity then .ok (written ++ text) else Check.fault

/-- Copy the texts of the metadata into a storage of the given size. -/
def storeMetadata (capacity : ℕ) (metadata : Metadata) : Check ErrorCode Bytes :=
  Check.walk (storeText capacity) 0 (metadataTexts metadata) []

/-- Attach the metadata. -/
def attachMetadata (sizes : Sizes) (options : Option ParseOptions) (bytes : Bytes) :
    Attempt Work ErrorCode Unit := do
  let found ← Attempt.check (findMetaSection bytes)
  match found with
  | none => pure ()
  | some payload => do
      let metadata ← Attempt.check (metaParsePayload payload)
      let needed ← Attempt.check (Check.within uint64Max metadata.storageSize)
      let work ← Attempt.get
      Attempt.rejectIf
        (resultAllocationFits sizes work.parsed.data needed (allocationLimit options) = false)
        .limitExceeded
      Attempt.rejectIf (metadata.isValid = false) .invalidArgument
      if metadata.storageSize = 0 then pure ()
      else allocateInto .metadataStorage metadata.storageSize
      let _stored ← Attempt.check (storeMetadata metadata.storageSize metadata)
      setData fun data => { data with metadata := some metadata }

/-- Attach the tempo. -/
def parseTemp (sizes : Sizes) (options : Option ParseOptions) (context : PayloadContext)
    (payload : Bytes) : Attempt Work ErrorCode Unit := do
  let header ← Attempt.check (validateTempHeader context payload)
  let needed ← Attempt.check
    (Check.within uint64Max (header.candidateCount * sizes.candidate))
  let work ← Attempt.get
  Attempt.rejectIf
    (resultAllocationFits sizes work.parsed.data needed (allocationLimit options) = false)
    .limitExceeded
  allocateInto .tempoCandidates needed
  let candidates ← Attempt.check
    (copyCandidates header.candidateCount context payload header.candidateCount)
  setData fun data => { data with
    tempo := some ⟨header.selected, candidates⟩
    availableFeatures := insert .bpm (insert .confidence data.availableFeatures) }

/-- The grid is locked. -/
def Grid.isLocked (grid : Grid) : Bool := grid.flags.testBit gridFlagBitLocked

/-- Attach the local grid. -/
def parseLocalGrid (sizes : Sizes) (options : Option ParseOptions) (context : PayloadContext)
    (payload : Bytes) : Attempt Work ErrorCode Unit := do
  let lgrd ← Attempt.check (validateLocalGrid context payload)
  let work ← Attempt.get
  Attempt.rejectIf (resultAllocationFits sizes work.parsed.data (sizes.range + sizes.segment)
    (allocationLimit options) = false) .limitExceeded
  Attempt.rejectIf (lgrd.segment.nominalTempoMillibpm ≠
    (work.parsed.data.tempo.map fun tempo => tempo.selected.tempoMillibpm).getD 0) .corruptData
  tryAllocateInto .localCoverage sizes.range
  tryAllocateInto .localSegments sizes.segment
  let work ← Attempt.get
  Attempt.rejectIf (work.parsed.pointers .localCoverage = none ∨
    work.parsed.pointers .localSegments = none) .outOfMemory
  setData fun data => { data with
    localGrid := some lgrd.grid
    availableFeatures := (if lgrd.grid.isLocked then {.gridLocking} else ∅) ∪
      insert .localBeatgrid data.availableFeatures }

/-- What the tempo and grid readers use of the options and the container flags. -/
def payloadContext (options : Option ParseOptions) (containerFlags : ℕ) : PayloadContext :=
  ⟨isStrict options, containerFlags.testBit flagPartialResult⟩

/-- Attach the tempo and the local grid. -/
def attachTempo (sizes : Sizes) (options : Option ParseOptions) (bytes : Bytes) :
    Attempt Work ErrorCode Unit := do
  let containerFlags ← Attempt.check (Check.read 4 bytes 16)
  let found ← Attempt.check (findTempoSections (isStrict options) bytes)
  match found.1 with
  | none => pure ()
  | some temp => do
      parseTemp sizes options (payloadContext options containerFlags) temp.payload
      match found.2 with
      | none => pure ()
      | some grid =>
          parseLocalGrid sizes options (payloadContext options containerFlags) grid.payload

/-- The grid has a dynamic tempo. -/
def Grid.isDynamic (grid : Grid) : Bool := grid.flags.testBit gridFlagBitDynamicTempo

/-- Read a global grid into arrays of the result. -/
def parseGlobalGrid (sizes : Sizes) (options : Option ParseOptions) (context : PayloadContext)
    (payload : Bytes) : Attempt Work ErrorCode Grid := do
  let header ← Attempt.check (validateGgrdHeader context payload)
  let needed ← Attempt.check (Check.within uint64Max (sizes.gridState + sizes.range +
    header.segmentCount * sizes.segment + header.beatCount * sizes.beat))
  let work ← Attempt.get
  Attempt.rejectIf
    (resultAllocationFits sizes work.parsed.data needed (allocationLimit options) = false)
    .limitExceeded
  allocateInto .gridState sizes.gridState
  tryAllocateInto .gridCoverage sizes.range
  tryAllocateInto .gridSegments (header.segmentCount * sizes.segment)
  if header.beatCount = 0 then pure ()
  else tryAllocateInto .gridBeats (header.beatCount * sizes.beat)
  let work ← Attempt.get
  Attempt.rejectIf (work.parsed.pointers .gridCoverage = none ∨
    work.parsed.pointers .gridSegments = none ∨
    (header.beatCount ≠ 0 ∧ work.parsed.pointers .gridBeats = none)) .outOfMemory
  let segments ← Attempt.check (copySegments header.segmentCount context payload header)
  let beats ← Attempt.check (copyBeats header.beatCount context payload header)
  return header.grid segments beats

/-- Attach the global grid and its revision. -/
def attachGrid (sizes : Sizes) (options : Option ParseOptions) (bytes : Bytes) :
    Attempt Work ErrorCode Unit := do
  let containerFlags ← Attempt.check (Check.read 4 bytes 16)
  let found ← Attempt.check (findGridSections (isStrict options) bytes)
  match found with
  | none => pure ()
  | some (gridSection, revisionSection) => do
      let work ← Attempt.get
      Attempt.rejectIf (Feature.bpm ∉ work.parsed.data.availableFeatures) .corruptData
      let context := payloadContext options containerFlags
      let grid ← parseGlobalGrid sizes options context gridSection.payload
      let revision ← Attempt.check (parseRevision context revisionSection.payload grid)
      setData fun data => { data with
        globalGrid := some (grid, revision)
        availableFeatures := (if grid.isDynamic then {.dynamicTempo} else ∅) ∪
          (if grid.confidence = unknownConfidence then ∅ else {.confidence}) ∪
          insert .globalBeatgrid data.availableFeatures }

/-! ## Layers -/

/-- What a call of the parser leaves behind: its status, the result it gives out, the context. -/
structure Reply where
  status : Check ErrorCode Unit
  resultOut : Option Parsed
  context : Context

/-- The reply of a run on a result: only a run without error gives the result out. -/
def Reply.ofRun : Except (Stop ErrorCode) Unit × Work → Reply
  | (.ok (), work) => ⟨.ok (), some work.parsed, work.context⟩
  | (.error stop, work) => ⟨.error stop, none, work.context⟩

/-- The base layer. -/
def resultParseBase (sizes : Sizes) (options : Option ParseOptions) (bytes : Bytes)
    (context : Context) : Reply :=
  Reply.ofRun (parseBase sizes options bytes ⟨context, Parsed.empty⟩)

/-- A layer: run the layer below, extend its result, release the result on an error. -/
def extend (inner : Context → Reply) (stage : Attempt Work ErrorCode Unit) (context : Context) :
    Reply :=
  let reply := inner context
  match reply.status, reply.resultOut with
  | .error stop, _ => ⟨.error stop, none, reply.context⟩
  | .ok (), none => ⟨Check.fault, none, reply.context⟩
  | .ok (), some parsed => Reply.ofRun (stage.onReject releaseResult ⟨reply.context, parsed⟩)

/-- The layer that answers for the options and for what the metadata reader calls an argument. -/
def hardenMeta (options : Option ParseOptions) (inner : Context → Reply) (context : Context) :
    Reply :=
  if optionsValid options = false then ⟨Check.reject .invalidArgument, none, context⟩
  else
    let reply := inner context
    if reply.status = Check.reject .invalidArgument then
      ⟨Check.reject .corruptData, none, reply.context⟩
    else reply

/-- The overview layers. -/
def resultParseWovrHardened (sizes : Sizes) (options : Option ParseOptions) (bytes : Bytes) :
    Context → Reply :=
  extend (resultParseBase sizes options bytes) (hardenWovr bytes)

/-- The waveform layers. -/
def resultParseWaveform (sizes : Sizes) (options : Option ParseOptions) (bytes : Bytes) :
    Context → Reply :=
  extend (resultParseWovrHardened sizes options bytes) (attachDetail sizes options bytes)

/-- The layers up to the metadata. -/
def resultParseMetaHardened (sizes : Sizes) (options : Option ParseOptions) (bytes : Bytes) :
    Context → Reply :=
  hardenMeta options
    (extend (resultParseWaveform sizes options bytes) (attachMetadata sizes options bytes))

/-- The layers up to the local grid. -/
def resultParseS4 (sizes : Sizes) (options : Option ParseOptions) (bytes : Bytes) :
    Context → Reply :=
  extend (resultParseMetaHardened sizes options bytes) (attachTempo sizes options bytes)

/-- Parse a serialized result. -/
def resultParse (sizes : Sizes) (options : Option ParseOptions) (bytes : Bytes) :
    Context → Reply :=
  extend (resultParseS4 sizes options bytes) (attachGrid sizes options bytes)

end LibApta.Container
