import LibApta.Lib.InPlace
import LibApta.Serialization.GridWriter
import LibApta.Serialization.MetaWriter
import LibApta.Serialization.WaveformWriter

/-!
# Writing a container

The outer layers of the writer. The metadata layer, the tempo layer and the grid layer each let the
layer below fill the caller's buffer and append their sections to the container it left there; the
outermost layer looks through the sections and marks the container as partial.
-/

namespace LibApta.Container

open LittleEndian Packing InPlace

/-- A buffer that was filled, and how many of its bytes are the output. -/
structure Written where
  buffer : Bytes
  size : ℕ
deriving DecidableEq

/-! ## Appending sections -/

/-- The sizes a layer works with: of the container below, and of its own. -/
structure AppendLayout where
  baseSize : ℕ
  totalSize : ℕ
deriving DecidableEq

/-- Place payloads of the given sizes behind a cursor. -/
def placeSections : (cursor : ℕ) → List ℕ → Check Status ℕ
  | cursor, [] => return cursor
  | cursor, size :: rest => do
      let offset ← align8 cursor
      Check.rejectIf (uint64Max - size < offset) (.error .limitExceeded)
      placeSections (offset + size) rest

/-- The size of a container once sections with payloads of the given sizes are appended. -/
def layoutSections (options : Option SerializeOptions) (baseSize : ℕ) (sizes : List ℕ) :
    Check Status ℕ :=
  if sizes = [] then return baseSize
  else do
    let entryBytes := sizes.length * directoryEntrySize
    Check.rejectIf (uint64Max - entryBytes < baseSize) (.error .limitExceeded)
    let totalSize ← placeSections (baseSize + entryBytes) sizes
    Check.rejectIf (outputAllowed options totalSize = false) (.error .limitExceeded)
    return totalSize

/-- Where the first payload of the container in a buffer starts. -/
def firstPayloadOffset (buffer : Bytes) (count : ℕ) : ℕ :=
  (records directoryEntrySize buffer headerSize count).foldl
    (fun first record => min first (field 8 record 8)) uint64Max

/-- The number of sections of the container in a buffer, and where its first payload starts. -/
def locateSections (baseSize added : ℕ) (buffer : Bytes) : Check Status (ℕ × ℕ) := do
  let oldCount := field 4 buffer 20
  Check.rejectIf (oldCount = 0 ∨ field 8 buffer 24 ≠ headerSize ∨ uint32Max - added < oldCount)
    (.error .internal)
  let first := firstPayloadOffset buffer oldCount
  Check.rejectIf (first = uint64Max ∨ baseSize < first) (.error .internal)
  return (oldCount, first)

/-- Correct the offset in a directory record. -/
def shiftOffset (shift : ℕ) (record : Bytes) : Bytes :=
  patch record 8 (encode 8 (field 8 record 8 + shift))

/-- Write the section count, the file size and the header checksum. -/
def sealContainer (count totalSize : ℕ) (buffer : Bytes) : Bytes :=
  let counted := patch buffer 20 (encode 4 count)
  let sized := patch counted 32 (encode 8 totalSize)
  patch sized 92 (encode 4 (crc32c (sized.take 92)))

/-- Append sections to the container in a buffer. Its payloads move behind the new directory
records, so that their offsets grow by the size of these. -/
def appendSections (layout : AppendLayout) (oldCount first : ℕ) (parts : List Part)
    (buffer : Bytes) : Written :=
  let entryBytes := parts.length * directoryEntrySize
  let moved := move buffer (first + entryBytes) first (layout.baseSize - first)
  let shifted := mapRecords directoryEntrySize (shiftOffset entryBytes) headerSize oldCount moved
  let filled := writePacked sectionAlignment 0 Prod.snd (layout.baseSize + entryBytes) parts shifted
  let listed := writeRecords (headerSize + oldCount * directoryEntrySize)
    ((place sectionAlignment Part.size (layout.baseSize + entryBytes) parts).map partRecord) filled
  ⟨sealContainer (oldCount + parts.length) layout.totalSize listed, layout.totalSize⟩

/-- Append the sections of a layer, if it has some, to what the layer below wrote. -/
def appendLayer (layout : AppendLayout) (parts : List Part) (base : Written) :
    Check Status Written :=
  if parts = [] then return base
  else do
    Check.rejectIf (base.size ≠ layout.baseSize) (.error .internal)
    let located ← locateSections layout.baseSize parts.length base.buffer
    return appendSections layout located.1 located.2 parts base.buffer

/-! ## Metadata -/

/-- `apta_meta_calculate_layout`. -/
def metaCalculateLayout (data : ResultData) (options : Option SerializeOptions) :
    Check Status AppendLayout := do
  let baseSize ← resultQuerySerializedSizeWaveform data options
  let totalSize ← layoutSections options baseSize
    (data.metadata.toList.map fun metadata => metaMeasurePayload metadata.toRecord)
  return ⟨baseSize, totalSize⟩

/-- The size of a container with waveform and metadata. -/
def resultQuerySerializedSizeMeta (data : ResultData) (options : Option SerializeOptions) :
    Check Status ℕ := do
  let layout ← metaCalculateLayout data options
  return layout.totalSize

/-- Write a container with waveform and metadata. Unlike the layers above this one also checks that
the payloads lie behind the directory. -/
def resultSerializeMeta (data : ResultData) (options : Option SerializeOptions) (buffer : Bytes) :
    Check Status Written := do
  let layout ← metaCalculateLayout data options
  requireRoom buffer.length layout.totalSize
  let waveform ← resultSerializeWaveform data options buffer.length
  let base : Written := ⟨patch buffer 0 waveform, waveform.length⟩
  match data.metadata with
  | none => return base
  | some metadata => do
      Check.rejectIf (base.size ≠ layout.baseSize) (.error .internal)
      let located ← locateSections layout.baseSize 1 base.buffer
      Check.rejectIf (located.2 < headerSize + located.1 * directoryEntrySize) (.error .internal)
      let payload := metaWritePayload metadata.toRecord
      Check.rejectIf (payload.length ≠ metaMeasurePayload metadata.toRecord) (.error .internal)
      return appendSections layout located.1 located.2 [(.metadata, payload)] base.buffer

/-! ## Tempo and local grid -/

/-- The sections of the tempo layer. A tempo or grid that is not valid is left out. -/
def s4Parts (data : ResultData) : List Part :=
  (if s4TempoIsValid data then data.tempo.toList.map fun tempo => (.tempo, s4WriteTemp tempo)
    else []) ++
  (if s4GridIsValid data then data.localGrid.toList.flatMap fun grid =>
      grid.segments.head?.toList.map fun segment => (.localGrid, s4WriteGrid grid segment)
    else [])

/-- `apta_s4_calculate_layout`. -/
def s4CalculateLayout (data : ResultData) (options : Option SerializeOptions) :
    Check Status AppendLayout := do
  let baseSize ← resultQuerySerializedSizeMeta data options
  Check.rejectIf (s4GridIsValid data = true ∧ s4TempoIsValid data = false) (.error .internal)
  let totalSize ← layoutSections options baseSize ((s4Parts data).map Part.size)
  return ⟨baseSize, totalSize⟩

/-- The size of a container with all but the global grid. -/
def resultQuerySerializedSizeS4 (data : ResultData) (options : Option SerializeOptions) :
    Check Status ℕ := do
  let layout ← s4CalculateLayout data options
  return layout.totalSize

/-- Write a container with all but the global grid. -/
def resultSerializeS4 (data : ResultData) (options : Option SerializeOptions) (buffer : Bytes) :
    Check Status Written := do
  let layout ← s4CalculateLayout data options
  requireRoom buffer.length layout.totalSize
  let base ← resultSerializeMeta data options buffer
  appendLayer layout (s4Parts data) base

/-! ## Global grid -/

/-- The sections of the grid layer. -/
def s6Parts (data : ResultData) : List Part :=
  if Feature.globalBeatgrid ∈ data.availableFeatures then
    data.globalGrid.toList.flatMap fun pair =>
      [(.globalGrid, s6WriteGrid pair.1), (.revision, s6WriteRevision pair.2)]
  else []

/-- `apta_s6_calculate_layout`. Unlike an invalid tempo, an invalid global grid is an error. -/
def s6CalculateLayout (data : ResultData) (options : Option SerializeOptions) :
    Check Status AppendLayout := do
  let baseSize ← resultQuerySerializedSizeS4 data options
  Check.rejectIf (Feature.globalBeatgrid ∈ data.availableFeatures ∧ s6GlobalIsValid data = false)
    (.error .invalidState)
  let totalSize ← layoutSections options baseSize ((s6Parts data).map Part.size)
  return ⟨baseSize, totalSize⟩

/-- The size of a container. -/
def resultQuerySerializedSizeS6 (data : ResultData) (options : Option SerializeOptions) :
    Check Status ℕ := do
  let layout ← s6CalculateLayout data options
  return layout.totalSize

/-- Write a container, before its aggregate state is known. -/
def resultSerializeS6 (data : ResultData) (options : Option SerializeOptions) (buffer : Bytes) :
    Check Status Written := do
  let layout ← s6CalculateLayout data options
  requireRoom buffer.length layout.totalSize
  let base ← resultSerializeS4 data options buffer
  appendLayer layout (s6Parts data) base

/-! ## Aggregate state -/

/-- `apta_container_v1_result_is_contradictory`: a final grid with a pending revision. -/
def resultIsContradictory (data : ResultData) : Bool :=
  decide (Feature.globalBeatgrid ∈ data.availableFeatures) && data.globalGrid.any fun pair =>
    decide (pair.1.state = stateFinal) && decide (pair.2.state = revisionPending)

/-- What the sections looked at so far say. An absent global grid has state zero. -/
structure AggregateState where
  partialRequired : Bool
  globalGridState : ℕ
deriving DecidableEq

/-- Note a section that is or is not final. -/
def AggregateState.note (unfinished : Bool) (state : AggregateState) : AggregateState :=
  { state with partialRequired := state.partialRequired || unfinished }

/-- Look at the payload of a section. -/
def inspectPayload (tag : SectionTag) (payload : Bytes) (state : AggregateState) :
    Check Status AggregateState :=
  match tag with
  | .overview => do
      Check.rejectIf (payload.length < wovrHeaderSize) (.error .internal)
      return state.note (decide (field 4 payload 40 % 8 ≠ stateFinal))
  | .detail => do
      Check.rejectIf (payload.length < wdtlHeaderSize) (.error .internal)
      let tileCount := field 4 payload 0
      let tileDirectoryOffset := field 8 payload 8
      Check.rejectIf (rangeFits tileDirectoryOffset (tileCount * wdtlTileSize) payload.length = false)
        (.error .internal)
      return state.note ((records wdtlTileSize payload tileDirectoryOffset tileCount).any
        fun descriptor => decide (field 4 descriptor 40 ≠ stateFinal))
  | .tempo => do
      Check.rejectIf (payload.length < tempHeaderSize) (.error .internal)
      return state.note (decide (field 1 payload 2 ≠ stateFinal))
  | .localGrid => do
      Check.rejectIf (payload.length < lgrdPayloadSize) (.error .internal)
      return state.note (decide (field 1 payload 2 ≠ stateFinal) ||
        decide (field 1 payload 136 ≠ stateFinal))
  | .globalGrid => do
      Check.rejectIf (payload.length < ggrdHeaderSize) (.error .internal)
      let segmentCount := field 4 payload 16
      Check.rejectIf (rangeFits ggrdHeaderSize (segmentCount * ggrdSegmentSize) payload.length = false)
        (.error .internal)
      return { state with globalGridState := field 1 payload 2 }.note
        (decide (field 1 payload 2 ≠ stateFinal) ||
          (records ggrdSegmentSize payload ggrdHeaderSize segmentCount).any
            fun segment => decide (field 1 segment 72 ≠ stateFinal))
  | .revision => do
      Check.rejectIf (payload.length < revnPayloadSize) (.error .internal)
      if field 1 payload 2 = revisionPending then do
        Check.rejectIf (state.globalGridState = stateFinal) (.error .invalidState)
        return state.note true
      else do
        Check.rejectIf (field 1 payload 2 ≠ revisionApplied) (.error .internal)
        return state
  | _ => return state

/-- Look at the section of a directory record. -/
def inspectSection (written : Written) (record : Bytes) (state : AggregateState) :
    Check Status AggregateState := do
  let offset := field 8 record 8
  let storedSize := field 8 record 16
  Check.rejectIf (rangeFits offset storedSize written.size = false) (.error .internal)
  inspectPayload (sectionTag (slice record 0 4)) (slice written.buffer offset storedSize) state

/-- `apta_container_v1_patch_aggregate_state`: mark the container as partial unless all its sections
are final. -/
def patchAggregateState (written : Written) : Check Status Written := do
  Check.rejectIf (written.size < headerSize) (.error .internal)
  let count := field 4 written.buffer 20
  let directoryOffset := field 8 written.buffer 24
  Check.rejectIf (rangeFits directoryOffset (count * directoryEntrySize) written.size = false)
    (.error .internal)
  let state ← Check.walk (fun _ => inspectSection written) 0
    (records directoryEntrySize written.buffer directoryOffset count) ⟨false, 0⟩
  if state.partialRequired then
    let flagged := patch written.buffer 16
      (encode 4 (field 4 written.buffer 16 ||| 2 ^ flagPartialResult))
    return { written with buffer := patch flagged 92 (encode 4 (crc32c (flagged.take 92))) }
  else return written

/-- The size of the serialized result. -/
def resultQuerySerializedSize (data : ResultData) (options : Option SerializeOptions) :
    Check Status ℕ := do
  Check.rejectIf (resultIsContradictory data = true) (.error .invalidState)
  resultQuerySerializedSizeS6 data options

/-- Serialize a result into a buffer. -/
def resultSerialize (data : ResultData) (options : Option SerializeOptions) (buffer : Bytes) :
    Check Status Written := do
  Check.rejectIf (resultIsContradictory data = true) (.error .invalidState)
  let base ← resultSerializeS6 data options buffer
  patchAggregateState base

end LibApta.Container
