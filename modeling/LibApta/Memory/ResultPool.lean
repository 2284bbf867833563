import LibApta.Beatgrid.State
import LibApta.Lib.Checked
import LibApta.Lib.Regions
import LibApta.Memory.Platform
import LibApta.Waveform.Detail

/-!
# The layout of a result pool

A session with bounded result slots keeps its results in a pool of two slots. A slot holds the arrays
of one result behind each other, each at the next multiple of the alignment of its elements, and the
counts of the elements follow from the configuration. Every sum and product is checked before it is
formed; one that left `size_t`, or the type of a count, would be a fault.
-/

namespace LibApta.Memory

open Check

/-! ## Sizes -/

section Sizes

variable (p : Platform)

/-- `apta_pool_add_size`. All failures of the layout are reported as a limit. -/
def poolAddSize (left right : ℕ) : Check ErrorCode ℕ := do
  let room ← minus p.sizeMax right
  rejectIf (room < left) .limitExceeded
  within p.sizeMax (left + right)

/-- `apta_pool_multiply_size`. -/
def poolMultiplySize (count elementSize : ℕ) : Check ErrorCode ℕ := do
  rejectIf (elementSize ≠ 0 ∧ p.sizeMax / elementSize < count) .limitExceeded
  within p.sizeMax (count * elementSize)

/-- `apta_pool_align_size`. The complement of the mask is `p.sizeMax - mask`. -/
def poolAlignSize (value alignment : ℕ) : Check ErrorCode ℕ := do
  rejectIf (isPowerOfTwo alignment = false) .limitExceeded
  let mask ← minus alignment 1
  let room ← minus p.sizeMax mask
  rejectIf (room < value) .limitExceeded
  let sum ← within p.sizeMax (value + mask)
  .ok (sum &&& (p.sizeMax - mask))

/-- A type of array elements as the compiler lays it out. -/
structure ElementType where
  size : ℕ
  alignment : ℕ
  alignment_isPowerOfTwo : alignment.isPowerOfTwo
  alignment_dvd_size : alignment ∣ size
  alignment_le : alignment ≤ p.maxAlignment

variable {p}

/-- `apta_pool_append_region`: the region and the offset behind it. -/
def poolAppendRegion (offset : ℕ) (element : ElementType p) (count : ℕ) :
    Check ErrorCode (Region × ℕ) := do
  let aligned ← poolAlignSize p offset element.alignment
  let bytes ← poolMultiplySize p count element.size
  let past ← poolAddSize p aligned bytes
  .ok (⟨aligned, count, element.size⟩, past)

end Sizes

/-! ## The arrays of a slot -/

/-- The arrays of a slot, in their order. -/
inductive SlotArray where
  | result
  | overviewSpans
  | overviewColumns
  | detailTiles
  | detailColumns
  | tempoCandidates
  | localGridCoverage
  | localGridSegments
  | globalGridState
  | globalGridCoverage
  | globalGridSegments
  | globalGridBeats
  | metadata
deriving DecidableEq

/-- Sizes and alignments of the records of a result and of the control record of the pool. -/
structure PoolTypes (p : Platform) where
  result : ElementType p
  span : ElementType p
  column : ElementType p
  tileView : ElementType p
  candidate : ElementType p
  range : ElementType p
  segment : ElementType p
  s6ResultState : ElementType p
  beat : ElementType p
  byte : ElementType p
  controlSize : ℕ
  controlSize_le : controlSize ≤ p.sizeMax

/-- The records on a target with 64-bit sizes and pointers. -/
def lp64PoolTypes : PoolTypes lp64 where
  result := ⟨832, 8, lp64.pointerAlignment_isPowerOfTwo, ⟨104, rfl⟩, Nat.le_of_ble_eq_true rfl⟩
  span := ⟨40, 8, lp64.pointerAlignment_isPowerOfTwo, ⟨5, rfl⟩, Nat.le_of_ble_eq_true rfl⟩
  column := ⟨10, 2, ⟨1, rfl⟩, ⟨5, rfl⟩, Nat.le_of_ble_eq_true rfl⟩
  tileView := ⟨80, 8, lp64.pointerAlignment_isPowerOfTwo, ⟨10, rfl⟩, Nat.le_of_ble_eq_true rfl⟩
  candidate := ⟨16, 4, ⟨2, rfl⟩, ⟨4, rfl⟩, Nat.le_of_ble_eq_true rfl⟩
  range := ⟨24, 8, lp64.pointerAlignment_isPowerOfTwo, ⟨3, rfl⟩, Nat.le_of_ble_eq_true rfl⟩
  segment := ⟨104, 8, lp64.pointerAlignment_isPowerOfTwo, ⟨13, rfl⟩, Nat.le_of_ble_eq_true rfl⟩
  s6ResultState := ⟨272, 8, lp64.pointerAlignment_isPowerOfTwo, ⟨34, rfl⟩, Nat.le_of_ble_eq_true rfl⟩
  beat := ⟨40, 8, lp64.pointerAlignment_isPowerOfTwo, ⟨5, rfl⟩, Nat.le_of_ble_eq_true rfl⟩
  byte := ⟨1, 1, ⟨0, rfl⟩, ⟨1, rfl⟩, Nat.le_of_ble_eq_true rfl⟩
  controlSize := 264
  controlSize_le := Nat.le_of_ble_eq_true rfl

/-- Elements of the arrays that the configuration determines. -/
structure PoolCounts where
  overviewColumns : ℕ
  detailTiles : ℕ
  detailColumns : ℕ
  tempoCandidates : ℕ
  localGridCoverage : ℕ
  localGridSegments : ℕ
  globalGridState : ℕ
  globalGridCoverage : ℕ
  globalGridSegments : ℕ
  globalGridBeats : ℕ
deriving DecidableEq

namespace SlotArray

/-- All arrays. -/
def all : List SlotArray :=
  [result, overviewSpans, overviewColumns, detailTiles, detailColumns, tempoCandidates,
    localGridCoverage, localGridSegments, globalGridState, globalGridCoverage, globalGridSegments,
    globalGridBeats, metadata]

/-- The type of the elements of an array. -/
def elementType {p : Platform} (types : PoolTypes p) : SlotArray → ElementType p
  | result => types.result
  | overviewSpans => types.span
  | overviewColumns | detailColumns => types.column
  | detailTiles => types.tileView
  | tempoCandidates => types.candidate
  | localGridCoverage | globalGridCoverage => types.range
  | localGridSegments | globalGridSegments => types.segment
  | globalGridState => types.s6ResultState
  | globalGridBeats => types.beat
  | metadata => types.byte

/-- Bytes of the texts of the metadata. -/
abbrev metadataMaxTotalBytes : ℕ := 8192

/-- The number of elements of an array. -/
def count (counts : PoolCounts) : SlotArray → ℕ
  | result => 1
  | overviewSpans | overviewColumns => counts.overviewColumns
  | detailTiles => counts.detailTiles
  | detailColumns => counts.detailColumns
  | tempoCandidates => counts.tempoCandidates
  | localGridCoverage => counts.localGridCoverage
  | localGridSegments => counts.localGridSegments
  | globalGridState => counts.globalGridState
  | globalGridCoverage => counts.globalGridCoverage
  | globalGridSegments => counts.globalGridSegments
  | globalGridBeats => counts.globalGridBeats
  | metadata => metadataMaxTotalBytes

end SlotArray

/-! ## The layout -/

/-- Slots of a pool. -/
abbrev resultSlotCount : ℕ := 2

/-- Where the slots are in the pool and the arrays in a slot. The counts are the capacities. -/
structure ResultPoolLayout where
  totalBytes : ℕ
  slotBytes : ℕ
  slotOffsets : List ℕ
  regions : List (SlotArray × Region)
  counts : PoolCounts
deriving DecidableEq

/-- The elements that an array has room for. -/
def ResultPoolLayout.capacity (layout : ResultPoolLayout) (array : SlotArray) : ℕ :=
  array.count layout.counts

/-- The slots as parts of the pool. -/
def ResultPoolLayout.slots (layout : ResultPoolLayout) : List Region :=
  layout.slotOffsets.map fun slotOffset => ⟨slotOffset, 1, layout.slotBytes⟩

/-- Overview columns of a track. -/
def poolOverviewColumns (totalFrames framesPerColumn : ℕ) : Check ErrorCode ℕ :=
  if totalFrames % framesPerColumn ≠ 0 then within uint64Max (totalFrames / framesPerColumn + 1)
  else .ok (totalFrames / framesPerColumn)

/-- The counts of a configuration. -/
def poolCounts (config : Config) (totalFrames framesPerColumn : ℕ) :
    Check ErrorCode PoolCounts := do
  let overviewColumns ← poolOverviewColumns totalFrames framesPerColumn
  rejectIf (uint32Max < overviewColumns) .limitExceeded
  let detailTiles := if config.requests .waveformDetail then maxDetailTiles else 0
  let detailColumns ← within uint32Max (detailTiles * detailColumnsPerTile)
  let localGridCoverage := if config.requests .localBeatgrid then 1 else 0
  let globalGridState := if config.requests .globalBeatgrid then 1 else 0
  .ok {
    overviewColumns := overviewColumns
    detailTiles := detailTiles
    detailColumns := detailColumns
    tempoCandidates := if config.requests .bpm then maxTempoCandidates else 0
    localGridCoverage := localGridCoverage
    localGridSegments := localGridCoverage
    globalGridState := globalGridState
    globalGridCoverage := globalGridState
    globalGridSegments := if globalGridState ≠ 0 then globalMaxSegments else 0
    globalGridBeats := if globalGridState ≠ 0 then globalMaxBeats else 0 }

section Layout

variable {p : Platform} (types : PoolTypes p)

/-- Append an array to a slot: the arrays so far with their regions, and the offset behind them. -/
def appendArray (counts : PoolCounts) (array : SlotArray)
    (state : List (SlotArray × Region) × ℕ) :
    Check ErrorCode (List (SlotArray × Region) × ℕ) := do
  let appended ← poolAppendRegion state.2 (array.elementType types) (array.count counts)
  .ok (state.1 ++ [(array, appended.1)], appended.2)

/-- The offset of the next slot. -/
def appendSlot (p : Platform) (poolOffset slotBytes slotIndex : ℕ) (slotOffsets : List ℕ) :
    Check ErrorCode (List ℕ) := do
  let relative ← poolMultiplySize p slotIndex slotBytes
  let slotOffset ← poolAddSize p poolOffset relative
  .ok (slotOffsets ++ [slotOffset])

/-- `apta_internal_result_pool_calculate_layout`, with the memory budget of the configuration. -/
def calculateLayout (config : Config) (memoryBudgetBytes : ℕ) : Check ErrorCode ResultPoolLayout :=
  if config.boundedResultSlots = false ∨ config.requireSourceIdentityForSeeding = true ∨
      config.requests .waveformOverview = false then reject .invalidArgument
  else
    match config.totalFrames with
    | none => reject .invalidArgument
    | some totalFrames => do
        let counts ← poolCounts config totalFrames
          (if config.overviewFramesPerColumn ≠ 0 then config.overviewFramesPerColumn
            else defaultOverviewFramesPerColumn)
        let arrays ← walk (fun _ => appendArray types counts) 0 SlotArray.all ([], 0)
        let slotBytes ← poolAlignSize p arrays.2 p.maxAlignment
        let poolOffset ← poolAlignSize p types.controlSize p.maxAlignment
        let slotsBytes ← poolMultiplySize p resultSlotCount slotBytes
        let totalBytes ← poolAddSize p poolOffset slotsBytes
        let slotOffsets ← loop (appendSlot p poolOffset slotBytes) 0 resultSlotCount []
        rejectIf (memoryBudgetBytes ≠ 0 ∧ memoryBudgetBytes < totalBytes) .limitExceeded
        .ok ⟨totalBytes, slotBytes, slotOffsets, arrays.1, counts⟩

end Layout

end LibApta.Memory
