import LibApta.Lib.SortKey
import LibApta.Lib.Sweep
import LibApta.Serialization.Container
import Mathlib.Data.Prod.Lex

/-!
# The detail sections

A container holds any number of `WDTL` sections. The reader measures them, collects the file
intervals of their columns, and copies the tiles, which it then sorts. `DetailSectionOk` says what
the measure accepts of a section.
-/

namespace LibApta.Container

open LittleEndian

/-! ## Records -/

/-- The header of a detail payload. -/
structure WdtlHeader where
  tileCount : ℕ
  reserved : ℕ
  tileDirectoryOffset : ℕ
deriving DecidableEq

/-- The header a payload starts with. -/
def wdtlHeaderOf (payload : Bytes) : WdtlHeader where
  tileCount := field 4 payload 0
  reserved := field 4 payload 4
  tileDirectoryOffset := field 8 payload 8

/-- Read the header of a detail payload. -/
def readWdtlHeader (payload : Bytes) : Check ErrorCode WdtlHeader := do
  let tileCount ← Check.read 4 payload 0
  let reserved ← Check.read 4 payload 4
  let tileDirectoryOffset ← Check.read 8 payload 8
  return ⟨tileCount, reserved, tileDirectoryOffset⟩

theorem readWdtlHeader_eq {payload : Bytes} (h : wdtlHeaderSize ≤ payload.length) :
    readWdtlHeader payload = .ok (wdtlHeaderOf payload) := by
  have hlen : 16 ≤ payload.length := h
  simp (disch := omega) only [readWdtlHeader, wdtlHeaderOf, Check.read_of_le, Check.ok_bind,
    Check.pure_eq_ok]

/-- A tile descriptor. -/
structure TileEntry where
  levelId : ℕ
  tileIndex : ℕ
  firstFrame : ℕ
  endFrame : ℕ
  firstColumn : ℕ
  columnCount : ℕ
  columnsOffset : ℕ
  state : ℕ
  flags : ℕ
  confidence : ℕ
  reserved : ℕ
deriving DecidableEq

/-- The column after the last one of the tile. -/
def TileEntry.endColumn (tile : TileEntry) : ℕ := tile.firstColumn + tile.columnCount

/-- The descriptor a record holds. -/
def tileEntryOf (record : Bytes) : TileEntry where
  levelId := field 4 record 0
  tileIndex := field 4 record 4
  firstFrame := field 8 record 8
  endFrame := field 8 record 16
  firstColumn := field 4 record 24
  columnCount := field 4 record 28
  columnsOffset := field 8 record 32
  state := field 4 record 40
  flags := field 2 record 44
  confidence := field 1 record 46
  reserved := field 1 record 47

/-- Read a tile descriptor. -/
def readTileEntry (record : Bytes) : Check ErrorCode TileEntry := do
  let levelId ← Check.read 4 record 0
  let tileIndex ← Check.read 4 record 4
  let firstFrame ← Check.read 8 record 8
  let endFrame ← Check.read 8 record 16
  let firstColumn ← Check.read 4 record 24
  let columnCount ← Check.read 4 record 28
  let columnsOffset ← Check.read 8 record 32
  let state ← Check.read 4 record 40
  let flags ← Check.read 2 record 44
  let confidence ← Check.read 1 record 46
  let reserved ← Check.read 1 record 47
  return {
    levelId, tileIndex, firstFrame, endFrame, firstColumn, columnCount, columnsOffset, state,
    flags, confidence, reserved }

theorem readTileEntry_eq {record : Bytes} (h : record.length = wdtlTileSize) :
    readTileEntry record = .ok (tileEntryOf record) := by
  have hlen : record.length = 48 := h
  simp (disch := omega) only [readTileEntry, tileEntryOf, Check.read_of_le, Check.ok_bind,
    Check.pure_eq_ok]

/-- The tile directory of a payload. -/
def tileTable (payload : Bytes) (header : WdtlHeader) : List TileEntry :=
  (records wdtlTileSize payload header.tileDirectoryOffset header.tileCount).map tileEntryOf

/-- Walk over the tile directory. -/
def forTiles {σ : Type} (payload : Bytes) (header : WdtlHeader)
    (step : ℕ → TileEntry → σ → Check ErrorCode σ) : σ → Check ErrorCode σ :=
  Check.forRecords wdtlTileSize payload header.tileDirectoryOffset header.tileCount
    fun index record s => do
      let tile ← readTileEntry record
      step index tile s

theorem forTiles_eq {σ : Type} {payload : Bytes} {header : WdtlHeader}
    {step : ℕ → TileEntry → σ → Check ErrorCode σ} (s : σ)
    (h : header.tileDirectoryOffset + header.tileCount * wdtlTileSize ≤ payload.length) :
    forTiles payload header step s = Check.walk step 0 (tileTable payload header) s := by
  rw [forTiles, Check.forRecords_eq s h, tileTable, Check.walk_map]
  apply Check.walk_congr
  intro _ record hmem _
  rw [readTileEntry_eq (length_of_mem_records h hmem), Check.ok_bind]

/-! ## Validation -/

/-- What the check of a tile uses of the options and the container. -/
structure TileContext where
  strict : Bool
  totalSourceFrames : ℕ
  isPartial : Bool
deriving DecidableEq

/-- A confidence is a percentage or unknown. -/
def confidenceIsValid (confidence : ℕ) : Bool :=
  decide (confidence ≤ maxConfidence) || decide (confidence = unknownConfidence)

/-- Check the frames of a tile against its columns. -/
def validateTileFrames (context : TileContext) (tile : TileEntry) : Check ErrorCode Unit := do
  Check.rejectIf (tile.levelId ≠ wdtlLevelId) .unsupported
  Check.rejectIf (uint32Max / wdtlColumnsPerTile < tile.tileIndex) .limitExceeded
  Check.rejectIf (tile.endFrame ≤ tile.firstFrame ∨ tile.columnCount = 0 ∨
    tile.state < statePartial ∨ stateFinal < tile.state ∨
    confidenceIsValid tile.confidence = false ∨
    (context.strict = true ∧ (tile.flags ≠ 0 ∨ tile.reserved ≠ 0))) .corruptData
  Check.rejectIf (tile.state ≠ stateFinal ∧ context.isPartial = false) .corruptData
  let tileFirstColumn ← Check.within uint64Max (tile.tileIndex * wdtlColumnsPerTile)
  let endColumn ← Check.within uint64Max tile.endColumn
  let tileEndColumn ← Check.within uint64Max (tileFirstColumn + wdtlColumnsPerTile)
  Check.rejectIf (tile.firstColumn < tileFirstColumn ∨ tileEndColumn < endColumn) .corruptData
  let expectedFirst ← Check.within uint64Max (tile.firstColumn * wdtlFramesPerColumn)
  let expectedEnd ← Check.within uint64Max (endColumn * wdtlFramesPerColumn)
  Check.rejectIf (tile.firstFrame ≠ expectedFirst) .corruptData
  Check.rejectIf (tile.endFrame ≠ expectedEnd ∧
    (context.totalSourceFrames = totalFramesUnknown ∨
      tile.endFrame ≠ context.totalSourceFrames ∨
      expectedEnd ≤ context.totalSourceFrames)) .corruptData
  Check.rejectIf (context.totalSourceFrames ≠ totalFramesUnknown ∧
    context.totalSourceFrames < tile.endFrame) .corruptData

/-- Check the columns of a tile and give their place in the file. -/
def validateTileData (strict : Bool) (payload : Bytes) (sectionOffset : ℕ) (header : WdtlHeader)
    (tile : TileEntry) : Check ErrorCode (Interval ℕ) := do
  let columnBytes ← Check.within uint64Max (tile.columnCount * packedColumnSize)
  Check.rejectIf (rangeFits tile.columnsOffset columnBytes payload.length = false) .corruptData
  let onHeader ← rangesOverlap tile.columnsOffset columnBytes 0 wdtlHeaderSize
  Check.rejectIf (onHeader = true) .corruptData
  let onDirectory ← rangesOverlap tile.columnsOffset columnBytes header.tileDirectoryOffset
    (header.tileCount * wdtlTileSize)
  Check.rejectIf (onDirectory = true) .corruptData
  validateColumns strict payload tile.columnsOffset tile.columnCount
  let first ← Check.within uint64Max (sectionOffset + tile.columnsOffset)
  let last ← Check.within uint64Max (first + columnBytes)
  return ⟨first, last⟩

/-- The columns measured so far, and the intervals noted in the interval array. -/
structure TileTotals where
  columnCount : ℕ
  intervals : List (Interval ℕ)

/-- What the measure of the detail sections gives. -/
structure DetailLayout where
  tileCount : ℕ
  sectionCount : ℕ
  totals : TileTotals

/-- Note an interval if there is an interval array; `capacity` is its element count. -/
def noteInterval (capacity : Option ℕ) (interval : Interval ℕ) (written : List (Interval ℕ)) :
    Check ErrorCode (List (Interval ℕ)) :=
  match capacity with
  | none => .ok written
  | some count => Check.push count written interval

/-- Check a tile and count its columns. -/
def measureTile (limit : ℕ) (capacity : Option ℕ) (context : TileContext) (payload : Bytes)
    (sectionOffset : ℕ) (header : WdtlHeader) (_index : ℕ) (tile : TileEntry)
    (totals : TileTotals) : Check ErrorCode TileTotals := do
  validateTileFrames context tile
  let interval ← validateTileData context.strict payload sectionOffset header tile
  let intervals ← noteInterval capacity interval totals.intervals
  Check.rejectIf (uint32Max - tile.columnCount < totals.columnCount) .limitExceeded
  let columnCount ← Check.within uint32Max (totals.columnCount + tile.columnCount)
  Check.rejectIf (limit < columnCount) .limitExceeded
  return ⟨columnCount, intervals⟩

/-- Check a detail section and count its tiles. -/
def measureSection (limit : ℕ) (capacity : Option ℕ) (context : TileContext) (bytes : Bytes)
    (entry : Entry) (layout : DetailLayout) : Check ErrorCode DetailLayout := do
  Check.rejectIf (entry.version ≠ 1) .unsupported
  let payload ← Check.view bytes entry.offset entry.storedSize
  Check.rejectIf (payload.length < wdtlHeaderSize) .corruptData
  let header ← readWdtlHeader payload
  Check.rejectIf (header.tileCount = 0 ∨ (context.strict = true ∧ header.reserved ≠ 0)) .corruptData
  let directorySize ← Check.within uint64Max (header.tileCount * wdtlTileSize)
  Check.rejectIf (header.tileDirectoryOffset < wdtlHeaderSize ∨
    rangeFits header.tileDirectoryOffset directorySize payload.length = false) .corruptData
  Check.rejectIf (uint32Max - header.tileCount < layout.tileCount) .limitExceeded
  let totals ← forTiles payload header
    (measureTile limit capacity context payload entry.offset header) layout.totals
  let tileCount ← Check.within uint32Max (layout.tileCount + header.tileCount)
  Check.rejectIf (limit < tileCount) .limitExceeded
  return ⟨tileCount, layout.sectionCount + 1, totals⟩

/-- Check the detail sections and measure them. -/
def measureDetail (options : Option ParseOptions) (capacity : Option ℕ) (bytes : Bytes) :
    Check ErrorCode DetailLayout := do
  let containerFlags ← Check.read 4 bytes 16
  let sectionCount ← Check.read 4 bytes 20
  let directoryOffset ← Check.read 8 bytes 24
  let totalSourceFrames ← Check.read 8 bytes 40
  let context : TileContext :=
    ⟨isStrict options, totalSourceFrames, containerFlags.testBit flagPartialResult⟩
  forEntries bytes directoryOffset sectionCount (fun _ entry layout =>
    if entry.tag = .detail then
      measureSection (columnLimit options) capacity context bytes entry layout
    else .ok layout) ⟨0, 0, ⟨0, []⟩⟩

/-! ## What the measure accepts -/

/-- What the measure asks of the frames of a tile. -/
structure TileFramesOk (context : TileContext) (tile : TileEntry) : Prop where
  level : tile.levelId = wdtlLevelId
  index : tile.tileIndex ≤ uint32Max / wdtlColumnsPerTile
  frames : tile.firstFrame < tile.endFrame
  columns : tile.columnCount ≠ 0
  state : statePartial ≤ tile.state ∧ tile.state ≤ stateFinal
  confidence : confidenceIsValid tile.confidence = true
  reserved : context.strict = true → tile.flags = 0 ∧ tile.reserved = 0
  unfinished : tile.state ≠ stateFinal → context.isPartial = true
  inTile : tile.tileIndex * wdtlColumnsPerTile ≤ tile.firstColumn ∧
    tile.endColumn ≤ tile.tileIndex * wdtlColumnsPerTile + wdtlColumnsPerTile
  first : tile.firstFrame = tile.firstColumn * wdtlFramesPerColumn
  last : tile.endFrame = tile.endColumn * wdtlFramesPerColumn ∨
    (context.totalSourceFrames ≠ totalFramesUnknown ∧
      tile.endFrame = context.totalSourceFrames ∧
      context.totalSourceFrames < tile.endColumn * wdtlFramesPerColumn)
  total : context.totalSourceFrames ≠ totalFramesUnknown →
    tile.endFrame ≤ context.totalSourceFrames

/-- The columns of a tile. -/
def TileEntry.columns (payload : Bytes) (tile : TileEntry) : List Column :=
  columnTable payload tile.columnsOffset tile.columnCount

/-- What the measure asks of the columns of a tile. -/
structure TileDataOk (strict : Bool) (payload : Bytes) (header : WdtlHeader) (tile : TileEntry) :
    Prop where
  fits : tile.columnsOffset + tile.columnCount * packedColumnSize ≤ payload.length
  offHeader : ¬ Overlap tile.columnsOffset (tile.columnCount * packedColumnSize) 0 wdtlHeaderSize
  offDirectory : ¬ Overlap tile.columnsOffset (tile.columnCount * packedColumnSize)
    header.tileDirectoryOffset (header.tileCount * wdtlTileSize)
  columns : ∀ column ∈ tile.columns payload, ColumnOk strict column

/-- The place of the columns of a tile in the file. -/
def TileEntry.interval (sectionOffset : ℕ) (tile : TileEntry) : Interval ℕ :=
  ⟨sectionOffset + tile.columnsOffset,
    sectionOffset + tile.columnsOffset + tile.columnCount * packedColumnSize⟩

/-- The columns of a list of tiles. -/
def tileColumns (tiles : List TileEntry) : ℕ := (tiles.map TileEntry.columnCount).sum

/-- The header of the payload of a detail section. -/
def Entry.wdtlHeader (entry : Entry) (bytes : Bytes) : WdtlHeader :=
  wdtlHeaderOf (entry.payload bytes)

/-- The tiles of a detail section. -/
def Entry.tiles (entry : Entry) (bytes : Bytes) : List TileEntry :=
  tileTable (entry.payload bytes) (entry.wdtlHeader bytes)

/-- What the measure asks of a section. -/
structure DetailSectionOk (context : TileContext) (bytes : Bytes) (entry : Entry) : Prop where
  version : entry.version = 1
  size : wdtlHeaderSize ≤ (entry.payload bytes).length
  tiles : (entry.wdtlHeader bytes).tileCount ≠ 0
  reserved : context.strict = true → (entry.wdtlHeader bytes).reserved = 0
  directoryAfter : wdtlHeaderSize ≤ (entry.wdtlHeader bytes).tileDirectoryOffset
  directoryFits : (entry.wdtlHeader bytes).tileDirectoryOffset +
    (entry.wdtlHeader bytes).tileCount * wdtlTileSize ≤ (entry.payload bytes).length
  frames : ∀ tile ∈ entry.tiles bytes, TileFramesOk context tile
  data : ∀ tile ∈ entry.tiles bytes,
    TileDataOk context.strict (entry.payload bytes) (entry.wdtlHeader bytes) tile

/-- A count the measure can keep. -/
def Countable (limit count : ℕ) : Prop := count ≤ uint32Max ∧ count ≤ limit

section Tiles

variable {context : TileContext} {payload : Bytes} {sectionOffset limit : ℕ} {header : WdtlHeader}
  {tile : TileEntry}

theorem length_tileTable (payload : Bytes) (header : WdtlHeader) :
    (tileTable payload header).length = header.tileCount := by
  rw [tileTable, List.length_map, length_records]

/-- The fields of a descriptor are below the bounds of their types. -/
structure TileEntry.Narrow (tile : TileEntry) : Prop where
  firstColumn : tile.firstColumn ≤ uint32Max
  columnCount : tile.columnCount ≤ uint32Max

theorem narrow_of_mem_tileTable (h : tile ∈ tileTable payload header) : tile.Narrow := by
  obtain ⟨record, -, rfl⟩ := List.mem_map.mp h
  exact ⟨Nat.le_of_lt_succ field_lt, Nat.le_of_lt_succ field_lt⟩

theorem validateTileFrames_eq_ok {u : Unit} (hnarrow : tile.Narrow) :
    validateTileFrames context tile = .ok u ↔ TileFramesOk context tile := by
  have hfirst : tile.firstColumn ≤ 4294967295 := hnarrow.firstColumn
  have hcount : tile.columnCount ≤ 4294967295 := hnarrow.columnCount
  simp only [validateTileFrames, Check.bind_eq_ok, Check.rejectIf_eq_ok, Check.within_eq_ok,
    exists_and_left, exists_const, not_or, not_and, not_lt, not_le, ne_eq, not_not,
    Bool.not_eq_false, TileEntry.endColumn]
  constructor
  · rintro ⟨hlevel, hindex, ⟨hframes, hcolumns, hlow, hhigh, hconf, hreserved⟩, hunfinished, _,
      ⟨-, rfl⟩, _, ⟨-, rfl⟩, _, ⟨-, rfl⟩, hinTile, _, ⟨-, rfl⟩, _, ⟨-, rfl⟩, hfirstFrame, hlast,
      htotal⟩
    refine ⟨hlevel, hindex, hframes, hcolumns, ⟨hlow, hhigh⟩, hconf, hreserved, ?_, hinTile,
      hfirstFrame, ?_, htotal⟩
    · intro hstate
      exact Bool.not_eq_false _ ▸ hunfinished hstate
    · by_cases heq : tile.endFrame = tile.endColumn * wdtlFramesPerColumn
      · exact .inl heq
      · exact .inr (hlast heq)
  · intro h
    have hindex : tile.tileIndex ≤ 4294967295 / 64 := h.index
    refine ⟨h.level, h.index, ⟨h.frames, h.columns, h.state.1, h.state.2, h.confidence, h.reserved⟩,
      h.unfinished, _, ⟨?_, rfl⟩, _, ⟨?_, rfl⟩, _, ⟨?_, rfl⟩, h.inTile, _, ⟨?_, rfl⟩, _,
      ⟨?_, rfl⟩, h.first, ?_, h.total⟩
    · show tile.tileIndex * 64 ≤ 18446744073709551615
      omega
    · show _ ≤ 18446744073709551615
      omega
    · show tile.tileIndex * 64 + 64 ≤ 18446744073709551615
      omega
    · show tile.firstColumn * 256 ≤ 18446744073709551615
      omega
    · show (tile.firstColumn + tile.columnCount) * 256 ≤ 18446744073709551615
      omega
    · intro hne
      rcases h.last with heq | hrest
      · exact absurd heq hne
      · exact hrest

theorem validateTileFrames_safe (hnarrow : tile.Narrow) :
    Check.Safe (validateTileFrames context tile) := by
  have hfirst : tile.firstColumn ≤ 4294967295 := hnarrow.firstColumn
  have hcount : tile.columnCount ≤ 4294967295 := hnarrow.columnCount
  simp only [validateTileFrames, Check.safe_bind_iff, Check.safe_rejectIf, Check.rejectIf_eq_ok,
    Check.safe_within, Check.within_eq_ok, true_and, and_imp, and_true, implies_true, not_lt,
    forall_const, TileEntry.endColumn]
  intro _ hindex _ _
  have hindex : tile.tileIndex ≤ 4294967295 / 64 := hindex
  refine ⟨?_, ?_⟩
  · show tile.tileIndex * 64 ≤ 18446744073709551615
    omega
  rintro _ - rfl
  refine ⟨?_, ?_⟩
  · show _ ≤ 18446744073709551615
    omega
  rintro _ - rfl
  refine ⟨?_, ?_⟩
  · show tile.tileIndex * 64 + 64 ≤ 18446744073709551615
    omega
  rintro _ - rfl -
  refine ⟨?_, ?_⟩
  · show tile.firstColumn * 256 ≤ 18446744073709551615
    omega
  rintro _ - rfl
  show (tile.firstColumn + tile.columnCount) * 256 ≤ 18446744073709551615
  omega

theorem validateTileData_eq_ok {strict : Bool} {interval : Interval ℕ} {size : ℕ}
    (hnarrow : tile.Narrow) (hfile : sectionOffset + payload.length ≤ size)
    (hsize : size ≤ uint64Max)
    (hdirectory : header.tileDirectoryOffset + header.tileCount * wdtlTileSize ≤ payload.length) :
    validateTileData strict payload sectionOffset header tile = .ok interval ↔
      TileDataOk strict payload header tile ∧ interval = tile.interval sectionOffset := by
  have hbytes : tile.columnCount * packedColumnSize ≤ uint64Max :=
    (Nat.mul_le_mul_right _ hnarrow.columnCount).trans (by decide)
  have hlen : payload.length ≤ uint64Max := by omega
  rw [validateTileData, Check.within_of_le hbytes, Check.ok_bind, Check.bind_eq_ok]
  constructor
  · rintro ⟨_, hrej, hrest⟩
    rw [Check.rejectIf_eq_ok, Bool.not_eq_false, rangeFits_iff] at hrej
    rw [rangesOverlap_eq (hrej.trans hlen) (by decide),
      rangesOverlap_eq (hrej.trans hlen) (hdirectory.trans hlen)] at hrest
    simp only [Check.ok_bind, Check.bind_eq_ok, Check.rejectIf_eq_ok, decide_eq_true_eq,
      validateColumns_eq_ok hrej, Check.within_eq_ok, Check.pure_eq_ok, Except.ok.injEq,
      exists_and_left, exists_const] at hrest
    obtain ⟨hheader, hdir, hcolumns, _, ⟨-, rfl⟩, _, ⟨-, rfl⟩, rfl⟩ := hrest
    exact ⟨⟨hrej, hheader, hdir, hcolumns⟩, rfl⟩
  · rintro ⟨hok, rfl⟩
    have hfits := hok.fits
    refine ⟨(), Check.rejectIf_eq_ok.mpr ?_, ?_⟩
    · rw [Bool.not_eq_false, rangeFits_iff]
      exact hfits
    · rw [rangesOverlap_eq (hfits.trans hlen) (by decide),
        rangesOverlap_eq (hfits.trans hlen) (hdirectory.trans hlen)]
      simp only [Check.ok_bind, Check.bind_eq_ok, Check.rejectIf_eq_ok, decide_eq_true_eq,
        validateColumns_eq_ok hfits, Check.within_eq_ok, Check.pure_eq_ok, Except.ok.injEq,
        exists_and_left, exists_const]
      exact ⟨hok.offHeader, hok.offDirectory, hok.columns, _, ⟨by omega, rfl⟩, _,
        ⟨by omega, rfl⟩, rfl⟩

theorem validateTileData_safe {strict : Bool} {size : ℕ} (hnarrow : tile.Narrow)
    (hfile : sectionOffset + payload.length ≤ size) (hsize : size ≤ uint64Max)
    (hdirectory : header.tileDirectoryOffset + header.tileCount * wdtlTileSize ≤ payload.length) :
    Check.Safe (validateTileData strict payload sectionOffset header tile) := by
  have hbytes : tile.columnCount * packedColumnSize ≤ uint64Max :=
    (Nat.mul_le_mul_right _ hnarrow.columnCount).trans (by decide)
  have hlen : payload.length ≤ uint64Max := by omega
  rw [validateTileData, Check.within_of_le hbytes, Check.ok_bind, Check.safe_bind_iff]
  refine ⟨Check.safe_rejectIf _ _, fun _ hrej => ?_⟩
  rw [Check.rejectIf_eq_ok, Bool.not_eq_false, rangeFits_iff] at hrej
  rw [rangesOverlap_eq (hrej.trans hlen) (by decide),
    rangesOverlap_eq (hrej.trans hlen) (hdirectory.trans hlen)]
  simp only [Check.ok_bind, Check.safe_bind_iff, Check.safe_rejectIf, Check.safe_within,
    validateColumns_safe hrej, Check.within_eq_ok, Check.pure_eq_ok, Check.safe_ok, true_and,
    and_true, and_imp, implies_true]
  intro _ _ _ _ _ _
  refine ⟨by omega, ?_⟩
  rintro _ - rfl
  omega

/-- The intervals an interval array of some element count holds after more were noted. -/
def noted (capacity : Option ℕ) (written more : List (Interval ℕ)) : List (Interval ℕ) :=
  if capacity.isSome then written ++ more else written

theorem noteInterval_eq {capacity : Option ℕ} {interval : Interval ℕ}
    {written : List (Interval ℕ)} (hroom : ∀ count ∈ capacity, written.length < count) :
    noteInterval capacity interval written = .ok (noted capacity written [interval]) := by
  cases capacity with
  | none => rfl
  | some count => exact Check.push_of_lt (hroom count rfl)

theorem noted_noted (capacity : Option ℕ) (written first second : List (Interval ℕ)) :
    noted capacity (noted capacity written first) second =
      noted capacity written (first ++ second) := by
  cases capacity with
  | none => rfl
  | some count => exact List.append_assoc _ _ _

theorem length_noted_le (capacity : Option ℕ) (written more : List (Interval ℕ)) :
    (noted capacity written more).length ≤ written.length + more.length := by
  cases capacity with
  | none => exact Nat.le_add_right _ _
  | some count => exact List.length_append.le

theorem measureTiles_eq_ok {size index : ℕ} {capacity : Option ℕ} {strict : Bool}
    (hfile : sectionOffset + payload.length ≤ size) (hsize : size ≤ uint64Max)
    (hdirectory : header.tileDirectoryOffset + header.tileCount * wdtlTileSize ≤ payload.length)
    (hstrict : context.strict = strict) (tiles : List TileEntry)
    (hnarrow : ∀ tile ∈ tiles, tile.Narrow) {totals totals' : TileTotals}
    (hcount : Countable limit totals.columnCount)
    (hroom : ∀ count ∈ capacity, totals.intervals.length + tiles.length ≤ count) :
    Check.walk (measureTile limit capacity context payload sectionOffset header) index tiles
        totals = .ok totals' ↔
      (∀ tile ∈ tiles, TileFramesOk context tile) ∧
        (∀ tile ∈ tiles, TileDataOk strict payload header tile) ∧
        Countable limit (totals.columnCount + tileColumns tiles) ∧
        totals' = ⟨totals.columnCount + tileColumns tiles,
          noted capacity totals.intervals (tiles.map (TileEntry.interval sectionOffset))⟩ := by
  subst hstrict
  induction tiles generalizing index totals with
  | nil =>
      have hnil : noted capacity totals.intervals [] = totals.intervals := by
        cases capacity <;> simp [noted]
      simp [tileColumns, hcount, hnil, eq_comm]
  | cons tile rest ih =>
      have htile := hnarrow tile List.mem_cons_self
      have hrest := fun other hother => hnarrow other (List.mem_cons_of_mem _ hother)
      have hsum : tileColumns (tile :: rest) = tile.columnCount + tileColumns rest := by
        simp [tileColumns]
      have hlt : ∀ count ∈ capacity, totals.intervals.length < count := by
        intro count hmem
        have hle := hroom count hmem
        rw [List.length_cons] at hle
        omega
      have hstep : ∀ next, measureTile limit capacity context payload sectionOffset header index
          tile totals = .ok next ↔ TileFramesOk context tile ∧
            TileDataOk context.strict payload header tile ∧
            Countable limit (totals.columnCount + tile.columnCount) ∧
            next = ⟨totals.columnCount + tile.columnCount,
              noted capacity totals.intervals [tile.interval sectionOffset]⟩ := by
        intro next
        have hcolumns : tile.columnCount ≤ uint32Max := htile.columnCount
        simp only [measureTile, Check.bind_eq_ok, validateTileFrames_eq_ok htile,
          validateTileData_eq_ok htile hfile hsize hdirectory, noteInterval_eq hlt,
          Check.rejectIf_eq_ok, Check.within_eq_ok, Check.pure_eq_ok, Except.ok.injEq,
          exists_and_left, exists_const, not_lt, Countable]
        constructor
        · rintro ⟨hframes, _, ⟨hdata, rfl⟩, _, rfl, hle, _, ⟨hle', rfl⟩, hlimit, rfl⟩
          exact ⟨hframes, hdata, ⟨hle', hlimit⟩, rfl⟩
        · rintro ⟨hframes, hdata, ⟨hle, hlimit⟩, rfl⟩
          exact ⟨hframes, _, ⟨hdata, rfl⟩, _, rfl, by omega, _, ⟨hle, rfl⟩, hlimit, rfl⟩
      have hroom' : ∀ count ∈ capacity, (noted capacity totals.intervals
          [tile.interval sectionOffset]).length + rest.length ≤ count := by
        intro count hmem
        have hle := hroom count hmem
        have hnoted := length_noted_le capacity totals.intervals [tile.interval sectionOffset]
        rw [List.length_cons] at hle
        rw [List.length_singleton] at hnoted
        omega
      rw [Check.walk_cons_eq_ok, List.forall_mem_cons, List.forall_mem_cons, List.map_cons, hsum]
      constructor
      · rintro ⟨next, hnext, hwalk⟩
        obtain ⟨hframes, hdata, hnextCount, rfl⟩ := (hstep next).mp hnext
        obtain ⟨hallFrames, hallData, htotal, rfl⟩ := (ih hrest hnextCount hroom').mp hwalk
        rw [Nat.add_assoc] at htotal
        refine ⟨⟨hframes, hallFrames⟩, ⟨hdata, hallData⟩, htotal, ?_⟩
        rw [noted_noted, Nat.add_assoc, List.singleton_append]
      · rintro ⟨⟨hframes, hallFrames⟩, ⟨hdata, hallData⟩, htotal, rfl⟩
        have hnextCount : Countable limit (totals.columnCount + tile.columnCount) := by
          obtain ⟨h32, hlimit⟩ := htotal
          exact ⟨by omega, by omega⟩
        rw [← Nat.add_assoc] at htotal
        refine ⟨_, (hstep _).mpr ⟨hframes, hdata, hnextCount, rfl⟩, ?_⟩
        rw [ih hrest]
        · refine ⟨hallFrames, hallData, htotal, ?_⟩
          rw [noted_noted, List.singleton_append, Nat.add_assoc]
        · exact hnextCount
        · exact hroom'

theorem measureTiles_safe {size index : ℕ} (hfile : sectionOffset + payload.length ≤ size)
    (hsize : size ≤ uint64Max)
    (hdirectory : header.tileDirectoryOffset + header.tileCount * wdtlTileSize ≤ payload.length)
    (tiles : List TileEntry) (hnarrow : ∀ tile ∈ tiles, tile.Narrow) (totals : TileTotals) :
    Check.Safe (Check.walk (measureTile limit none context payload sectionOffset header) index
      tiles totals) := by
  apply Check.safe_walk (P := fun _ _ => True) _ _ _ trivial
  intro _ totals tile hmem _
  refine ⟨?_, fun _ _ => trivial⟩
  have htile := hnarrow tile hmem
  have hcolumns : tile.columnCount ≤ uint32Max := htile.columnCount
  simp only [measureTile, noteInterval, Check.safe_bind_iff, Check.safe_rejectIf,
    Check.rejectIf_eq_ok, Check.safe_within, Check.safe_ok, Check.pure_eq_ok, not_lt,
    validateTileFrames_safe htile, validateTileData_safe htile hfile hsize hdirectory, true_and,
    and_true, implies_true, forall_const]
  intro _ _ _ _ _ _ hle
  omega

end Tiles

section Sections

variable {context : TileContext} {bytes : Bytes} {limit : ℕ} {entry : Entry}
  {entries : List Entry}

/-- The tiles of a list of sections. -/
def tilesOf (bytes : Bytes) (entries : List Entry) : List TileEntry :=
  entries.flatMap fun entry => entry.tiles bytes

/-- The file intervals of the columns of a list of sections. -/
def intervalsOf (bytes : Bytes) (entries : List Entry) : List (Interval ℕ) :=
  entries.flatMap fun entry => (entry.tiles bytes).map (TileEntry.interval entry.offset)

theorem length_tiles (entry : Entry) (bytes : Bytes) :
    (entry.tiles bytes).length = (entry.wdtlHeader bytes).tileCount := length_tileTable _ _

theorem tileColumns_append (first second : List TileEntry) :
    tileColumns (first ++ second) = tileColumns first + tileColumns second := by
  simp [tileColumns]

theorem length_intervalsOf (bytes : Bytes) (entries : List Entry) :
    (intervalsOf bytes entries).length = (tilesOf bytes entries).length := by
  simp [intervalsOf, tilesOf, List.length_flatMap]

theorem measureSection_eq_ok {capacity : Option ℕ} {layout layout' : DetailLayout}
    (hfits : entry.offset + entry.storedSize ≤ bytes.length) (hlen : bytes.length ≤ uint64Max)
    (hcount : Countable limit layout.totals.columnCount)
    (hroom : ∀ count ∈ capacity,
      layout.totals.intervals.length + (entry.tiles bytes).length ≤ count) :
    measureSection limit capacity context bytes entry layout = .ok layout' ↔
      DetailSectionOk context bytes entry ∧
        Countable limit (layout.tileCount + (entry.tiles bytes).length) ∧
        Countable limit (layout.totals.columnCount + tileColumns (entry.tiles bytes)) ∧
        layout' = ⟨layout.tileCount + (entry.tiles bytes).length, layout.sectionCount + 1,
          ⟨layout.totals.columnCount + tileColumns (entry.tiles bytes),
            noted capacity layout.totals.intervals (intervalsOf bytes [entry])⟩⟩ := by
  have hpayload : (entry.payload bytes).length = entry.storedSize := length_slice hfits
  have hfile : entry.offset + (entry.payload bytes).length ≤ bytes.length := by omega
  have hnarrow : ∀ tile ∈ entry.tiles bytes, tile.Narrow := fun _ h => narrow_of_mem_tileTable h
  have hintervals : intervalsOf bytes [entry] =
      (entry.tiles bytes).map (TileEntry.interval entry.offset) := by
    simp [intervalsOf]
  have htiles : (wdtlHeaderOf (entry.payload bytes)).tileCount = (entry.tiles bytes).length :=
    (length_tiles entry bytes).symm
  have hsmall : (wdtlHeaderOf (entry.payload bytes)).tileCount < 4294967296 := field_lt
  have hdirBytes : (wdtlHeaderOf (entry.payload bytes)).tileCount * wdtlTileSize ≤ uint64Max := by
    show _ * 48 ≤ 18446744073709551615
    omega
  have hview : slice bytes entry.offset entry.storedSize = entry.payload bytes := rfl
  rw [measureSection, Check.view_of_le hfits, hintervals, hview]
  simp only [Check.ok_bind, Check.bind_eq_ok, Check.rejectIf_eq_ok, ne_eq,
    not_not, not_lt, exists_and_left, exists_const]
  constructor
  · rintro ⟨hversion, hsize, header, hheader, hrest⟩
    rw [readWdtlHeader_eq hsize, Except.ok.injEq] at hheader
    subst hheader
    simp only [Check.within_of_le hdirBytes, Except.ok.injEq, exists_eq_left', not_or, not_and,
      not_lt, not_not, Bool.not_eq_false, rangeFits_iff] at hrest
    obtain ⟨⟨hzero, hreserved⟩, ⟨hafter, hdirectory⟩, hroomTiles, totals, htotals, hrest⟩ := hrest
    rw [forTiles_eq _ hdirectory] at htotals
    obtain ⟨hframes, hdata, hcolumns, rfl⟩ :=
      (measureTiles_eq_ok hfile hlen hdirectory rfl _ hnarrow hcount hroom).mp htotals
    simp only [Check.within_eq_ok, Check.pure_eq_ok, Except.ok.injEq] at hrest
    obtain ⟨_, ⟨h32, rfl⟩, hlimit, rfl⟩ := hrest
    rw [htiles] at h32 hlimit ⊢
    exact ⟨⟨hversion, hsize, hzero, hreserved, hafter, hdirectory, hframes, hdata⟩, ⟨h32, hlimit⟩,
      hcolumns, rfl⟩
  · rintro ⟨hok, ⟨h32, hlimit⟩, hcolumns, rfl⟩
    have hdirectory := hok.directoryFits
    refine ⟨hok.version, hok.size, _, readWdtlHeader_eq hok.size, ?_⟩
    simp only [Check.within_of_le hdirBytes, Except.ok.injEq, exists_eq_left', not_or, not_and,
      not_lt, not_not, Bool.not_eq_false, rangeFits_iff]
    rw [← htiles] at h32 hlimit ⊢
    have hwalk := (forTiles_eq _ hdirectory).trans
      ((measureTiles_eq_ok hfile hlen hdirectory rfl _ hnarrow hcount hroom).mpr
        ⟨hok.frames, hok.data, hcolumns, rfl⟩)
    refine ⟨⟨hok.tiles, hok.reserved⟩, ⟨hok.directoryAfter, hdirectory⟩, by omega, _, hwalk, ?_⟩
    simp only [Check.within_eq_ok, Check.pure_eq_ok, Except.ok.injEq]
    exact ⟨_, ⟨h32, rfl⟩, hlimit, rfl⟩

theorem measureSection_safe {layout : DetailLayout}
    (hfits : entry.offset + entry.storedSize ≤ bytes.length) (hlen : bytes.length ≤ uint64Max) :
    Check.Safe (measureSection limit none context bytes entry layout) := by
  have hpayload : (entry.payload bytes).length = entry.storedSize := length_slice hfits
  have hfile : entry.offset + (entry.payload bytes).length ≤ bytes.length := by omega
  have hsmall : (wdtlHeaderOf (entry.payload bytes)).tileCount < 4294967296 := field_lt
  have hdirBytes : (wdtlHeaderOf (entry.payload bytes)).tileCount * wdtlTileSize ≤ uint64Max := by
    show _ * 48 ≤ 18446744073709551615
    omega
  have hview : slice bytes entry.offset entry.storedSize = entry.payload bytes := rfl
  rw [measureSection, Check.view_of_le hfits, hview]
  simp only [Check.ok_bind, Check.safe_bind_iff, Check.safe_rejectIf, true_and,
    Check.rejectIf_eq_ok, not_lt]
  intro _ _ _ hsize
  rw [readWdtlHeader_eq hsize]
  refine ⟨Check.safe_ok _, ?_⟩
  rintro _ heq _ -
  rw [Except.ok.injEq] at heq
  subst heq
  rw [Check.within_of_le hdirBytes]
  refine ⟨Check.safe_ok _, ?_⟩
  rintro _ heq _ hdirectory _ hroom
  rw [Except.ok.injEq] at heq
  subst heq
  rw [not_or, Bool.not_eq_false, rangeFits_iff] at hdirectory
  rw [forTiles_eq _ hdirectory.2]
  refine ⟨measureTiles_safe hfile hlen hdirectory.2 _ (fun _ h => narrow_of_mem_tileTable h) _, ?_⟩
  intro _ _
  have hcount : (wdtlHeaderOf (entry.payload bytes)).tileCount ≤ uint32Max :=
    Nat.le_of_lt_succ hsmall
  simp only [Check.safe_within, Check.safe_ok, Check.pure_eq_ok, implies_true, and_true]
  omega

theorem measureSections_eq_ok {capacity : Option ℕ} (hlen : bytes.length ≤ uint64Max)
    (entries : List Entry) (hfits : ∀ entry ∈ entries, entry.offset + entry.storedSize ≤ bytes.length)
    {index : ℕ} {layout layout' : DetailLayout} (htiles : Countable limit layout.tileCount)
    (hcount : Countable limit layout.totals.columnCount)
    (hroom : ∀ count ∈ capacity,
      layout.totals.intervals.length + (tilesOf bytes entries).length ≤ count) :
    Check.walk (fun _ entry layout => measureSection limit capacity context bytes entry layout)
        index entries layout = .ok layout' ↔
      (∀ entry ∈ entries, DetailSectionOk context bytes entry) ∧
        Countable limit (layout.tileCount + (tilesOf bytes entries).length) ∧
        Countable limit (layout.totals.columnCount + tileColumns (tilesOf bytes entries)) ∧
        layout' = ⟨layout.tileCount + (tilesOf bytes entries).length,
          layout.sectionCount + entries.length,
          ⟨layout.totals.columnCount + tileColumns (tilesOf bytes entries),
            noted capacity layout.totals.intervals (intervalsOf bytes entries)⟩⟩ := by
  induction entries generalizing index layout with
  | nil =>
      have hnil : noted capacity layout.totals.intervals [] = layout.totals.intervals := by
        cases capacity <;> simp [noted]
      simp [tilesOf, intervalsOf, tileColumns, htiles, hcount, hnil, eq_comm]
  | cons entry rest ih =>
      have hentry := hfits entry List.mem_cons_self
      have hrest := fun other hother => hfits other (List.mem_cons_of_mem _ hother)
      have hcons : tilesOf bytes (entry :: rest) = entry.tiles bytes ++ tilesOf bytes rest := by
        simp [tilesOf]
      have hconsIntervals : intervalsOf bytes (entry :: rest) =
          intervalsOf bytes [entry] ++ intervalsOf bytes rest := by
        simp [intervalsOf]
      rw [hcons, List.length_append] at hroom ⊢
      have hroomEntry : ∀ count ∈ capacity,
          layout.totals.intervals.length + (entry.tiles bytes).length ≤ count := by
        intro count hmem
        have := hroom count hmem
        omega
      have hroomRest : ∀ count ∈ capacity, (noted capacity layout.totals.intervals
          (intervalsOf bytes [entry])).length + (tilesOf bytes rest).length ≤ count := by
        intro count hmem
        have hle := hroom count hmem
        have hnoted := length_noted_le capacity layout.totals.intervals (intervalsOf bytes [entry])
        have hone : tilesOf bytes [entry] = entry.tiles bytes := by simp [tilesOf]
        rw [length_intervalsOf, hone] at hnoted
        omega
      rw [Check.walk_cons_eq_ok, List.forall_mem_cons, List.length_cons, tileColumns_append,
        hconsIntervals]
      constructor
      · rintro ⟨next, hnext, hwalk⟩
        obtain ⟨hok, hnextTiles, hnextCount, rfl⟩ :=
          (measureSection_eq_ok hentry hlen hcount hroomEntry).mp hnext
        obtain ⟨hall, htotalTiles, htotal, rfl⟩ :=
          (ih hrest hnextTiles hnextCount hroomRest).mp hwalk
        simp only [Nat.add_assoc] at htotalTiles htotal
        refine ⟨⟨hok, hall⟩, htotalTiles, htotal, ?_⟩
        rw [noted_noted]
        simp only [Nat.add_assoc, Nat.add_comm 1]
      · rintro ⟨⟨hok, hall⟩, htotalTiles, htotal, rfl⟩
        rw [← Nat.add_assoc] at htotalTiles htotal
        have hnextTiles : Countable limit (layout.tileCount + (entry.tiles bytes).length) := by
          obtain ⟨h32, hlimit⟩ := htotalTiles
          exact ⟨by omega, by omega⟩
        have hnextCount : Countable limit
            (layout.totals.columnCount + tileColumns (entry.tiles bytes)) := by
          obtain ⟨h32, hlimit⟩ := htotal
          exact ⟨by omega, by omega⟩
        refine ⟨_, (measureSection_eq_ok hentry hlen hcount hroomEntry).mpr
          ⟨hok, hnextTiles, hnextCount, rfl⟩, ?_⟩
        rw [ih hrest]
        · refine ⟨hall, htotalTiles, htotal, ?_⟩
          rw [noted_noted]
          simp only [Nat.add_assoc, Nat.add_comm 1]
        · exact hnextTiles
        · exact hnextCount
        · exact hroomRest

end Sections

/-- The context of the tiles of a container. -/
def tileContext (options : Option ParseOptions) (bytes : Bytes) : TileContext :=
  ⟨isStrict options, (headerOf bytes).totalSourceFrames, (headerOf bytes).isPartial⟩

/-- What the measure asks of the detail sections of a container. -/
structure DetailOk (context : TileContext) (limit : ℕ) (bytes : Bytes) : Prop where
  sections : ∀ entry ∈ sections bytes .detail, DetailSectionOk context bytes entry
  tiles : Countable limit (tilesOf bytes (Container.sections bytes .detail)).length
  columns : Countable limit (tileColumns (tilesOf bytes (Container.sections bytes .detail)))

/-- The layout of the detail sections of a container. -/
def detailLayout (capacity : Option ℕ) (bytes : Bytes) : DetailLayout :=
  ⟨(tilesOf bytes (sections bytes .detail)).length, (sections bytes .detail).length,
    ⟨tileColumns (tilesOf bytes (sections bytes .detail)),
      noted capacity [] (intervalsOf bytes (sections bytes .detail))⟩⟩

section Container

variable {strict : Bool} {bytes : Bytes} {input : WovrInput} {options : Option ParseOptions}

private theorem measureDetail_walk (h : ContainerOk strict bytes input) (capacity : Option ℕ) :
    measureDetail options capacity bytes =
      Check.walk (fun _ entry layout => measureSection (columnLimit options) capacity
        (tileContext options bytes) bytes entry layout) 0 (sections bytes .detail)
        ⟨0, 0, ⟨0, []⟩⟩ := by
  have hsize := h.size
  rw [measureDetail]
  simp (disch := omega) only [Check.read_of_le, Check.ok_bind]
  exact h.forSections_eq _

/-- What the measure accepts, and the layout it gives. -/
theorem measureDetail_eq_ok (h : ContainerOk strict bytes input) {capacity : Option ℕ}
    {layout : DetailLayout}
    (hroom : ∀ count ∈ capacity, (tilesOf bytes (sections bytes .detail)).length ≤ count) :
    measureDetail options capacity bytes = .ok layout ↔
      DetailOk (tileContext options bytes) (columnLimit options) bytes ∧
        layout = detailLayout capacity bytes := by
  have hzero : Countable (columnLimit options) 0 := ⟨Nat.zero_le _, Nat.zero_le _⟩
  have hroom' : ∀ count ∈ capacity, ([] : List (Interval ℕ)).length +
      (tilesOf bytes (sections bytes .detail)).length ≤ count := by
    intro count hmem
    rw [List.length_nil, Nat.zero_add]
    exact hroom count hmem
  rw [measureDetail_walk h, measureSections_eq_ok h.length_le _
    (fun entry hmem => (h.sectionEntry hmem).1.fits) hzero hzero hroom']
  simp only [Nat.zero_add]
  constructor
  · rintro ⟨hsections, htiles, hcolumns, rfl⟩
    exact ⟨⟨hsections, htiles, hcolumns⟩, rfl⟩
  · rintro ⟨hok, rfl⟩
    exact ⟨hok.sections, hok.tiles, hok.columns, rfl⟩

theorem measureDetail_safe (h : ContainerOk strict bytes input) :
    Check.Safe (measureDetail options none bytes) := by
  rw [measureDetail_walk h]
  apply Check.safe_walk (P := fun _ _ => True) _ _ _ trivial
  intro _ _ entry hmem _
  exact ⟨measureSection_safe (h.sectionEntry hmem).1.fits h.length_le, fun _ _ => trivial⟩

end Container

/-! ## Copy into a result -/

/-- The tile a descriptor describes. The reader does not keep the flags of a descriptor. -/
def tileOf (payload : Bytes) (tile : TileEntry) : Tile where
  levelId := tile.levelId
  tileIndex := tile.tileIndex
  sourceRange := ⟨tile.firstFrame, tile.endFrame⟩
  firstColumnIndex := tile.firstColumn
  state := tile.state
  confidence := tile.confidence
  flags := 0
  columns := tile.columns payload

/-- Copy one tile and its columns behind those already copied. -/
def copyTile (tileCapacity columnCapacity : ℕ) (payload : Bytes) (_index : ℕ) (tile : TileEntry)
    (written : List Tile × List Column) : Check ErrorCode (List Tile × List Column) := do
  let columns ← copyColumns columnCapacity payload tile.columnsOffset tile.columnCount written.2
  let tiles ← Check.push tileCapacity written.1
    { levelId := tile.levelId
      tileIndex := tile.tileIndex
      sourceRange := ⟨tile.firstFrame, tile.endFrame⟩
      firstColumnIndex := tile.firstColumn
      state := tile.state
      confidence := tile.confidence
      flags := 0
      columns := slice columns written.2.length tile.columnCount }
  return (tiles, columns)

/-- Copy the tiles of a section. -/
def copySection (tileCapacity columnCapacity : ℕ) (bytes : Bytes) (entry : Entry)
    (written : List Tile × List Column) : Check ErrorCode (List Tile × List Column) := do
  let payload ← Check.view bytes entry.offset entry.storedSize
  let header ← readWdtlHeader payload
  forTiles payload header (copyTile tileCapacity columnCapacity payload) written

/-- Copy the detail sections into arrays of the given element counts. -/
def copyDetail (tileCapacity columnCapacity : ℕ) (bytes : Bytes) :
    Check ErrorCode (List Tile × List Column) := do
  let sectionCount ← Check.read 4 bytes 20
  let directoryOffset ← Check.read 8 bytes 24
  forEntries bytes directoryOffset sectionCount (fun _ entry written =>
    if entry.tag = .detail then copySection tileCapacity columnCapacity bytes entry written
    else .ok written) ([], [])

/-- The key tiles are sorted by: level, then index. -/
def Tile.key (tile : Tile) : ℕ ×ₗ ℕ := toLex (tile.levelId, tile.tileIndex)

/-- Sort the tiles; two tiles of one level and index are an error. -/
def sortTiles (tiles : List Tile) : Check ErrorCode (List Tile) := do
  let sorted := SortKey.sortKey Tile.key tiles
  Check.rejectIf (SortKey.repeats Tile.key sorted = true) .corruptData
  return sorted

/-- The tiles the sections of a list describe. -/
def decodedTiles (bytes : Bytes) (entries : List Entry) : List Tile :=
  entries.flatMap fun entry => (entry.tiles bytes).map (tileOf (entry.payload bytes))

theorem sortTiles_eq_ok {tiles sorted : List Tile} :
    sortTiles tiles = .ok sorted ↔
      (tiles.map Tile.key).Nodup ∧ sorted = SortKey.sortKey Tile.key tiles := by
  rw [sortTiles, Check.bind_eq_ok]
  simp only [Check.rejectIf_eq_ok, Bool.not_eq_true, SortKey.repeats_sortKey, Check.pure_eq_ok,
    Except.ok.injEq, exists_const]
  exact and_congr_right fun _ => eq_comm

theorem sortTiles_safe (tiles : List Tile) : Check.Safe (sortTiles tiles) :=
  Check.safe_bind (Check.safe_rejectIf _ _) fun _ _ => Check.safe_ok _

section Copy

variable {context : TileContext} {bytes : Bytes}

theorem length_columns (payload : Bytes) (tile : TileEntry) :
    (tile.columns payload).length = tile.columnCount := by
  rw [TileEntry.columns, columnTable, List.length_map, length_records]

theorem copyTiles_eq {strict : Bool} {payload : Bytes} {header : WdtlHeader}
    {tileCapacity columnCapacity : ℕ} (tiles : List TileEntry)
    (hok : ∀ tile ∈ tiles, TileDataOk strict payload header tile) {index : ℕ}
    {written : List Tile × List Column}
    (htiles : written.1.length + tiles.length ≤ tileCapacity)
    (hcolumns : written.2.length + tileColumns tiles ≤ columnCapacity) :
    Check.walk (copyTile tileCapacity columnCapacity payload) index tiles written =
      .ok (written.1 ++ tiles.map (tileOf payload),
        written.2 ++ tiles.flatMap fun tile => tile.columns payload) := by
  induction tiles generalizing index written with
  | nil => simp
  | cons tile rest ih =>
      have hfits := (hok tile List.mem_cons_self).fits
      have hsum : tileColumns (tile :: rest) = tile.columnCount + tileColumns rest := by
        simp [tileColumns]
      rw [List.length_cons] at htiles
      rw [hsum] at hcolumns
      have hpart : slice (written.2 ++ tile.columns payload) written.2.length tile.columnCount =
          tile.columns payload := by
        have hmiddle := slice_append_middle written.2 (tile.columns payload) []
        rwa [List.append_nil, length_columns] at hmiddle
      have hstep : copyTile tileCapacity columnCapacity payload index tile written =
          .ok (written.1 ++ [tileOf payload tile], written.2 ++ tile.columns payload) := by
        rw [copyTile, copyColumns_eq hfits (by omega), Check.ok_bind, ← TileEntry.columns, hpart,
          Check.push_of_lt (by omega)]
        rfl
      rw [Check.walk_cons, hstep, Check.ok_bind,
        ih fun other hother => hok other (List.mem_cons_of_mem _ hother)]
      · simp
      · rw [List.length_append, List.length_singleton]
        omega
      · rw [List.length_append, length_columns]
        omega

theorem copySections_eq {tileCapacity columnCapacity : ℕ} (entries : List Entry)
    (hfits : ∀ entry ∈ entries, entry.offset + entry.storedSize ≤ bytes.length)
    (hok : ∀ entry ∈ entries, DetailSectionOk context bytes entry) {index : ℕ}
    {written : List Tile × List Column}
    (htiles : written.1.length + (tilesOf bytes entries).length ≤ tileCapacity)
    (hcolumns : written.2.length + tileColumns (tilesOf bytes entries) ≤ columnCapacity) :
    Check.walk (fun _ entry written => copySection tileCapacity columnCapacity bytes entry written)
        index entries written =
      .ok (written.1 ++ decodedTiles bytes entries,
        written.2 ++ entries.flatMap fun entry =>
          (entry.tiles bytes).flatMap fun tile => tile.columns (entry.payload bytes)) := by
  induction entries generalizing index written with
  | nil => simp [decodedTiles]
  | cons entry rest ih =>
      have hentry := hok entry List.mem_cons_self
      have hcons : tilesOf bytes (entry :: rest) = entry.tiles bytes ++ tilesOf bytes rest := by
        simp [tilesOf]
      rw [hcons, List.length_append] at htiles
      rw [hcons, tileColumns_append] at hcolumns
      have hlength : ((entry.tiles bytes).flatMap fun tile =>
          tile.columns (entry.payload bytes)).length = tileColumns (entry.tiles bytes) := by
        simp [List.length_flatMap, tileColumns, length_columns]
      have hstep : copySection tileCapacity columnCapacity bytes entry written =
          .ok (written.1 ++ (entry.tiles bytes).map (tileOf (entry.payload bytes)),
            written.2 ++ (entry.tiles bytes).flatMap fun tile =>
              tile.columns (entry.payload bytes)) := by
        have hview : slice bytes entry.offset entry.storedSize = entry.payload bytes := rfl
        rw [copySection, Check.view_of_le (hfits entry List.mem_cons_self), Check.ok_bind, hview,
          readWdtlHeader_eq hentry.size, Check.ok_bind]
        refine (forTiles_eq _ hentry.directoryFits).trans ?_
        exact copyTiles_eq _ hentry.data
          ((Nat.add_le_add_left (Nat.le_add_right _ _) _).trans htiles)
          ((Nat.add_le_add_left (Nat.le_add_right _ _) _).trans hcolumns)
      rw [Check.walk_cons, hstep, Check.ok_bind,
        ih (fun other hother => hfits other (List.mem_cons_of_mem _ hother))
          fun other hother => hok other (List.mem_cons_of_mem _ hother)]
      · simp [decodedTiles]
      · rw [List.length_append, List.length_map]
        omega
      · rw [List.length_append, hlength]
        omega

/-- The copy of detail sections that were measured. -/
theorem copyDetail_eq {strict : Bool} {input : WovrInput} {limit : ℕ}
    (h : ContainerOk strict bytes input) (hok : DetailOk context limit bytes) :
    copyDetail (tilesOf bytes (sections bytes .detail)).length
        (tileColumns (tilesOf bytes (sections bytes .detail))) bytes =
      .ok (decodedTiles bytes (sections bytes .detail),
        (sections bytes .detail).flatMap fun entry =>
          (entry.tiles bytes).flatMap fun tile => tile.columns (entry.payload bytes)) := by
  have hsize := h.size
  rw [copyDetail]
  simp (disch := omega) only [Check.read_of_le, Check.ok_bind]
  refine (h.forSections_eq _).trans ?_
  rw [copySections_eq _ (fun entry hmem => (h.sectionEntry hmem).1.fits) hok.sections]
  · rfl
  · rw [List.length_nil, Nat.zero_add]
  · rw [List.length_nil, Nat.zero_add]

end Copy

end LibApta.Container
