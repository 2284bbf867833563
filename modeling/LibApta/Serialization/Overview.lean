import LibApta.Lib.Sweep
import LibApta.Serialization.Container

/-!
# The overview section

Geometry of a `WOVR` payload, the copy of its spans and columns into a result, and the later pass
that tests coverage and the packed intervals. `GeometryOk` and `HardeningOk` say what the two
passes accept.
-/

namespace LibApta.Container

open LittleEndian

/-! ## Records -/

/-- The header of an overview payload. -/
structure WovrHeader where
  levelId : ℕ
  framesPerColumn : ℕ
  originFrame : ℕ
  logicalColumnCount : ℕ
  spanCount : ℕ
  spanDirectoryOffset : ℕ
  columnDataOffset : ℕ
  flags : ℕ
  reserved : ℕ
deriving DecidableEq

/-- The feature state in the flags. -/
def WovrHeader.state (header : WovrHeader) : ℕ := header.flags % 8

/-- The header a payload starts with. -/
def wovrHeaderOf (payload : Bytes) : WovrHeader where
  levelId := field 4 payload 0
  framesPerColumn := field 4 payload 4
  originFrame := field 8 payload 8
  logicalColumnCount := field 4 payload 16
  spanCount := field 4 payload 20
  spanDirectoryOffset := field 8 payload 24
  columnDataOffset := field 8 payload 32
  flags := field 4 payload 40
  reserved := field 4 payload 44

/-- Read the header of an overview payload. -/
def readWovrHeader (payload : Bytes) : Check ErrorCode WovrHeader := do
  let levelId ← Check.read 4 payload 0
  let framesPerColumn ← Check.read 4 payload 4
  let originFrame ← Check.read 8 payload 8
  let logicalColumnCount ← Check.read 4 payload 16
  let spanCount ← Check.read 4 payload 20
  let spanDirectoryOffset ← Check.read 8 payload 24
  let columnDataOffset ← Check.read 8 payload 32
  let flags ← Check.read 4 payload 40
  let reserved ← Check.read 4 payload 44
  return {
    levelId, framesPerColumn, originFrame, logicalColumnCount, spanCount, spanDirectoryOffset,
    columnDataOffset, flags, reserved }

theorem readWovrHeader_eq {payload : Bytes} (h : wovrHeaderSize ≤ payload.length) :
    readWovrHeader payload = .ok (wovrHeaderOf payload) := by
  have hlen : 48 ≤ payload.length := h
  simp (disch := omega) only [readWovrHeader, wovrHeaderOf, Check.read_of_le, Check.ok_bind,
    Check.pure_eq_ok]

/-- A record of the span directory. -/
structure SpanEntry where
  firstFrame : ℕ
  endFrame : ℕ
  firstColumn : ℕ
  columnCount : ℕ
  dataColumnOffset : ℕ
  reserved : ℕ
deriving DecidableEq

/-- The column after the last one of the span. -/
def SpanEntry.endColumn (span : SpanEntry) : ℕ := span.firstColumn + span.columnCount

/-- The span a record holds. -/
def spanEntryOf (record : Bytes) : SpanEntry where
  firstFrame := field 8 record 0
  endFrame := field 8 record 8
  firstColumn := field 4 record 16
  columnCount := field 4 record 20
  dataColumnOffset := field 4 record 24
  reserved := field 4 record 28

/-- Read a record of the span directory. -/
def readSpanEntry (record : Bytes) : Check ErrorCode SpanEntry := do
  let firstFrame ← Check.read 8 record 0
  let endFrame ← Check.read 8 record 8
  let firstColumn ← Check.read 4 record 16
  let columnCount ← Check.read 4 record 20
  let dataColumnOffset ← Check.read 4 record 24
  let reserved ← Check.read 4 record 28
  return ⟨firstFrame, endFrame, firstColumn, columnCount, dataColumnOffset, reserved⟩

theorem readSpanEntry_eq {record : Bytes} (h : record.length = wovrSpanSize) :
    readSpanEntry record = .ok (spanEntryOf record) := by
  have hlen : record.length = 32 := h
  simp (disch := omega) only [readSpanEntry, spanEntryOf, Check.read_of_le, Check.ok_bind,
    Check.pure_eq_ok]

/-- The span directory of a payload. -/
def spanTable (payload : Bytes) (header : WovrHeader) : List SpanEntry :=
  (records wovrSpanSize payload header.spanDirectoryOffset header.spanCount).map spanEntryOf

/-- Walk over the span directory. -/
def forSpans {σ : Type} (payload : Bytes) (header : WovrHeader)
    (step : ℕ → SpanEntry → σ → Check ErrorCode σ) : σ → Check ErrorCode σ :=
  Check.forRecords wovrSpanSize payload header.spanDirectoryOffset header.spanCount
    fun index record s => do
      let span ← readSpanEntry record
      step index span s

theorem forSpans_eq {σ : Type} {payload : Bytes} {header : WovrHeader}
    {step : ℕ → SpanEntry → σ → Check ErrorCode σ} (s : σ)
    (h : header.spanDirectoryOffset + header.spanCount * wovrSpanSize ≤ payload.length) :
    forSpans payload header step s = Check.walk step 0 (spanTable payload header) s := by
  rw [forSpans, Check.forRecords_eq s h, spanTable, Check.walk_map]
  apply Check.walk_congr
  intro _ record hmem _
  rw [readSpanEntry_eq (length_of_mem_records h hmem), Check.ok_bind]

/-! ## Geometry -/

/-- Sum of two 64-bit numbers as the machine computes it. -/
def wrappingAdd (a b : ℕ) : Check ErrorCode ℕ := .ok ((a + b) % 2 ^ 64)

/-- Sum of two 64-bit numbers that must not wrap. -/
def exactAdd (a b : ℕ) : Check ErrorCode ℕ := Check.within uint64Max (a + b)

/-- The state of the geometry walk: the packed columns so far and where the last span ended. -/
structure GeometryState where
  packedColumns : ℕ
  previousEndFrame : ℕ
  previousEndColumn : ℕ
deriving DecidableEq

/-- Check the header of the overview. -/
def validateWovrHeader (options : EffectiveOptions) (container : Header) (payload : Bytes) :
    Check ErrorCode WovrHeader := do
  Check.rejectIf (payload.length < wovrHeaderSize) .corruptData
  let header ← readWovrHeader payload
  Check.rejectIf (header.framesPerColumn = 0 ∨ header.logicalColumnCount = 0 ∨
    header.spanCount = 0) .corruptData
  Check.rejectIf (options.maximumOverviewSpans < header.spanCount ∨
    options.maximumWaveformColumns < header.logicalColumnCount) .limitExceeded
  Check.rejectIf (8 ≤ header.flags ∨ header.state < statePartial ∨ stateFinal < header.state ∨
    (options.strict = true ∧ header.reserved ≠ 0)) .corruptData
  Check.rejectIf ((header.state = stateFinal ∧
      container.totalSourceFrames = totalFramesUnknown) ∨
    (header.state ≠ stateFinal ∧ container.isPartial = false)) .corruptData
  let spanBytes ← Check.within uint64Max (header.spanCount * wovrSpanSize)
  Check.rejectIf (header.spanDirectoryOffset < wovrHeaderSize ∨
    header.columnDataOffset < wovrHeaderSize ∨
    rangeFits header.spanDirectoryOffset spanBytes payload.length = false) .corruptData
  return header

/-- The columns a stretch of frames takes. -/
def requiredColumns (framesPerColumn frames : ℕ) : ℕ :=
  frames / framesPerColumn + if frames % framesPerColumn = 0 then 0 else 1

/-- Check the logical column count against a known duration. -/
def validateColumnCount (container : Header) (header : WovrHeader) : Check ErrorCode Unit :=
  if container.totalSourceFrames = totalFramesUnknown then .ok ()
  else do
    Check.rejectIf (container.totalSourceFrames < header.originFrame) .corruptData
    let required ← Check.within uint64Max (requiredColumns header.framesPerColumn
      (container.totalSourceFrames - header.originFrame))
    Check.rejectIf (required ≠ header.logicalColumnCount) .corruptData

/-- Check the order and the frames of a span. -/
def validateSpanFrames (options : EffectiveOptions) (container : Header) (header : WovrHeader)
    (index : ℕ) (span : SpanEntry) (state : GeometryState) : Check ErrorCode Unit := do
  Check.rejectIf (span.endFrame ≤ span.firstFrame ∨ span.columnCount = 0 ∨
    (options.strict = true ∧ span.reserved ≠ 0)) .corruptData
  let endColumn ← Check.within uint64Max span.endColumn
  Check.rejectIf (header.logicalColumnCount < endColumn ∨ (index ≠ 0 ∧
    (span.firstFrame < state.previousEndFrame ∨ span.firstColumn < state.previousEndColumn)))
    .corruptData
  let firstOffset ← Check.within uint64Max (span.firstColumn * header.framesPerColumn)
  let endOffset ← Check.within uint64Max (endColumn * header.framesPerColumn)
  Check.rejectIf (uint64Max - firstOffset < header.originFrame ∨
    uint64Max - endOffset < header.originFrame) .limitExceeded
  let expectedFirst ← Check.within uint64Max (header.originFrame + firstOffset)
  let expectedEnd ← Check.within uint64Max (header.originFrame + endOffset)
  Check.rejectIf (span.firstFrame ≠ expectedFirst) .corruptData
  Check.rejectIf (span.endFrame ≠ expectedEnd ∧
    (container.totalSourceFrames = totalFramesUnknown ∨
      span.endFrame ≠ container.totalSourceFrames ∨ endColumn ≠ header.logicalColumnCount ∨
      expectedEnd ≤ container.totalSourceFrames)) .corruptData
  Check.rejectIf (container.totalSourceFrames ≠ totalFramesUnknown ∧
    container.totalSourceFrames < span.endFrame) .corruptData

/-- Check where the columns of a span lie, and the columns. `add` computes the one sum that the
source tests for wrapping after it was computed. -/
def validateSpanData (add : ℕ → ℕ → Check ErrorCode ℕ) (options : EffectiveOptions)
    (payload : Bytes) (header : WovrHeader) (span : SpanEntry) : Check ErrorCode Unit := do
  let dataOffset ← Check.within uint64Max (span.dataColumnOffset * packedColumnSize)
  let dataFirst ← add header.columnDataOffset dataOffset
  let dataBytes ← Check.within uint64Max (span.columnCount * packedColumnSize)
  Check.rejectIf (dataFirst < header.columnDataOffset ∨
    rangeFits dataFirst dataBytes payload.length = false) .corruptData
  let onHeader ← rangesOverlap dataFirst dataBytes 0 wovrHeaderSize
  Check.rejectIf (onHeader = true) .corruptData
  let onDirectory ← rangesOverlap dataFirst dataBytes header.spanDirectoryOffset
    (header.spanCount * wovrSpanSize)
  Check.rejectIf (onDirectory = true) .corruptData
  validateColumns options.strict payload dataFirst span.columnCount

/-- Check one span and count its columns. -/
def validateSpan (add : ℕ → ℕ → Check ErrorCode ℕ) (options : EffectiveOptions)
    (container : Header) (payload : Bytes) (header : WovrHeader) (index : ℕ) (span : SpanEntry)
    (state : GeometryState) : Check ErrorCode GeometryState := do
  validateSpanFrames options container header index span state
  validateSpanData add options payload header span
  Check.rejectIf (uint32Max - span.columnCount < state.packedColumns) .limitExceeded
  let packedColumns ← Check.within uint64Max (state.packedColumns + span.columnCount)
  Check.rejectIf (options.maximumWaveformColumns < packedColumns) .limitExceeded
  return ⟨packedColumns, span.endFrame, span.endColumn⟩

/-- Check that a final overview starts at the first column and ends at the last. -/
def validateFinalColumns (payload : Bytes) (header : WovrHeader) (state : GeometryState) :
    Check ErrorCode Unit := do
  let firstColumn ← Check.read 4 payload (header.spanDirectoryOffset + 16)
  Check.rejectIf (header.state = stateFinal ∧
    (state.previousEndColumn ≠ header.logicalColumnCount ∨ firstColumn ≠ 0)) .corruptData

/-- Check the geometry of an overview and count its packed columns. -/
def validateWovrGeometryWith (add : ℕ → ℕ → Check ErrorCode ℕ) (options : EffectiveOptions)
    (input : WovrInput) : Check ErrorCode ℕ := do
  let header ← validateWovrHeader options input.header input.payload
  validateColumnCount input.header header
  let state ← forSpans input.payload header
    (validateSpan add options input.header input.payload header) ⟨0, 0, 0⟩
  validateFinalColumns input.payload header state
  return state.packedColumns

/-- Check the geometry of an overview, with the arithmetic of the machine. -/
def validateWovrGeometry (options : EffectiveOptions) (input : WovrInput) : Check ErrorCode ℕ :=
  validateWovrGeometryWith wrappingAdd options input

/-! ## What the geometry check accepts -/

/-- What the geometry check asks of the header of an overview. -/
structure WovrHeaderOk (strict : Bool) (container : Header) (payload : Bytes)
    (header : WovrHeader) : Prop where
  size : wovrHeaderSize ≤ payload.length
  framesPerColumn : header.framesPerColumn ≠ 0
  logicalColumns : header.logicalColumnCount ≠ 0
  spans : header.spanCount ≠ 0
  flags : header.flags < 8
  state : statePartial ≤ header.state ∧ header.state ≤ stateFinal
  reserved : strict = true → header.reserved = 0
  finalKnown : header.state = stateFinal → container.totalSourceFrames ≠ totalFramesUnknown
  unfinished : header.state ≠ stateFinal → container.isPartial = true
  directoryAfter : wovrHeaderSize ≤ header.spanDirectoryOffset
  dataAfter : wovrHeaderSize ≤ header.columnDataOffset
  directoryFits : header.spanDirectoryOffset + header.spanCount * wovrSpanSize ≤ payload.length

/-- The overview is within the limits of the options. -/
structure WovrLimits (options : EffectiveOptions) (header : WovrHeader) : Prop where
  spans : header.spanCount ≤ options.maximumOverviewSpans
  logicalColumns : header.logicalColumnCount ≤ options.maximumWaveformColumns

/-- The logical column count fits a known duration. -/
def ColumnCountOk (container : Header) (header : WovrHeader) : Prop :=
  container.totalSourceFrames ≠ totalFramesUnknown →
    header.originFrame ≤ container.totalSourceFrames ∧
      requiredColumns header.framesPerColumn (container.totalSourceFrames - header.originFrame) =
        header.logicalColumnCount

/-- What the geometry check asks of the frames of a span. -/
structure SpanFramesOk (strict : Bool) (container : Header) (header : WovrHeader)
    (span : SpanEntry) : Prop where
  frames : span.firstFrame < span.endFrame
  columns : span.columnCount ≠ 0
  reserved : strict = true → span.reserved = 0
  logical : span.endColumn ≤ header.logicalColumnCount
  noWrap : header.originFrame + span.endColumn * header.framesPerColumn ≤ uint64Max
  first : span.firstFrame = header.originFrame + span.firstColumn * header.framesPerColumn
  last : span.endFrame = header.originFrame + span.endColumn * header.framesPerColumn ∨
    (container.totalSourceFrames ≠ totalFramesUnknown ∧
      span.endFrame = container.totalSourceFrames ∧ span.endColumn = header.logicalColumnCount ∧
      container.totalSourceFrames <
        header.originFrame + span.endColumn * header.framesPerColumn)
  total : container.totalSourceFrames ≠ totalFramesUnknown →
    span.endFrame ≤ container.totalSourceFrames

/-- Where the packed columns of a span start. -/
def SpanEntry.dataFirst (header : WovrHeader) (span : SpanEntry) : ℕ :=
  header.columnDataOffset + span.dataColumnOffset * packedColumnSize

/-- The packed columns of a span. -/
def SpanEntry.columns (payload : Bytes) (header : WovrHeader) (span : SpanEntry) : List Column :=
  columnTable payload (span.dataFirst header) span.columnCount

/-- What the geometry check asks of the data of a span. -/
structure SpanDataOk (strict : Bool) (payload : Bytes) (header : WovrHeader) (span : SpanEntry) :
    Prop where
  fits : span.dataFirst header + span.columnCount * packedColumnSize ≤ payload.length
  offDirectory : ¬ Overlap (span.dataFirst header) (span.columnCount * packedColumnSize)
    header.spanDirectoryOffset (header.spanCount * wovrSpanSize)
  columns : ∀ column ∈ span.columns payload header, ColumnOk strict column

/-- A span comes after another, in frames and in columns. -/
def SpanEntry.Follows (previous span : SpanEntry) : Prop :=
  previous.endFrame ≤ span.firstFrame ∧ previous.endColumn ≤ span.firstColumn

/-- The packed columns of a list of spans. -/
def packedColumns (spans : List SpanEntry) : ℕ := (spans.map SpanEntry.columnCount).sum

/-- What the geometry check asks of an overview. -/
structure GeometryOk (strict : Bool) (input : WovrInput) (header : WovrHeader)
    (spans : List SpanEntry) : Prop where
  header_eq : header = wovrHeaderOf input.payload
  spans_eq : spans = spanTable input.payload header
  headerOk : WovrHeaderOk strict input.header input.payload header
  columnCount : ColumnCountOk input.header header
  frames : ∀ span ∈ spans, SpanFramesOk strict input.header header span
  data : ∀ span ∈ spans, SpanDataOk strict input.payload header span
  ordered : spans.IsChain SpanEntry.Follows
  packed : packedColumns spans ≤ uint32Max
  finalFirst : header.state = stateFinal → ∀ span ∈ spans.head?, span.firstColumn = 0
  finalLast : header.state = stateFinal →
    ∀ span ∈ spans.getLast?, span.endColumn = header.logicalColumnCount

/-- An overview has at least one packed column. -/
theorem GeometryOk.one_le_packedColumns {strict : Bool} {input : WovrInput} {header : WovrHeader}
    {spans : List SpanEntry} (h : GeometryOk strict input header spans) :
    1 ≤ packedColumns spans := by
  have hlength : spans.length = header.spanCount := by
    rw [h.spans_eq, spanTable, List.length_map, length_records]
  have hcount := h.headerOk.spans
  have hframes := h.frames
  cases spans with
  | nil => exact absurd hlength.symm hcount
  | cons span rest =>
      have hcolumns := (hframes span List.mem_cons_self).columns
      have hsum : packedColumns (span :: rest) = span.columnCount + packedColumns rest := by
        simp [packedColumns]
      omega

section Spans

variable {options : EffectiveOptions} {container : Header} {payload : Bytes} {header : WovrHeader}

theorem validateWovrHeader_eq_ok :
    validateWovrHeader options container payload = .ok header ↔
      header = wovrHeaderOf payload ∧ WovrHeaderOk options.strict container payload header ∧
        WovrLimits options header := by
  by_cases hsize : payload.length < wovrHeaderSize
  · constructor
    · intro h
      rw [validateWovrHeader, Check.bind_eq_ok] at h
      obtain ⟨_, hrej, -⟩ := h
      exact absurd hsize (Check.rejectIf_eq_ok.mp hrej)
    · rintro ⟨rfl, hok, -⟩
      exact absurd hok.size (not_le.mpr hsize)
  have hcount : (wovrHeaderOf payload).spanCount < 4294967296 := field_lt
  simp only [validateWovrHeader, Check.bind_eq_ok, Check.rejectIf_eq_ok, Check.within_eq_ok,
    readWovrHeader_eq (not_lt.mp hsize), Check.pure_eq_ok, Except.ok.injEq, exists_and_left,
    exists_const, exists_eq_left', not_or, not_and, not_lt, not_le, Bool.not_eq_false,
    rangeFits_iff, ne_eq, not_not]
  constructor
  · rintro ⟨-, ⟨hfpc, hlogical, hspans⟩, ⟨hmax, hmaxColumns⟩, ⟨hflags, hlow, hhigh, hreserved⟩,
      ⟨hfinal, hunfinished⟩, _, ⟨-, rfl⟩, ⟨hdir, hdata, hfits⟩, rfl⟩
    exact ⟨rfl, ⟨not_lt.mp hsize, hfpc, hlogical, hspans, hflags, ⟨hlow, hhigh⟩, hreserved, hfinal,
      hunfinished, hdir, hdata, hfits⟩, ⟨hmax, hmaxColumns⟩⟩
  · rintro ⟨rfl, hok, hlimits⟩
    refine ⟨not_lt.mp hsize, ⟨hok.framesPerColumn, hok.logicalColumns, hok.spans⟩,
      ⟨hlimits.spans, hlimits.logicalColumns⟩, ⟨hok.flags, hok.state.1, hok.state.2, hok.reserved⟩,
      ⟨hok.finalKnown, hok.unfinished⟩, _, ⟨?_, rfl⟩,
      ⟨hok.directoryAfter, hok.dataAfter, hok.directoryFits⟩, rfl⟩
    show _ * 32 ≤ 18446744073709551615
    omega

theorem requiredColumns_le (framesPerColumn frames : ℕ) :
    requiredColumns framesPerColumn frames ≤ frames := by
  have hdiv := Nat.div_add_mod frames framesPerColumn
  by_cases hrem : frames % framesPerColumn = 0
  · rw [requiredColumns, if_pos hrem]
    exact Nat.div_le_self _ _
  · rw [requiredColumns, if_neg hrem]
    rcases Nat.eq_zero_or_pos framesPerColumn with hzero | hpos
    · rw [hzero, Nat.mod_zero] at hrem
      rw [hzero, Nat.div_zero]
      omega
    · have hle : frames / framesPerColumn ≤ framesPerColumn * (frames / framesPerColumn) :=
        Nat.le_mul_of_pos_left _ hpos
      omega

theorem validateColumnCount_eq_ok {u : Unit} (htotal : container.totalSourceFrames ≤ uint64Max) :
    validateColumnCount container header = .ok u ↔ ColumnCountOk container header := by
  by_cases h : container.totalSourceFrames = totalFramesUnknown
  · simp [validateColumnCount, ColumnCountOk, h]
  · have hrequired := requiredColumns_le header.framesPerColumn
      (container.totalSourceFrames - header.originFrame)
    rw [validateColumnCount, if_neg h]
    simp only [Check.bind_eq_ok, Check.rejectIf_eq_ok, Check.within_eq_ok, exists_and_left,
      exists_const, not_lt, ne_eq, not_not]
    constructor
    · rintro ⟨horigin, _, ⟨-, rfl⟩, heq⟩ -
      exact ⟨horigin, heq⟩
    · intro hok
      obtain ⟨horigin, heq⟩ := hok h
      exact ⟨horigin, _, ⟨hrequired.trans ((Nat.sub_le _ _).trans htotal), rfl⟩, heq⟩

theorem validateSpanFrames_eq_ok {index : ℕ} {span : SpanEntry} {state : GeometryState} {u : Unit}
    (hlogical : header.logicalColumnCount ≤ uint32Max) :
    validateSpanFrames options container header index span state = .ok u ↔
      SpanFramesOk options.strict container header span ∧
        (index ≠ 0 → state.previousEndFrame ≤ span.firstFrame ∧
          state.previousEndColumn ≤ span.firstColumn) := by
  have hfirst_le : span.firstColumn * header.framesPerColumn ≤
      span.endColumn * header.framesPerColumn := Nat.mul_le_mul_right _ (Nat.le_add_right _ _)
  simp only [validateSpanFrames, Check.bind_eq_ok, Check.rejectIf_eq_ok, Check.within_eq_ok,
    exists_and_left, exists_const, not_or, not_and, not_lt, not_le, ne_eq, not_not]
  constructor
  · rintro ⟨⟨hframes, hcolumns, hreserved⟩, _, ⟨-, rfl⟩, ⟨hend, horder⟩, _, ⟨-, rfl⟩, _, ⟨-, rfl⟩,
      -, _, ⟨-, rfl⟩, _, ⟨hnoWrap, rfl⟩, hfirst, hlast, htotal⟩
    refine ⟨⟨hframes, hcolumns, hreserved, hend, hnoWrap, hfirst, ?_, htotal⟩, horder⟩
    by_cases heq : span.endFrame =
        header.originFrame + span.endColumn * header.framesPerColumn
    · exact .inl heq
    · exact .inr (hlast heq)
  · rintro ⟨hok, horder⟩
    have hnoWrap := hok.noWrap
    have hend : span.endColumn ≤ uint64Max :=
      (hok.logical.trans hlogical).trans (by decide)
    refine ⟨⟨hok.frames, hok.columns, hok.reserved⟩, _, ⟨hend, rfl⟩, ⟨hok.logical, horder⟩, _,
      ⟨by omega, rfl⟩, _, ⟨by omega, rfl⟩, ⟨by omega, by omega⟩, _, ⟨by omega, rfl⟩, _,
      ⟨hnoWrap, rfl⟩, hok.first, ?_, hok.total⟩
    intro hne
    exact hok.last.resolve_left hne

/-- The packed columns lie after the header. -/
private theorem data_onHeader {start : ℕ} (size : ℕ) (h : wovrHeaderSize ≤ start) :
    ¬ Overlap start size 0 wovrHeaderSize := by
  rintro ⟨-, -, hlt, -⟩
  rw [Nat.zero_add] at hlt
  exact absurd hlt (not_lt.mpr h)

/-- The sum of a table start and an offset, as the machine computes it, passes the test for
wrapping exactly when it does not wrap. -/
private theorem le_wrapped_iff {a b : ℕ} (ha : a ≤ uint64Max) (hb : b ≤ uint64Max) :
    a ≤ (a + b) % 2 ^ 64 ↔ a + b ≤ uint64Max := by
  have hmax : uint64Max = 18446744073709551615 := rfl
  omega

theorem validateSpanData_eq_ok {span : SpanEntry} {u : Unit}
    (hok : WovrHeaderOk options.strict container payload header)
    (hlen : payload.length ≤ uint64Max) (hdata : header.columnDataOffset ≤ uint64Max)
    (hcount : span.columnCount ≤ uint32Max) (hoffset : span.dataColumnOffset ≤ uint32Max) :
    validateSpanData wrappingAdd options payload header span = .ok u ↔
      SpanDataOk options.strict payload header span := by
  have hoffset64 : span.dataColumnOffset * packedColumnSize ≤ uint64Max :=
    (Nat.mul_le_mul_right _ hoffset).trans (by decide)
  have hcount64 : span.columnCount * packedColumnSize ≤ uint64Max :=
    (Nat.mul_le_mul_right _ hcount).trans (by decide)
  have hdirectory := hok.directoryFits.trans hlen
  rw [validateSpanData, Check.within_of_le hoffset64, Check.within_of_le hcount64]
  simp only [wrappingAdd, Check.ok_bind]
  -- Once the wrapping test has passed, the sum is the one the specification speaks of.
  have hcore : span.dataFirst header ≤ uint64Max → (span.dataFirst header +
      span.columnCount * packedColumnSize ≤ payload.length) → ∀ u : Unit,
      (do
        let onHeader ← rangesOverlap (span.dataFirst header)
          (span.columnCount * packedColumnSize) 0 wovrHeaderSize
        Check.rejectIf (onHeader = true) .corruptData
        let onDirectory ← rangesOverlap (span.dataFirst header)
          (span.columnCount * packedColumnSize) header.spanDirectoryOffset
          (header.spanCount * wovrSpanSize)
        Check.rejectIf (onDirectory = true) .corruptData
        validateColumns options.strict payload (span.dataFirst header) span.columnCount) = .ok u ↔
      SpanDataOk options.strict payload header span := by
    intro _ hfits u
    rw [rangesOverlap_eq (hfits.trans hlen) (by decide), rangesOverlap_eq (hfits.trans hlen)
      hdirectory]
    simp only [Check.ok_bind, Check.bind_eq_ok, Check.rejectIf_eq_ok, decide_eq_true_eq,
      exists_and_left, exists_const, validateColumns_eq_ok hfits]
    constructor
    · rintro ⟨-, hdir, hcolumns⟩
      exact ⟨hfits, hdir, hcolumns⟩
    · intro h
      refine ⟨data_onHeader _ ?_, h.offDirectory, h.columns⟩
      exact hok.dataAfter.trans (Nat.le_add_right _ _)
  by_cases hsum : span.dataFirst header ≤ uint64Max
  · have hmod : (header.columnDataOffset + span.dataColumnOffset * packedColumnSize) % 2 ^ 64 =
        span.dataFirst header := Nat.mod_eq_of_lt (Nat.lt_succ_of_le hsum)
    rw [hmod, Check.bind_eq_ok]
    constructor
    · rintro ⟨_, hrej, hrest⟩
      rw [Check.rejectIf_eq_ok, not_or, Bool.not_eq_false, rangeFits_iff] at hrej
      exact (hcore hsum hrej.2 _).mp hrest
    · intro h
      refine ⟨(), ?_, (hcore hsum h.fits _).mpr h⟩
      rw [Check.rejectIf_eq_ok, not_or, Bool.not_eq_false, rangeFits_iff, not_lt]
      exact ⟨Nat.le_add_right _ _, h.fits⟩
  · constructor
    · intro h
      obtain ⟨_, hrej, -⟩ := Check.bind_eq_ok.mp h
      rw [Check.rejectIf_eq_ok, not_or, not_lt, le_wrapped_iff hdata hoffset64] at hrej
      exact absurd hrej.1 hsum
    · intro h
      exact absurd ((Nat.le_add_right _ _).trans (h.fits.trans hlen)) hsum

/-! ### The walk over the spans -/

/-- The state after a list of spans. -/
def advanceSpans (state : GeometryState) (spans : List SpanEntry) : GeometryState :=
  spans.foldl (fun state span =>
    ⟨state.packedColumns + span.columnCount, span.endFrame, span.endColumn⟩) state

/-- The fields of a span that was read from a record are 32-bit numbers. -/
structure SpanEntry.Narrow (span : SpanEntry) : Prop where
  firstColumn : span.firstColumn ≤ uint32Max
  columnCount : span.columnCount ≤ uint32Max
  dataColumnOffset : span.dataColumnOffset ≤ uint32Max

theorem narrow_of_mem_spanTable {span : SpanEntry} (h : span ∈ spanTable payload header) :
    span.Narrow := by
  obtain ⟨record, -, rfl⟩ := List.mem_map.mp h
  have hfirst : field 4 record 16 < 256 ^ 4 := field_lt
  have hcount : field 4 record 20 < 256 ^ 4 := field_lt
  have hoffset : field 4 record 24 < 256 ^ 4 := field_lt
  exact ⟨Nat.le_of_lt_succ hfirst, Nat.le_of_lt_succ hcount, Nat.le_of_lt_succ hoffset⟩

/-- What one step of the span walk accepts. -/
theorem validateSpan_eq_ok {index : ℕ} {span : SpanEntry} {state state' : GeometryState}
    (hok : WovrHeaderOk options.strict container payload header)
    (hlogical : header.logicalColumnCount ≤ uint32Max)
    (hlen : payload.length ≤ uint64Max) (hdata : header.columnDataOffset ≤ uint64Max)
    (hnarrow : span.Narrow) :
    validateSpan wrappingAdd options container payload header index span state = .ok state' ↔
      SpanFramesOk options.strict container header span ∧
        SpanDataOk options.strict payload header span ∧
        (index ≠ 0 → state.previousEndFrame ≤ span.firstFrame ∧
          state.previousEndColumn ≤ span.firstColumn) ∧
        state.packedColumns + span.columnCount ≤ uint32Max ∧
        state.packedColumns + span.columnCount ≤ options.maximumWaveformColumns ∧
        state' = advanceSpans state [span] := by
  have hnarrow' := hnarrow.columnCount
  simp only [validateSpan, Check.bind_eq_ok, Check.rejectIf_eq_ok, Check.within_eq_ok,
    Check.pure_eq_ok, Except.ok.injEq, exists_and_left, exists_const, not_lt,
    validateSpanFrames_eq_ok hlogical,
    validateSpanData_eq_ok hok hlen hdata hnarrow.columnCount hnarrow.dataColumnOffset]
  constructor
  · rintro ⟨⟨hframes, horder⟩, hdata, hroom, _, ⟨-, rfl⟩, hmax, rfl⟩
    exact ⟨hframes, hdata, horder, by omega, hmax, rfl⟩
  · rintro ⟨hframes, hdata, horder, hroom, hmax, rfl⟩
    exact ⟨⟨hframes, horder⟩, hdata, by omega, _, ⟨hroom.trans (by decide), rfl⟩, hmax, rfl⟩

theorem validateSpans_eq_ok (hok : WovrHeaderOk options.strict container payload header)
    (hlogical : header.logicalColumnCount ≤ uint32Max)
    (hlen : payload.length ≤ uint64Max) (hdata : header.columnDataOffset ≤ uint64Max)
    (spans : List SpanEntry) (hnarrow : ∀ span ∈ spans, span.Narrow) {index : ℕ}
    {state state' : GeometryState}
    (hroom : state.packedColumns ≤ uint32Max ∧
      state.packedColumns ≤ options.maximumWaveformColumns) :
    Check.walk (validateSpan wrappingAdd options container payload header) index spans state =
        .ok state' ↔
      (∀ span ∈ spans, SpanFramesOk options.strict container header span) ∧
        (∀ span ∈ spans, SpanDataOk options.strict payload header span) ∧
        (index ≠ 0 → ∀ span ∈ spans.head?, state.previousEndFrame ≤ span.firstFrame ∧
          state.previousEndColumn ≤ span.firstColumn) ∧
        spans.IsChain SpanEntry.Follows ∧
        state.packedColumns + packedColumns spans ≤ uint32Max ∧
        state.packedColumns + packedColumns spans ≤ options.maximumWaveformColumns ∧
        state' = advanceSpans state spans := by
  induction spans generalizing index state with
  | nil => simp [packedColumns, advanceSpans, hroom, eq_comm]
  | cons span rest ih =>
      have hsum : packedColumns (span :: rest) = span.columnCount + packedColumns rest := by
        simp [packedColumns]
      have hspan := hnarrow span List.mem_cons_self
      have hrestNarrow : ∀ other ∈ rest, other.Narrow := fun other hother =>
        hnarrow other (List.mem_cons_of_mem _ hother)
      rw [Check.walk_cons_eq_ok, hsum, List.head?_cons]
      constructor
      · rintro ⟨next, hnext, hwalk⟩
        obtain ⟨hframes, hspanData, horder, hmax32, hmax, rfl⟩ :=
          (validateSpan_eq_ok hok hlogical hlen hdata hspan).mp hnext
        obtain ⟨hallFrames, hallData, hhead, hchain, hsum32, hsumMax, rfl⟩ :=
          (ih hrestNarrow ⟨hmax32, hmax⟩).mp hwalk
        refine ⟨List.forall_mem_cons.mpr ⟨hframes, hallFrames⟩,
          List.forall_mem_cons.mpr ⟨hspanData, hallData⟩, ?_, ?_, ?_, ?_, rfl⟩
        · intro hindex other hother
          cases hother
          exact horder hindex
        · exact List.isChain_cons.mpr ⟨hhead (Nat.succ_ne_zero _), hchain⟩
        · rw [← Nat.add_assoc]
          exact hsum32
        · rw [← Nat.add_assoc]
          exact hsumMax
      · rintro ⟨hframes, hspanData, hhead, hchain, hsum32, hsumMax, rfl⟩
        obtain ⟨hframes, hallFrames⟩ := List.forall_mem_cons.mp hframes
        obtain ⟨hspanData, hallData⟩ := List.forall_mem_cons.mp hspanData
        obtain ⟨hfollows, hchain⟩ := List.isChain_cons.mp hchain
        rw [← Nat.add_assoc] at hsum32 hsumMax
        have hmax32 := (Nat.le_add_right _ _).trans hsum32
        have hmax := (Nat.le_add_right _ _).trans hsumMax
        refine ⟨advanceSpans state [span], (validateSpan_eq_ok hok hlogical hlen hdata hspan).mpr
          ⟨hframes, hspanData, fun hindex => hhead hindex span rfl, hmax32, hmax, rfl⟩, ?_⟩
        exact (ih hrestNarrow ⟨hmax32, hmax⟩).mpr ⟨hallFrames, hallData, fun _ => hfollows, hchain,
          hsum32, hsumMax, rfl⟩

theorem advanceSpans_packedColumns (state : GeometryState) (spans : List SpanEntry) :
    (advanceSpans state spans).packedColumns = state.packedColumns + packedColumns spans := by
  induction spans generalizing state with
  | nil => rfl
  | cons span rest ih =>
      show (advanceSpans _ rest).packedColumns = _
      rw [ih]
      simp [packedColumns, Nat.add_assoc]

theorem advanceSpans_previousEndColumn {state : GeometryState} {spans : List SpanEntry}
    {span : SpanEntry} (h : spans.getLast? = some span) :
    (advanceSpans state spans).previousEndColumn = span.endColumn := by
  obtain ⟨front, rfl⟩ := List.getLast?_eq_some_iff.mp h
  rw [advanceSpans, List.foldl_append]
  rfl

theorem length_spanTable (payload : Bytes) (header : WovrHeader) :
    (spanTable payload header).length = header.spanCount := by
  rw [spanTable, List.length_map, length_records]

/-- The first column of the first span. -/
theorem firstColumn_of_head {span : SpanEntry} (h : (spanTable payload header).head? = some span) :
    field 4 payload (header.spanDirectoryOffset + 16) = span.firstColumn := by
  rw [spanTable, List.head?_map] at h
  obtain ⟨record, hrecord, rfl⟩ := Option.map_eq_some_iff.mp h
  have hcount : header.spanCount ≠ 0 := by
    intro hzero
    rw [hzero, records_zero] at hrecord
    cases hrecord
  obtain ⟨count, hsucc⟩ := Nat.exists_eq_succ_of_ne_zero hcount
  rw [hsucc, records_succ, List.head?_cons] at hrecord
  cases hrecord
  exact (field_slice (by decide)).symm

theorem validateFinalColumns_eq_ok {spans : List SpanEntry} {u : Unit}
    (hok : WovrHeaderOk options.strict container payload header)
    (hspans : spans = spanTable payload header) :
    validateFinalColumns payload header (advanceSpans ⟨0, 0, 0⟩ spans) = .ok u ↔
      (header.state = stateFinal → ∀ span ∈ spans.head?, span.firstColumn = 0) ∧
        (header.state = stateFinal →
          ∀ span ∈ spans.getLast?, span.endColumn = header.logicalColumnCount) := by
  have hne : spans ≠ [] := by
    intro hnil
    have hlen := length_spanTable payload header
    rw [← hspans, hnil, List.length_nil] at hlen
    exact hok.spans hlen.symm
  obtain ⟨first, hfirst⟩ := Option.ne_none_iff_exists'.mp
    (fun hnone => hne (List.head?_eq_none_iff.mp hnone))
  obtain ⟨last, hlast⟩ := Option.ne_none_iff_exists'.mp
    (fun hnone => hne (List.getLast?_eq_none_iff.mp hnone))
  have hread : header.spanDirectoryOffset + 16 + 4 ≤ payload.length := by
    have hfits := hok.directoryFits
    have hspan : 1 * 32 ≤ header.spanCount * wovrSpanSize :=
      Nat.mul_le_mul_right _ (Nat.pos_of_ne_zero hok.spans)
    omega
  have hcolumn := firstColumn_of_head (hspans ▸ hfirst)
  rw [validateFinalColumns, Check.read_of_le hread, Check.ok_bind, Check.rejectIf_eq_ok, hcolumn,
    advanceSpans_previousEndColumn hlast, hfirst, hlast]
  simp only [not_and, not_or, ne_eq, not_not, Option.mem_def, Option.some.injEq, forall_eq']
  constructor
  · intro h
    exact ⟨fun hfinal => (h hfinal).2, fun hfinal => (h hfinal).1⟩
  · rintro ⟨hzero, hend⟩ hfinal
    exact ⟨hend hfinal, hzero hfinal⟩

end Spans

/-- What the geometry check accepts. -/
theorem validateWovrGeometry_eq_ok {options : EffectiveOptions} {input : WovrInput} {packed : ℕ}
    (htotal : input.header.totalSourceFrames ≤ uint64Max)
    (hlen : input.payload.length ≤ uint64Max) :
    validateWovrGeometry options input = .ok packed ↔
      ∃ header spans, GeometryOk options.strict input header spans ∧ WovrLimits options header ∧
        packedColumns spans ≤ options.maximumWaveformColumns ∧ packed = packedColumns spans := by
  have hlogical : (wovrHeaderOf input.payload).logicalColumnCount < 256 ^ 4 := field_lt
  have hdata : (wovrHeaderOf input.payload).columnDataOffset < 256 ^ 8 := field_lt
  have hnarrow : ∀ span ∈ spanTable input.payload (wovrHeaderOf input.payload), span.Narrow :=
    fun _ h => narrow_of_mem_spanTable h
  have hlogical' := Nat.le_of_lt_succ hlogical
  have hdata' := Nat.le_of_lt_succ hdata
  have hempty : (0 : ℕ) ≤ uint32Max ∧ 0 ≤ options.maximumWaveformColumns :=
    ⟨Nat.zero_le _, Nat.zero_le _⟩
  simp only [validateWovrGeometry, validateWovrGeometryWith, Check.bind_eq_ok,
    validateWovrHeader_eq_ok, validateColumnCount_eq_ok htotal, Check.pure_eq_ok, Except.ok.injEq]
  constructor
  · rintro ⟨header, ⟨rfl, hok, hlimits⟩, _, hcolumns, state, hwalk, _, hfinal, rfl⟩
    rw [forSpans_eq _ hok.directoryFits,
      validateSpans_eq_ok hok hlogical' hlen hdata' _ hnarrow hempty] at hwalk
    obtain ⟨hframes, hspanData, -, hchain, h32, hmax, rfl⟩ := hwalk
    obtain ⟨hzero, hend⟩ := (validateFinalColumns_eq_ok hok rfl).mp hfinal
    rw [Nat.zero_add] at h32 hmax
    refine ⟨_, _, ⟨rfl, rfl, hok, hcolumns, hframes, hspanData, hchain, h32, hzero, hend⟩, hlimits,
      hmax, ?_⟩
    rw [advanceSpans_packedColumns, Nat.zero_add]
  · rintro ⟨header, spans, hg, hlimits, hmax, rfl⟩
    have hheader := hg.header_eq
    have hspans := hg.spans_eq
    subst hheader hspans
    have hok := hg.headerOk
    have h32 := hg.packed
    refine ⟨_, ⟨rfl, hok, hlimits⟩, (), hg.columnCount, advanceSpans ⟨0, 0, 0⟩ _, ?_, (),
      (validateFinalColumns_eq_ok hok rfl).mpr ⟨hg.finalFirst, hg.finalLast⟩, ?_⟩
    · rw [forSpans_eq _ hok.directoryFits,
        validateSpans_eq_ok hok hlogical' hlen hdata' _ hnarrow hempty]
      refine ⟨hg.frames, hg.data, fun h => absurd rfl h, hg.ordered, ?_, ?_, rfl⟩
      · rw [Nat.zero_add]
        exact h32
      · rw [Nat.zero_add]
        exact hmax
    · rw [advanceSpans_packedColumns, Nat.zero_add]

/-! ## Absence of faults -/

section Safety

variable {options : EffectiveOptions} {container : Header} {payload : Bytes} {header : WovrHeader}

theorem validateWovrHeader_safe (container : Header) (payload : Bytes) :
    Check.Safe (validateWovrHeader options container payload) := by
  by_cases hsize : payload.length < wovrHeaderSize
  · rw [validateWovrHeader, Check.safe_bind_iff]
    exact ⟨Check.safe_rejectIf _ _, fun _ hrej => absurd hsize (Check.rejectIf_eq_ok.mp hrej)⟩
  have hcount : (wovrHeaderOf payload).spanCount < 4294967296 := field_lt
  simp only [validateWovrHeader, Check.safe_bind_iff, Check.safe_rejectIf, Check.safe_within,
    readWovrHeader_eq (not_lt.mp hsize), Check.safe_ok, Except.ok.injEq, Check.pure_eq_ok,
    true_and, and_true, implies_true, forall_eq']
  intro _ _ _ _ _ _ _ _ _ _
  show _ * 32 ≤ 18446744073709551615
  omega

theorem validateColumnCount_safe (htotal : container.totalSourceFrames ≤ uint64Max) :
    Check.Safe (validateColumnCount container header) := by
  have hrequired := requiredColumns_le header.framesPerColumn
    (container.totalSourceFrames - header.originFrame)
  unfold validateColumnCount
  split
  · exact Check.safe_ok _
  · simp only [Check.safe_bind_iff, Check.safe_rejectIf, Check.safe_within, true_and,
      implies_true, and_true]
    intro _ _
    exact hrequired.trans ((Nat.sub_le _ _).trans htotal)

theorem validateSpanFrames_safe {index : ℕ} {span : SpanEntry} {state : GeometryState}
    (hlogical : header.logicalColumnCount ≤ uint32Max)
    (hframes : header.framesPerColumn ≤ uint32Max) (hnarrow : span.Narrow) :
    Check.Safe (validateSpanFrames options container header index span state) := by
  have hfirst : span.firstColumn * header.framesPerColumn ≤ uint64Max :=
    (Nat.mul_le_mul hnarrow.firstColumn hframes).trans (by decide)
  have hend : span.endColumn ≤ uint64Max :=
    (Nat.add_le_add hnarrow.firstColumn hnarrow.columnCount).trans (by decide)
  simp only [validateSpanFrames, Check.safe_bind_iff, Check.safe_rejectIf, Check.rejectIf_eq_ok,
    Check.safe_within, Check.within_eq_ok, true_and, and_imp, and_true, implies_true,
    not_or, not_lt, forall_const]
  intro _ _ _
  refine ⟨hend, ?_⟩
  rintro _ - rfl hle _
  have hoffset : span.endColumn * header.framesPerColumn ≤ uint64Max :=
    (Nat.mul_le_mul (hle.trans hlogical) hframes).trans (by decide)
  refine ⟨hfirst, ?_⟩
  rintro _ - rfl
  refine ⟨hoffset, ?_⟩
  rintro _ - rfl hroom hroom'
  refine ⟨by omega, ?_⟩
  rintro _ - -
  omega

theorem validateSpanData_safe {span : SpanEntry}
    (hok : WovrHeaderOk options.strict container payload header)
    (hlen : payload.length ≤ uint64Max) (hnarrow : span.Narrow) :
    Check.Safe (validateSpanData wrappingAdd options payload header span) := by
  have hoffset64 : span.dataColumnOffset * packedColumnSize ≤ uint64Max :=
    (Nat.mul_le_mul_right _ hnarrow.dataColumnOffset).trans (by decide)
  have hcount64 : span.columnCount * packedColumnSize ≤ uint64Max :=
    (Nat.mul_le_mul_right _ hnarrow.columnCount).trans (by decide)
  rw [validateSpanData, Check.within_of_le hoffset64, Check.within_of_le hcount64]
  simp only [wrappingAdd, Check.ok_bind]
  generalize (header.columnDataOffset + span.dataColumnOffset * packedColumnSize) % 2 ^ 64 = start
  rw [Check.safe_bind_iff]
  refine ⟨Check.safe_rejectIf _ _, fun _ hrej => ?_⟩
  rw [Check.rejectIf_eq_ok, not_or, Bool.not_eq_false, rangeFits_iff] at hrej
  have hfits := hrej.2
  rw [rangesOverlap_eq (hfits.trans hlen) (by decide),
    rangesOverlap_eq (hfits.trans hlen) (hok.directoryFits.trans hlen)]
  simp only [Check.ok_bind, Check.safe_bind_iff, Check.safe_rejectIf,
    validateColumns_safe hfits, true_and, implies_true]

theorem validateSpan_safe {index : ℕ} {span : SpanEntry} {state : GeometryState}
    (hok : WovrHeaderOk options.strict container payload header)
    (hlogical : header.logicalColumnCount ≤ uint32Max)
    (hframes : header.framesPerColumn ≤ uint32Max) (hlen : payload.length ≤ uint64Max)
    (hnarrow : span.Narrow) :
    Check.Safe (validateSpan wrappingAdd options container payload header index span state) := by
  have hcount := hnarrow.columnCount
  simp only [validateSpan, Check.safe_bind_iff, Check.safe_rejectIf, Check.safe_within,
    validateSpanFrames_safe hlogical hframes hnarrow,
    validateSpanData_safe hok hlen hnarrow, Check.rejectIf_eq_ok, Check.pure_eq_ok, Check.safe_ok,
    true_and, and_true, implies_true, not_lt]
  intro _ _ _ _ _ hroom
  have hle : state.packedColumns + span.columnCount ≤ uint32Max := by omega
  exact hle.trans (by decide)

theorem validateFinalColumns_safe {state : GeometryState}
    (hok : WovrHeaderOk options.strict container payload header) :
    Check.Safe (validateFinalColumns payload header state) := by
  have hfits := hok.directoryFits
  have hspan : 1 * 32 ≤ header.spanCount * wovrSpanSize :=
    Nat.mul_le_mul_right _ (Nat.pos_of_ne_zero hok.spans)
  simp only [validateFinalColumns, Check.safe_bind_iff, Check.safe_read, Check.safe_rejectIf,
    implies_true, and_true]
  omega

end Safety

theorem validateWovrGeometry_safe {options : EffectiveOptions} {input : WovrInput}
    (htotal : input.header.totalSourceFrames ≤ uint64Max)
    (hlen : input.payload.length ≤ uint64Max) :
    Check.Safe (validateWovrGeometry options input) := by
  have hlogical : (wovrHeaderOf input.payload).logicalColumnCount < 256 ^ 4 := field_lt
  have hframes : (wovrHeaderOf input.payload).framesPerColumn < 256 ^ 4 := field_lt
  rw [validateWovrGeometry, validateWovrGeometryWith, Check.safe_bind_iff]
  refine ⟨validateWovrHeader_safe _ _, fun header hheader => ?_⟩
  obtain ⟨rfl, hok, -⟩ := validateWovrHeader_eq_ok.mp hheader
  rw [Check.safe_bind_iff]
  refine ⟨validateColumnCount_safe htotal, fun _ _ => ?_⟩
  rw [forSpans_eq _ hok.directoryFits, Check.safe_bind_iff]
  constructor
  · apply Check.safe_walk (P := fun _ _ => True) _ _ _ trivial
    intro _ _ span hspan _
    refine ⟨?_, fun _ _ => trivial⟩
    exact validateSpan_safe hok (Nat.le_of_lt_succ hlogical) (Nat.le_of_lt_succ hframes) hlen
      (narrow_of_mem_spanTable hspan)
  · intro _ _
    exact Check.safe_bind (validateFinalColumns_safe hok) fun _ _ => Check.safe_ok _

/-! ## The sum that may wrap

With the sum computed exactly, every fault is answered by the code of a corrupt container. -/

section Wrapping

variable {options : EffectiveOptions} {container : Header} {payload : Bytes} {header : WovrHeader}

theorem validateSpanData_onFault {span : SpanEntry}
    (hok : WovrHeaderOk options.strict container payload header)
    (hlen : payload.length ≤ uint64Max) (hdata : header.columnDataOffset ≤ uint64Max)
    (hnarrow : span.Narrow) :
    (validateSpanData exactAdd options payload header span).onFault .corruptData =
      validateSpanData wrappingAdd options payload header span := by
  have hoffset64 : span.dataColumnOffset * packedColumnSize ≤ uint64Max :=
    (Nat.mul_le_mul_right _ hnarrow.dataColumnOffset).trans (by decide)
  have hcount64 : span.columnCount * packedColumnSize ≤ uint64Max :=
    (Nat.mul_le_mul_right _ hnarrow.columnCount).trans (by decide)
  have hsafe := validateSpanData_safe hok hlen hnarrow
  rw [validateSpanData, Check.within_of_le hoffset64, Check.within_of_le hcount64] at hsafe ⊢
  rw [validateSpanData, Check.within_of_le hoffset64, Check.within_of_le hcount64]
  by_cases hsum : header.columnDataOffset + span.dataColumnOffset * packedColumnSize ≤ uint64Max
  · have hlt : header.columnDataOffset + span.dataColumnOffset * packedColumnSize < 2 ^ 64 :=
      Nat.lt_succ_of_le hsum
    simp only [exactAdd, wrappingAdd, Check.ok_bind, Check.within_of_le hsum,
      Nat.mod_eq_of_lt hlt] at hsafe ⊢
    exact Check.onFault_of_safe hsafe _
  · -- The wrapped sum is smaller than its first term, and the test after it rejects.
    have hwrapped : (header.columnDataOffset + span.dataColumnOffset * packedColumnSize) % 2 ^ 64 <
        header.columnDataOffset := by
      have hmax : uint64Max = 2 ^ 64 - 1 := rfl
      have hsmall : header.columnDataOffset + span.dataColumnOffset * packedColumnSize <
          2 * 2 ^ 64 := by omega
      omega
    have hexact : (exactAdd header.columnDataOffset (span.dataColumnOffset * packedColumnSize) :
        Check ErrorCode ℕ) = Check.fault := if_neg hsum
    simp only [hexact, wrappingAdd, Check.ok_bind, Check.rejectIf, if_pos (Or.inl hwrapped)]
    rfl

theorem validateSpan_onFault {index : ℕ} {span : SpanEntry} {state : GeometryState}
    (hok : WovrHeaderOk options.strict container payload header)
    (hlogical : header.logicalColumnCount ≤ uint32Max)
    (hframes : header.framesPerColumn ≤ uint32Max) (hlen : payload.length ≤ uint64Max)
    (hdata : header.columnDataOffset ≤ uint64Max) (hnarrow : span.Narrow) :
    (validateSpan exactAdd options container payload header index span state).onFault
        .corruptData =
      validateSpan wrappingAdd options container payload header index span state := by
  have hcount := hnarrow.columnCount
  rw [validateSpan, validateSpan, Check.onFault_bind,
    Check.onFault_of_safe (validateSpanFrames_safe hlogical hframes hnarrow)]
  congr 1
  funext _
  rw [Check.onFault_bind, validateSpanData_onFault hok hlen hdata hnarrow]
  congr 1
  funext _
  refine Check.onFault_of_safe ?_ _
  simp only [Check.safe_bind_iff, Check.safe_rejectIf, Check.safe_within, Check.rejectIf_eq_ok,
    Check.pure_eq_ok, Check.safe_ok, true_and, and_true, implies_true, not_lt]
  intro _ hroom
  have hle : state.packedColumns + span.columnCount ≤ uint32Max := by omega
  exact hle.trans (by decide)

/-- The geometry check answers a sum that wraps by the code of a corrupt container. -/
theorem validateWovrGeometry_onFault {input : WovrInput}
    (htotal : input.header.totalSourceFrames ≤ uint64Max)
    (hlen : input.payload.length ≤ uint64Max) :
    (validateWovrGeometryWith exactAdd options input).onFault .corruptData =
      validateWovrGeometry options input := by
  have hlogical : (wovrHeaderOf input.payload).logicalColumnCount < 256 ^ 4 := field_lt
  have hframes : (wovrHeaderOf input.payload).framesPerColumn < 256 ^ 4 := field_lt
  have hdata : (wovrHeaderOf input.payload).columnDataOffset < 256 ^ 8 := field_lt
  rw [validateWovrGeometry, validateWovrGeometryWith, validateWovrGeometryWith, Check.onFault_bind,
    Check.onFault_of_safe (validateWovrHeader_safe _ _)]
  refine Check.bind_congr_ok fun header hheader => ?_
  obtain ⟨rfl, hok, -⟩ := validateWovrHeader_eq_ok.mp hheader
  rw [Check.onFault_bind, Check.onFault_of_safe (validateColumnCount_safe htotal)]
  congr 1
  funext _
  rw [Check.onFault_bind, forSpans_eq _ hok.directoryFits, forSpans_eq _ hok.directoryFits,
    Check.walk_onFault]
  rw [Check.walk_congr fun index span hspan state => validateSpan_onFault hok
    (Nat.le_of_lt_succ hlogical) (Nat.le_of_lt_succ hframes) hlen (Nat.le_of_lt_succ hdata)
    (narrow_of_mem_spanTable hspan)]
  congr 1
  funext _
  exact Check.onFault_of_safe (Check.safe_bind (validateFinalColumns_safe hok)
    fun _ _ => Check.safe_ok _) _

end Wrapping

/-! ## Copy into a result -/

/-- The span an entry describes. -/
def spanOf (payload : Bytes) (header : WovrHeader) (entry : SpanEntry) : Span where
  sourceRange := ⟨entry.firstFrame, entry.endFrame⟩
  firstColumnIndex := entry.firstColumn
  columns := entry.columns payload header

/-- Copy one span and its columns behind those already copied. The columns of the span are the part
of the column array that was written for it. -/
def copySpan (spanCapacity columnCapacity : ℕ) (payload : Bytes) (header : WovrHeader) (_index : ℕ)
    (entry : SpanEntry) (written : List Span × List Column) :
    Check ErrorCode (List Span × List Column) := do
  let dataOffset ← Check.within uint64Max (entry.dataColumnOffset * packedColumnSize)
  let dataFirst ← wrappingAdd header.columnDataOffset dataOffset
  let columns ← copyColumns columnCapacity payload dataFirst entry.columnCount written.2
  let spans ← Check.push spanCapacity written.1
    ⟨⟨entry.firstFrame, entry.endFrame⟩, entry.firstColumn,
      slice columns written.2.length entry.columnCount⟩
  return (spans, columns)

/-- Copy the spans and columns of an overview into arrays of the given element counts. -/
def copyOverview (spanCapacity columnCapacity : ℕ) (payload : Bytes) (header : WovrHeader) :
    Check ErrorCode (List Span × List Column) :=
  forSpans payload header (copySpan spanCapacity columnCapacity payload header) ([], [])

section Copy

variable {strict : Bool} {payload : Bytes} {header : WovrHeader}

theorem copySpan_eq {spanCapacity columnCapacity index : ℕ} {entry : SpanEntry}
    {written : List Span × List Column} (hlen : payload.length ≤ uint64Max)
    (hok : SpanDataOk strict payload header entry)
    (hspans : written.1.length < spanCapacity)
    (hcolumns : written.2.length + entry.columnCount ≤ columnCapacity) :
    copySpan spanCapacity columnCapacity payload header index entry written =
      .ok (written.1 ++ [spanOf payload header entry],
        written.2 ++ entry.columns payload header) := by
  have hfits := hok.fits
  have hfirst : entry.dataFirst header ≤ uint64Max :=
    (Nat.le_add_right _ _).trans (hfits.trans hlen)
  have hoffset : entry.dataColumnOffset * packedColumnSize ≤ uint64Max :=
    (Nat.le_add_left _ _).trans hfirst
  have hmod : (header.columnDataOffset + entry.dataColumnOffset * packedColumnSize) % 2 ^ 64 =
      entry.dataFirst header := Nat.mod_eq_of_lt (Nat.lt_succ_of_le hfirst)
  have hcount : (entry.columns payload header).length = entry.columnCount := by
    rw [SpanEntry.columns, columnTable, List.length_map, length_records]
  have hpart : slice (written.2 ++ entry.columns payload header) written.2.length
      entry.columnCount = entry.columns payload header := by
    have hmiddle := slice_append_middle written.2 (entry.columns payload header) []
    rwa [List.append_nil, hcount] at hmiddle
  rw [copySpan, Check.within_of_le hoffset, Check.ok_bind, wrappingAdd, hmod, Check.ok_bind,
    copyColumns_eq hfits hcolumns, Check.ok_bind, ← SpanEntry.columns, hpart,
    Check.push_of_lt hspans]
  rfl

theorem copySpans_eq {spanCapacity columnCapacity : ℕ} (hlen : payload.length ≤ uint64Max)
    (entries : List SpanEntry) (hok : ∀ entry ∈ entries, SpanDataOk strict payload header entry)
    {index : ℕ} {written : List Span × List Column}
    (hspans : written.1.length + entries.length ≤ spanCapacity)
    (hcolumns : written.2.length + packedColumns entries ≤ columnCapacity) :
    Check.walk (copySpan spanCapacity columnCapacity payload header) index entries written =
      .ok (written.1 ++ entries.map (spanOf payload header),
        written.2 ++ entries.flatMap fun entry => entry.columns payload header) := by
  induction entries generalizing index written with
  | nil => simp
  | cons entry rest ih =>
      have hsum : packedColumns (entry :: rest) = entry.columnCount + packedColumns rest := by
        simp [packedColumns]
      have hcount : (entry.columns payload header).length = entry.columnCount := by
        rw [SpanEntry.columns, columnTable, List.length_map, length_records]
      rw [List.length_cons] at hspans
      rw [hsum] at hcolumns
      rw [Check.walk_cons, copySpan_eq hlen (hok entry List.mem_cons_self) (by omega) (by omega),
        Check.ok_bind, ih fun other hother => hok other (List.mem_cons_of_mem _ hother)]
      · simp
      · rw [List.length_append, List.length_singleton]
        omega
      · rw [List.length_append, hcount]
        omega

/-- The copy of an overview whose geometry was accepted. -/
theorem copyOverview_eq {input : WovrInput} {spans : List SpanEntry} {spanCapacity : ℕ}
    (hlen : input.payload.length ≤ uint64Max) (hg : GeometryOk strict input header spans)
    (hcapacity : header.spanCount ≤ spanCapacity) :
    copyOverview spanCapacity (packedColumns spans) input.payload header =
      .ok (spans.map (spanOf input.payload header),
        spans.flatMap fun entry => entry.columns input.payload header) := by
  have hdata := hg.data
  rw [hg.spans_eq] at hdata ⊢
  rw [copyOverview, forSpans_eq _ hg.headerOk.directoryFits, copySpans_eq hlen _ hdata]
  · rfl
  · rw [List.length_nil, Nat.zero_add, length_spanTable]
    exact hcapacity
  · rw [List.length_nil, Nat.zero_add]

end Copy

/-! ## Coverage and packed intervals -/

/-- Take the payload of an entry unless one was found before. -/
def firstPayload (bytes : Bytes) (entry : Entry) (found : Option Bytes) :
    Check ErrorCode (Option Bytes) :=
  match found with
  | some payload => .ok (some payload)
  | none => do
      let payload ← Check.view bytes entry.offset entry.storedSize
      return some payload

/-- The overview payload the later pass finds. -/
def findWovrPayload (bytes : Bytes) : Check ErrorCode (Option Bytes) := do
  let sectionCount ← Check.read 4 bytes 20
  let directoryOffset ← Check.read 8 bytes 24
  forEntries bytes directoryOffset sectionCount (fun _ entry found =>
    if entry.tag = .overview then firstPayload bytes entry found else .ok found) none

/-- In a container that was accepted the later pass finds the same payload. -/
theorem findWovrPayload_eq {strict : Bool} {bytes : Bytes} {input : WovrInput}
    (h : ContainerOk strict bytes input) :
    findWovrPayload bytes = .ok (some input.payload) := by
  have hsize := h.size
  obtain ⟨entry, hsections, hpayload⟩ := List.map_eq_singleton_iff.mp h.overview_eq
  have hfits := (h.sectionEntry (hsections ▸ List.mem_singleton_self entry)).1.fits
  rw [findWovrPayload, Check.read_of_le (by omega), Check.ok_bind, Check.read_of_le (by omega),
    Check.ok_bind]
  refine (h.forSections_eq none).trans ?_
  rw [hsections, Check.walk_cons, firstPayload, Check.view_of_le hfits, ← hpayload]
  rfl

/-- The packed columns of a span as an interval of column positions. -/
def SpanEntry.interval (span : SpanEntry) : Interval ℕ :=
  ⟨span.dataColumnOffset, span.dataColumnOffset + span.columnCount⟩

/-- The state of the coverage walk. -/
structure HardeningState where
  intervals : List (Interval ℕ)
  previousEndFrame : ℕ
  previousEndColumn : ℕ

/-- Note the interval of a span; in a final overview the span continues the one before it. -/
def hardenSpan (capacity : ℕ) (header : WovrHeader) (_index : ℕ) (span : SpanEntry)
    (state : HardeningState) : Check ErrorCode HardeningState := do
  Check.rejectIf (header.state = stateFinal ∧ (span.firstFrame ≠ state.previousEndFrame ∨
    span.firstColumn ≠ state.previousEndColumn)) .corruptData
  let dataEnd ← Check.within uint64Max (span.dataColumnOffset + span.columnCount)
  let intervals ← Check.push capacity state.intervals ⟨span.dataColumnOffset, dataEnd⟩
  let endColumn ← Check.within uint64Max span.endColumn
  return ⟨intervals, span.endFrame, endColumn⟩

/-- Check the coverage of a final overview and that no two spans share packed columns. `capacity`
is the element count of the interval array. -/
def hardenIntervals (capacity : ℕ) (totalSourceFrames : ℕ) (payload : Bytes)
    (header : WovrHeader) : Check ErrorCode Unit := do
  let state ← forSpans payload header (hardenSpan capacity header) ⟨[], header.originFrame, 0⟩
  Check.rejectIf (header.state = stateFinal ∧
    (state.previousEndColumn ≠ header.logicalColumnCount ∨
      state.previousEndFrame ≠ totalSourceFrames)) .corruptData
  Check.rejectIf (Interval.collides (Interval.sorted state.intervals) = true) .corruptData

/-- Spans that follow each other without gap or overlap, from a frame and a column on. -/
def Contiguous : (frame column : ℕ) → List SpanEntry → Prop
  | _, _, [] => True
  | frame, column, span :: rest =>
      span.firstFrame = frame ∧ span.firstColumn = column ∧
        Contiguous span.endFrame span.endColumn rest

/-- What the later pass asks of an overview. -/
structure HardeningOk (totalSourceFrames : ℕ) (header : WovrHeader) (spans : List SpanEntry) :
    Prop where
  contiguous : header.state = stateFinal → Contiguous header.originFrame 0 spans
  last : header.state = stateFinal → ∀ span ∈ spans.getLast?,
    span.endColumn = header.logicalColumnCount ∧ span.endFrame = totalSourceFrames
  apart : (spans.map SpanEntry.interval).Pairwise Interval.Apart

section Hardening

variable {capacity : ℕ} {header : WovrHeader}

theorem hardenSpan_eq_ok {index : ℕ} {span : SpanEntry} {state state' : HardeningState}
    (hnarrow : span.Narrow) (hroom : state.intervals.length < capacity) :
    hardenSpan capacity header index span state = .ok state' ↔
      (header.state = stateFinal → span.firstFrame = state.previousEndFrame ∧
        span.firstColumn = state.previousEndColumn) ∧
        state' = ⟨state.intervals ++ [span.interval], span.endFrame, span.endColumn⟩ := by
  have hend : span.dataColumnOffset + span.columnCount ≤ uint64Max :=
    (Nat.add_le_add hnarrow.dataColumnOffset hnarrow.columnCount).trans (by decide)
  have hcolumn : span.endColumn ≤ uint64Max :=
    (Nat.add_le_add hnarrow.firstColumn hnarrow.columnCount).trans (by decide)
  simp only [hardenSpan, Check.bind_eq_ok, Check.rejectIf_eq_ok, Check.within_of_le hend,
    Check.within_of_le hcolumn, Check.push_of_lt hroom, Except.ok.injEq, Check.pure_eq_ok,
    exists_and_left, exists_const, exists_eq_left', not_and, not_or, ne_eq, not_not]
  exact and_congr_right fun _ => eq_comm

theorem hardenSpan_safe {index : ℕ} {span : SpanEntry} {state : HardeningState}
    (hnarrow : span.Narrow) (hroom : state.intervals.length < capacity) :
    Check.Safe (hardenSpan capacity header index span state) := by
  have hend : span.dataColumnOffset + span.columnCount ≤ uint64Max :=
    (Nat.add_le_add hnarrow.dataColumnOffset hnarrow.columnCount).trans (by decide)
  have hcolumn : span.endColumn ≤ uint64Max :=
    (Nat.add_le_add hnarrow.firstColumn hnarrow.columnCount).trans (by decide)
  rw [hardenSpan, Check.within_of_le hend, Check.ok_bind, Check.push_of_lt hroom, Check.ok_bind,
    Check.within_of_le hcolumn]
  exact Check.safe_bind (Check.safe_rejectIf _ _) fun _ _ => Check.safe_ok _

theorem hardenSpans_eq_ok (spans : List SpanEntry) (hnarrow : ∀ span ∈ spans, span.Narrow)
    {index : ℕ} {state state' : HardeningState}
    (hroom : state.intervals.length + spans.length ≤ capacity) :
    Check.walk (hardenSpan capacity header) index spans state = .ok state' ↔
      (header.state = stateFinal →
        Contiguous state.previousEndFrame state.previousEndColumn spans) ∧
        state' = ⟨state.intervals ++ spans.map SpanEntry.interval,
          ((spans.map SpanEntry.endFrame).getLast?).getD state.previousEndFrame,
          ((spans.map SpanEntry.endColumn).getLast?).getD state.previousEndColumn⟩ := by
  induction spans generalizing index state with
  | nil =>
      rw [Check.walk_nil]
      simp [Contiguous, eq_comm]
  | cons span rest ih =>
      have hspan := hnarrow span List.mem_cons_self
      rw [List.length_cons] at hroom
      have hrest := fun other hother => hnarrow other (List.mem_cons_of_mem _ hother)
      have hroom' : (state.intervals ++ [span.interval]).length + rest.length ≤ capacity := by
        rw [List.length_append, List.length_singleton]
        omega
      have hframe : ((span.endFrame :: rest.map SpanEntry.endFrame).getLast?).getD
          state.previousEndFrame = ((rest.map SpanEntry.endFrame).getLast?).getD span.endFrame := by
        rw [List.getLast?_cons, Option.getD_some]
      have hcolumn : ((span.endColumn :: rest.map SpanEntry.endColumn).getLast?).getD
          state.previousEndColumn =
            ((rest.map SpanEntry.endColumn).getLast?).getD span.endColumn := by
        rw [List.getLast?_cons, Option.getD_some]
      rw [Check.walk_cons_eq_ok, List.map_cons, List.map_cons, List.map_cons, hframe, hcolumn]
      constructor
      · rintro ⟨next, hnext, hwalk⟩
        obtain ⟨hfollows, rfl⟩ := (hardenSpan_eq_ok hspan (by omega)).mp hnext
        obtain ⟨hcontiguous, rfl⟩ := (ih hrest hroom').mp hwalk
        refine ⟨fun hfinal => ⟨(hfollows hfinal).1, (hfollows hfinal).2, hcontiguous hfinal⟩, ?_⟩
        rw [List.append_assoc, List.singleton_append]
      · rintro ⟨hcontiguous, rfl⟩
        refine ⟨_, (hardenSpan_eq_ok hspan (by omega)).mpr
          ⟨fun hfinal => ⟨(hcontiguous hfinal).1, (hcontiguous hfinal).2.1⟩, rfl⟩, ?_⟩
        refine (ih hrest hroom').mpr ⟨fun hfinal => (hcontiguous hfinal).2.2, ?_⟩
        rw [List.append_assoc, List.singleton_append]

theorem hardenSpans_safe (spans : List SpanEntry) (hnarrow : ∀ span ∈ spans, span.Narrow)
    {index : ℕ} {state : HardeningState}
    (hroom : state.intervals.length + spans.length ≤ capacity) :
    Check.Safe (Check.walk (hardenSpan capacity header) index spans state) := by
  induction spans generalizing index state with
  | nil => exact Check.safe_ok _
  | cons span rest ih =>
      have hspan := hnarrow span List.mem_cons_self
      rw [List.length_cons] at hroom
      rw [Check.walk_cons]
      apply Check.safe_bind (hardenSpan_safe hspan (by omega))
      intro next hnext
      obtain ⟨-, rfl⟩ := (hardenSpan_eq_ok hspan (by omega)).mp hnext
      apply ih fun other hother => hnarrow other (List.mem_cons_of_mem _ hother)
      rw [List.length_append, List.length_singleton]
      omega

/-- What the coverage and interval tests accept. -/
theorem hardenIntervals_eq_ok {totalSourceFrames : ℕ} {payload : Bytes} {spans : List SpanEntry}
    {u : Unit} (hspans : spanTable payload header = spans) (hcapacity : header.spanCount ≤ capacity)
    (hfits : header.spanDirectoryOffset + header.spanCount * wovrSpanSize ≤ payload.length)
    (hcount : header.spanCount ≠ 0) (hcolumns : ∀ span ∈ spans, span.columnCount ≠ 0) :
    hardenIntervals capacity totalSourceFrames payload header = .ok u ↔
      HardeningOk totalSourceFrames header spans := by
  have hnarrow : ∀ span ∈ spans, span.Narrow := by
    rw [← hspans]
    exact fun _ h => narrow_of_mem_spanTable h
  have hlength : spans.length = header.spanCount := by rw [← hspans, length_spanTable]
  have hroom : ([] : List (Interval ℕ)).length + spans.length ≤ capacity := by
    rw [List.length_nil, Nat.zero_add, hlength]
    exact hcapacity
  have hwalk : ∀ state, Check.walk (hardenSpan capacity header) 0 spans
      ⟨[], header.originFrame, 0⟩ = .ok state ↔
        (header.state = stateFinal → Contiguous header.originFrame 0 spans) ∧
          state = ⟨spans.map SpanEntry.interval, _, _⟩ :=
    fun _ => hardenSpans_eq_ok spans hnarrow hroom
  have hnonempty : ∀ interval ∈ spans.map SpanEntry.interval, interval.lo < interval.hi := by
    rw [List.forall_mem_map]
    intro span hmem
    show span.dataColumnOffset < span.dataColumnOffset + span.columnCount
    have := hcolumns span hmem
    omega
  have hlast : ∃ last, spans.getLast? = some last := by
    apply Option.ne_none_iff_exists'.mp
    rw [ne_eq, List.getLast?_eq_none_iff]
    rintro rfl
    exact hcount hlength.symm
  obtain ⟨last, hlast⟩ := hlast
  simp only [hardenIntervals, forSpans_eq _ hfits, hspans, Check.bind_eq_ok,
    hwalk, Check.rejectIf_eq_ok, exists_and_left, exists_const, List.getLast?_map, hlast,
    Option.map_some, Option.getD_some, Bool.not_eq_true]
  constructor
  · rintro ⟨_, ⟨hcontiguous, rfl⟩, hend, hapart⟩
    refine ⟨hcontiguous, fun hfinal span hspan => ?_, (Interval.sweep_iff hnonempty).mp hapart⟩
    rw [hlast, Option.mem_some_iff] at hspan
    subst hspan
    simp only [not_and, not_or, not_not, ne_eq] at hend
    exact hend hfinal
  · intro h
    refine ⟨_, ⟨h.contiguous, rfl⟩, ?_, (Interval.sweep_iff hnonempty).mpr h.apart⟩
    rintro ⟨hfinal, hne⟩
    obtain ⟨hcolumn, hframe⟩ := h.last hfinal last hlast
    exact hne.elim (absurd hcolumn) (absurd hframe)

theorem hardenIntervals_safe {totalSourceFrames : ℕ} {payload : Bytes}
    (hcapacity : header.spanCount ≤ capacity)
    (hfits : header.spanDirectoryOffset + header.spanCount * wovrSpanSize ≤ payload.length) :
    Check.Safe (hardenIntervals capacity totalSourceFrames payload header) := by
  rw [hardenIntervals, forSpans_eq _ hfits]
  refine Check.safe_bind (hardenSpans_safe _ (fun _ h => narrow_of_mem_spanTable h) ?_) fun _ _ =>
    Check.safe_bind (Check.safe_rejectIf _ _) fun _ _ => Check.safe_rejectIf _ _
  rw [List.length_nil, Nat.zero_add, length_spanTable]
  exact hcapacity

end Hardening

end LibApta.Container
