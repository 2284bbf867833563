import LibApta.Serialization.WaveformWriter

/-!
# The waveform payloads read back

The rules of the format for an overview and for detail tiles, as predicates on the data of a result,
and the proof that a payload written for data that keep the rules is accepted by the reader and
decodes to the same data.
-/

namespace LibApta.Container

open LittleEndian Packing

/-! ## Columns -/

/-- The fields of a column are in the ranges of their types. -/
structure Column.Typed (column : Column) : Prop where
  minimum : FitsSigned 65536 column.minimum
  maximum : FitsSigned 65536 column.maximum
  rms : column.rms < 256 ^ 2
  low : column.low < 256 ^ 1
  mid : column.mid < 256 ^ 1
  high : column.high < 256 ^ 1
  flags : column.flags < 256 ^ 1

/-- A column of the format. -/
structure Column.Stored (column : Column) : Prop where
  typed : column.Typed
  ok : ColumnOk true column

@[simp] theorem length_packColumn (column : Column) :
    (packColumn column).length = packedColumnSize := by
  simp only [packColumn, List.length_append, length_encode]

theorem columnOf_packColumn {column : Column} (h : column.Typed) :
    columnOf (packColumn column) = column := by
  obtain ⟨hminimum, hmaximum, hrms, hlow, hmid, hhigh, hflags⟩ := h
  have hmin : unsigned 65536 column.minimum < 256 ^ 2 := unsigned_lt (by decide) _
  have hmax : unsigned 65536 column.maximum < 256 ^ 2 := unsigned_lt (by decide) _
  simp (disch := first | assumption | decide) only [columnOf, packColumn, List.append_assoc,
    field_skip, field_head, field_last, Nat.reduceSub, signed_unsigned]

theorem length_of_mem_map_packColumn {columns : List Column} {record : Bytes}
    (h : record ∈ columns.map packColumn) : record.length = packedColumnSize := by
  obtain ⟨column, -, rfl⟩ := List.mem_map.mp h
  exact length_packColumn column

@[simp] theorem length_packColumns (columns : List Column) :
    (packColumns columns).length = columns.length * packedColumnSize := by
  rw [packColumns, length_flatten_of_width fun record => length_of_mem_map_packColumn,
    List.length_map]

/-- A part of a table of packed columns reads back. -/
theorem columnTable_packColumns {columns : List Column} (h : ∀ column ∈ columns, column.Typed)
    (front : Bytes) {first count : ℕ} (hfits : first + count ≤ columns.length) :
    columnTable (front ++ packColumns columns) (front.length + first * packedColumnSize) count =
      slice columns first count := by
  have htable := records_flatten front []
    fun record => @length_of_mem_map_packColumn columns record
  rw [List.append_nil, List.length_map] at htable
  rw [columnTable, records_part hfits, packColumns, htable, slice, slice, List.map_take,
    List.map_drop, List.map_map]
  have hcolumns : columns.map (columnOf ∘ packColumn) = columns := by
    conv_rhs => rw [← List.map_id columns]
    exact List.map_congr_left fun column hcolumn => columnOf_packColumn (h column hcolumn)
  rw [hcolumns]

/-! ## Rules for an overview -/

/-- A span lies on its columns: it starts with its first column and ends with its last one, or with
the source. -/
structure Span.Ok (total originFrame framesPerColumn logicalColumns : ℕ) (span : Span) :
    Prop where
  frames : span.sourceRange.firstFrame < span.sourceRange.endFrame
  columns : span.columns ≠ []
  logical : span.endColumn ≤ logicalColumns
  noWrap : originFrame + span.endColumn * framesPerColumn ≤ uint64Max
  first : span.sourceRange.firstFrame = originFrame + span.firstColumnIndex * framesPerColumn
  last : span.sourceRange.endFrame = originFrame + span.endColumn * framesPerColumn ∨
    (total ≠ totalFramesUnknown ∧ span.sourceRange.endFrame = total ∧
      span.endColumn = logicalColumns ∧ total < originFrame + span.endColumn * framesPerColumn)
  total : total ≠ totalFramesUnknown → span.sourceRange.endFrame ≤ total

/-- A span comes after another, in frames and in columns. -/
def Span.Follows (previous span : Span) : Prop :=
  previous.sourceRange.endFrame ≤ span.sourceRange.firstFrame ∧
    previous.endColumn ≤ span.firstColumnIndex

/-- Spans that follow each other without gap or overlap, from a frame and a column on. -/
def Span.Contiguous : (frame column : ℕ) → List Span → Prop
  | _, _, [] => True
  | frame, column, span :: rest =>
      span.sourceRange.firstFrame = frame ∧ span.firstColumnIndex = column ∧
        Span.Contiguous span.sourceRange.endFrame span.endColumn rest

/-- The columns up to the end of the last span. -/
def Overview.spanColumns (overview : Overview) : ℕ :=
  overview.spans.foldl (fun columns span => max columns span.endColumn) 0

/-- The logical columns of an overview. -/
def Overview.logicalColumns (total : ℕ) (overview : Overview) : ℕ :=
  if total = totalFramesUnknown then overview.spanColumns
  else requiredColumns overview.framesPerColumn (total - overview.originFrame)

/-- The columns of an overview. -/
def Overview.columns (overview : Overview) : List Column := overview.spans.flatMap Span.columns

/-- The rules of the format for an overview of a source of some duration. -/
structure Overview.Stored (total : ℕ) (overview : Overview) : Prop where
  level : overview.levelId ≤ uint32Max
  framesPerColumn : overview.framesPerColumn ≠ 0 ∧ overview.framesPerColumn ≤ uint32Max
  state : statePartial ≤ overview.state ∧ overview.state ≤ stateFinal
  spans : overview.spans ≠ [] ∧ overview.spans.length ≤ uint32Max
  origin : total ≠ totalFramesUnknown → overview.originFrame ≤ total
  logical : overview.logicalColumns total ≤ uint32Max
  frames : ∀ span ∈ overview.spans, span.Ok total overview.originFrame overview.framesPerColumn
    (overview.logicalColumns total)
  columns : ∀ column ∈ overview.columns, column.Stored
  packed : overview.columns.length ≤ uint32Max
  ordered : overview.spans.IsChain Span.Follows
  finalKnown : overview.state = stateFinal → total ≠ totalFramesUnknown
  finalContiguous : overview.state = stateFinal →
    Span.Contiguous overview.originFrame 0 overview.spans
  finalLast : overview.state = stateFinal → ∀ span ∈ overview.spans.getLast?,
    span.endColumn = overview.logicalColumns total ∧ span.sourceRange.endFrame = total

/-! ### From records to spans -/

section Records

variable {strict : Bool} {container : Header} {header : WovrHeader} (payload : Bytes)

theorem endColumn_spanOf (header : WovrHeader) (entry : SpanEntry) :
    (spanOf payload header entry).endColumn = entry.endColumn := by
  rw [Span.endColumn, spanOf, SpanEntry.endColumn, SpanEntry.columns, columnTable, List.length_map,
    length_records]

/-- What the reader asks of the frames of a span record is the rule for the span. -/
theorem spanFramesOk_iff (entry : SpanEntry) :
    SpanFramesOk strict container header entry ↔ (strict = true → entry.reserved = 0) ∧
      (spanOf payload header entry).Ok container.totalSourceFrames header.originFrame
        header.framesPerColumn header.logicalColumnCount := by
  have hend := endColumn_spanOf payload header entry
  have hcolumns : (spanOf payload header entry).columns ≠ [] ↔ entry.columnCount ≠ 0 := by
    rw [← List.length_pos_iff, spanOf, SpanEntry.columns, columnTable, List.length_map,
      length_records, Nat.pos_iff_ne_zero]
  constructor
  · intro h
    refine ⟨h.reserved, h.frames, hcolumns.mpr h.columns, ?_, ?_, h.first, ?_, h.total⟩ <;>
      rw [hend]
    exacts [h.logical, h.noWrap, h.last]
  · rintro ⟨hreserved, h⟩
    have hlogical := h.logical
    have hwrap := h.noWrap
    have hlast := h.last
    rw [hend] at hlogical hwrap hlast
    exact ⟨h.frames, hcolumns.mp h.columns, hreserved, hlogical, hwrap, h.first, hlast, h.total⟩

theorem follows_spanOf {previous entry : SpanEntry} :
    Span.Follows (spanOf payload header previous) (spanOf payload header entry) ↔
      SpanEntry.Follows previous entry := by
  rw [Span.Follows, endColumn_spanOf]
  exact Iff.rfl

theorem contiguous_spanOf {frame column : ℕ} {entries : List SpanEntry} :
    Span.Contiguous frame column (entries.map (spanOf payload header)) ↔
      Contiguous frame column entries := by
  induction entries generalizing frame column with
  | nil => exact Iff.rfl
  | cons entry rest ih =>
      rw [List.map_cons, Span.Contiguous, ih, Contiguous, endColumn_spanOf]
      exact Iff.rfl

end Records

/-! ### The payload of an overview -/

section Payload

/-- The fields of a span record are in the ranges of their types. -/
structure SpanEntry.Typed (entry : SpanEntry) : Prop where
  firstFrame : entry.firstFrame < 256 ^ 8
  endFrame : entry.endFrame < 256 ^ 8
  firstColumn : entry.firstColumn < 256 ^ 4
  columnCount : entry.columnCount < 256 ^ 4
  dataColumnOffset : entry.dataColumnOffset < 256 ^ 4
  reserved : entry.reserved < 256 ^ 4

@[simp] theorem length_packSpanEntry (entry : SpanEntry) :
    (packSpanEntry entry).length = wovrSpanSize := by
  simp only [packSpanEntry, List.length_append, length_encode]

theorem spanEntryOf_packSpanEntry {entry : SpanEntry} (h : entry.Typed) :
    spanEntryOf (packSpanEntry entry) = entry := by
  obtain ⟨hfirst, hend, hcolumn, hcount, hoffset, hreserved⟩ := h
  simp (disch := first | assumption | decide) only [spanEntryOf, packSpanEntry, List.append_assoc,
    field_skip, field_head, field_last, Nat.reduceSub]

@[simp] theorem length_spanEntries (packedOffset : ℕ) (spans : List Span) :
    (spanEntries packedOffset spans).length = spans.length := by
  induction spans generalizing packedOffset with
  | nil => rfl
  | cons span rest ih => rw [spanEntries, List.length_cons, ih, List.length_cons]

/-- The columns of the spans lie one after another. -/
theorem mem_spanEntries {packedOffset : ℕ} {spans : List Span} {entry : SpanEntry}
    (h : entry ∈ spanEntries packedOffset spans) :
    packedOffset ≤ entry.dataColumnOffset ∧ entry.dataColumnOffset + entry.columnCount ≤
      packedOffset + (spans.flatMap Span.columns).length := by
  induction spans generalizing packedOffset with
  | nil => cases h
  | cons span rest ih =>
      rw [List.flatMap_cons, List.length_append]
      rw [spanEntries, List.mem_cons] at h
      obtain rfl | h := h
      · exact ⟨le_rfl, by simp only; omega⟩
      · obtain ⟨hfirst, hlast⟩ := ih h
        exact ⟨by omega, by omega⟩

theorem reserved_of_mem_spanEntries {packedOffset : ℕ} {spans : List Span} {entry : SpanEntry}
    (h : entry ∈ spanEntries packedOffset spans) : entry.reserved = 0 := by
  induction spans generalizing packedOffset with
  | nil => cases h
  | cons span rest ih =>
      rw [spanEntries, List.mem_cons] at h
      obtain rfl | h := h
      · rfl
      · exact ih h

theorem pairwise_spanEntries (packedOffset : ℕ) (spans : List Span) :
    (spanEntries packedOffset spans).Pairwise fun entry other =>
      entry.dataColumnOffset + entry.columnCount ≤ other.dataColumnOffset := by
  induction spans generalizing packedOffset with
  | nil => exact List.Pairwise.nil
  | cons span rest ih =>
      rw [spanEntries]
      exact List.Pairwise.cons (fun other hother => (mem_spanEntries hother).1) (ih _)

theorem packedColumns_spanEntries (packedOffset : ℕ) (spans : List Span) :
    packedColumns (spanEntries packedOffset spans) = (spans.flatMap Span.columns).length := by
  induction spans generalizing packedOffset with
  | nil => rfl
  | cons span rest ih =>
      rw [List.flatMap_cons, List.length_append, ← ih (packedOffset + span.columns.length)]
      exact List.sum_cons

/-- The records of spans decode to the spans, when the columns lie behind what comes before. -/
theorem map_spanOf_spanEntries {columns : List Column} (h : ∀ column ∈ columns, column.Typed)
    (front : Bytes) {header : WovrHeader} (hdata : header.columnDataOffset = front.length)
    {before : List Column} {spans : List Span}
    (hcolumns : columns = before ++ spans.flatMap Span.columns) :
    (spanEntries before.length spans).map (spanOf (front ++ packColumns columns) header) =
      spans := by
  induction spans generalizing before with
  | nil => rfl
  | cons span rest ih =>
      -- the columns of this span come before those of the rest
      have hrest := @ih (before ++ span.columns)
        (by rw [hcolumns, List.flatMap_cons, List.append_assoc])
      rw [List.length_append] at hrest
      have hslice : slice columns before.length span.columns.length = span.columns := by
        rw [hcolumns, List.flatMap_cons, slice_append_middle]
      have hfits : before.length + span.columns.length ≤ columns.length := by
        rw [hcolumns, List.flatMap_cons, List.length_append, List.length_append]
        omega
      rw [spanEntries, List.map_cons, hrest, spanOf, SpanEntry.columns, SpanEntry.dataFirst, hdata,
        columnTable_packColumns h front hfits, hslice]

variable {total flags : ℕ} {overview : Overview}

@[simp] theorem length_packWovrHeader (header : WovrHeader) :
    (packWovrHeader header).length = wovrHeaderSize := by
  simp only [packWovrHeader, List.length_append, length_encode]

theorem length_of_mem_map_packSpanEntry {entries : List SpanEntry} {record : Bytes}
    (h : record ∈ entries.map packSpanEntry) : record.length = wovrSpanSize := by
  obtain ⟨entry, -, rfl⟩ := List.mem_map.mp h
  exact length_packSpanEntry entry

theorem length_spanDirectory (spans : List Span) :
    ((spanEntries 0 spans).map packSpanEntry).flatten.length = spans.length * wovrSpanSize := by
  rw [length_flatten_of_width fun record => length_of_mem_map_packSpanEntry, List.length_map,
    length_spanEntries]

theorem length_wovrPayload (overview : Overview) (logicalColumns flags : ℕ) :
    (wovrPayload overview logicalColumns flags).length = wovrHeaderSize +
      overview.spans.length * wovrSpanSize + overview.columns.length * packedColumnSize := by
  rw [wovrPayload, List.length_append, List.length_append, length_packWovrHeader,
    length_spanDirectory, length_packColumns, Overview.columns, Nat.add_assoc]

/-- What comes before the columns. -/
def wovrFront (overview : Overview) (logicalColumns flags : ℕ) : Bytes :=
  packWovrHeader (wovrHeaderFor overview logicalColumns flags) ++
    ((spanEntries 0 overview.spans).map packSpanEntry).flatten

theorem wovrPayload_eq (overview : Overview) (logicalColumns flags : ℕ) :
    wovrPayload overview logicalColumns flags =
      wovrFront overview logicalColumns flags ++ packColumns overview.columns :=
  (List.append_assoc _ _ _).symm

theorem length_wovrFront (overview : Overview) (logicalColumns flags : ℕ) :
    (wovrFront overview logicalColumns flags).length =
      wovrHeaderSize + overview.spans.length * wovrSpanSize := by
  rw [wovrFront, List.length_append, length_packWovrHeader, length_spanDirectory]

section Stored

variable {strict : Bool} {total flags : ℕ} {overview : Overview} {container : Header}
  (h : overview.Stored total)

include h

/-- The records the writer makes decode to the spans. -/
theorem Overview.Stored.map_spanOf (flags : ℕ) :
    (spanEntries 0 overview.spans).map
        (spanOf (wovrPayload overview (overview.logicalColumns total) flags)
          (wovrHeaderFor overview (overview.logicalColumns total) flags)) = overview.spans := by
  rw [wovrPayload_eq]
  exact @map_spanOf_spanEntries overview.columns (fun column hcolumn => (h.columns column hcolumn).typed)
    (wovrFront overview (overview.logicalColumns total) flags) _ (length_wovrFront _ _ _).symm []
    overview.spans rfl

/-- The frames of the records are acceptable. -/
theorem Overview.Stored.spanFramesOk (htotal : container.totalSourceFrames = total)
    {entry : SpanEntry} (hentry : entry ∈ spanEntries 0 overview.spans) :
    SpanFramesOk strict container (wovrHeaderFor overview (overview.logicalColumns total) flags)
      entry := by
  have hmem := List.mem_map_of_mem hentry
    (f := spanOf (wovrPayload overview (overview.logicalColumns total) flags)
      (wovrHeaderFor overview (overview.logicalColumns total) flags))
  rw [h.map_spanOf] at hmem
  have hok := h.frames _ hmem
  refine (spanFramesOk_iff (wovrPayload overview (overview.logicalColumns total) flags) entry).mpr
     ⟨fun _ => reserved_of_mem_spanEntries hentry, ?_⟩
  rw [htotal]
  exact hok

/-- The fields of the records are in the ranges of their types. -/
theorem Overview.Stored.typed {entry : SpanEntry}
    (hentry : entry ∈ spanEntries 0 overview.spans) : entry.Typed := by
  have hframes := @Overview.Stored.spanFramesOk true total 0 overview
    { headerOf [] with totalSourceFrames := total } h rfl entry hentry
  have hend : entry.endFrame ≤ uint64Max := by
    obtain hlast | ⟨-, hlast, -, hlt⟩ := hframes.last
    · exact hlast ▸ hframes.noWrap
    · exact hlast ▸ hlt.le.trans hframes.noWrap
  have hlogical : entry.endColumn ≤ uint32Max := hframes.logical.trans h.logical
  have hdata : entry.dataColumnOffset ≤ uint32Max := by
    have hlast := (mem_spanEntries hentry).2
    rw [Nat.zero_add] at hlast
    exact ((Nat.le_add_right _ _).trans hlast).trans h.packed
  exact
    { firstFrame := lt_of_le_uint64Max (hframes.frames.le.trans hend)
      endFrame := lt_of_le_uint64Max hend
      firstColumn := lt_of_le_uint32Max ((Nat.le_add_right _ _).trans hlogical)
      columnCount := lt_of_le_uint32Max ((Nat.le_add_left _ _).trans hlogical)
      dataColumnOffset := lt_of_le_uint32Max hdata
      reserved := by rw [reserved_of_mem_spanEntries hentry]; decide }

/-- The header of the payload reads back. -/
theorem Overview.Stored.wovrHeaderOf (hflags : flags ≤ uint32Max) :
    wovrHeaderOf (wovrPayload overview (overview.logicalColumns total) flags) =
      wovrHeaderFor overview (overview.logicalColumns total) flags := by
  have hlevel := lt_of_le_uint32Max h.level
  have hframes := lt_of_le_uint32Max h.framesPerColumn.2
  have hlogical := lt_of_le_uint32Max h.logical
  have hspans := lt_of_le_uint32Max h.spans.2
  have hflags' := lt_of_le_uint32Max hflags
  have horigin : overview.originFrame < 256 ^ 8 := by
    obtain ⟨span, hspan⟩ := List.exists_mem_of_ne_nil _ h.spans.1
    exact lt_of_le_uint64Max ((Nat.le_add_right _ _).trans (h.frames span hspan).noWrap)
  have hdata : wovrHeaderSize + overview.spans.length * wovrSpanSize < 256 ^ 8 := by
    have hle := Nat.mul_le_mul_right wovrSpanSize h.spans.2
    exact lt_of_le_of_lt (Nat.add_le_add_left hle _) (by decide)
  rw [Container.wovrHeaderOf, wovrPayload, packWovrHeader, wovrHeaderFor]
  simp (disch := first | assumption | decide) only [List.append_assoc, field_skip, field_head,
    Nat.reduceSub]

/-- The span directory of the payload reads back. -/
theorem Overview.Stored.spanTable :
    spanTable (wovrPayload overview (overview.logicalColumns total) flags)
      (wovrHeaderFor overview (overview.logicalColumns total) flags) =
      spanEntries 0 overview.spans := by
  have hrecords := records_flatten
    (packWovrHeader (wovrHeaderFor overview (overview.logicalColumns total) flags))
    (packColumns overview.columns)
    fun record => @length_of_mem_map_packSpanEntry (spanEntries 0 overview.spans) record
  rw [length_packWovrHeader, List.length_map, length_spanEntries] at hrecords
  have hdecode : (spanEntries 0 overview.spans).map (spanEntryOf ∘ packSpanEntry) =
      spanEntries 0 overview.spans := by
    conv_rhs => rw [← List.map_id (spanEntries 0 overview.spans)]
    exact List.map_congr_left fun entry hentry => spanEntryOf_packSpanEntry (h.typed hentry)
  rw [Container.spanTable, ← hdecode, ← List.map_map]
  exact congrArg (List.map spanEntryOf) hrecords

/-- A final overview starts with its first column and ends with its last. -/
theorem Overview.Stored.final (hfinal : overview.state = stateFinal) :
    Contiguous overview.originFrame 0 (spanEntries 0 overview.spans) ∧
      ∀ entry ∈ (spanEntries 0 overview.spans).getLast?,
        entry.endColumn = overview.logicalColumns total ∧ entry.endFrame = total := by
  have hmap := h.map_spanOf 0
  have hcontiguous := h.finalContiguous hfinal
  have hlast := h.finalLast hfinal
  rw [← hmap] at hcontiguous
  rw [← hmap, List.getLast?_map] at hlast
  refine ⟨(contiguous_spanOf _).mp hcontiguous, fun entry hentry => ?_⟩
  have hspan := hlast _ (Option.mem_map_of_mem _ hentry)
  rwa [endColumn_spanOf] at hspan

theorem Overview.Stored.state_mod : overview.state % 8 = overview.state :=
  Nat.mod_eq_of_lt (lt_of_le_of_lt h.state.2 (by decide))

/-- The packed columns of a record lie behind the directory. -/
theorem Overview.Stored.spanDataOk {entry : SpanEntry}
    (hentry : entry ∈ spanEntries 0 overview.spans) :
    SpanDataOk true (wovrPayload overview (overview.logicalColumns total) flags)
      (wovrHeaderFor overview (overview.logicalColumns total) flags) entry := by
  have hlast := (mem_spanEntries hentry).2
  rw [Nat.zero_add] at hlast
  have hmem := List.mem_map_of_mem hentry
    (f := spanOf (wovrPayload overview (overview.logicalColumns total) flags)
      (wovrHeaderFor overview (overview.logicalColumns total) flags))
  rw [h.map_spanOf] at hmem
  refine ⟨?_, ?_, fun column hcolumn => (h.columns column ?_).ok⟩
  · rw [length_wovrPayload, SpanEntry.dataFirst, Nat.add_assoc, ← Nat.add_mul]
    exact Nat.add_le_add_left (Nat.mul_le_mul_right _ hlast) _
  · rintro ⟨-, -, hbefore, -⟩
    have hbefore' : wovrHeaderSize + overview.spans.length * wovrSpanSize +
        entry.dataColumnOffset * packedColumnSize <
      wovrHeaderSize + overview.spans.length * wovrSpanSize := hbefore
    exact absurd hbefore' (Nat.not_lt.mpr (Nat.le_add_right _ _))
  · exact List.mem_flatMap.mpr ⟨_, hmem, hcolumn⟩

/-- The reader accepts the header of the payload. -/
theorem Overview.Stored.wovrHeaderOk (htotal : container.totalSourceFrames = total)
    (hunfinal : overview.state ≠ stateFinal → container.isPartial = true) :
    WovrHeaderOk true container (wovrPayload overview (overview.logicalColumns total) overview.state)
      (wovrHeaderFor overview (overview.logicalColumns total) overview.state) := by
  have hlength := length_wovrPayload overview (overview.logicalColumns total) overview.state
  have hstate : (wovrHeaderFor overview (overview.logicalColumns total) overview.state).state =
      overview.state := h.state_mod
  obtain ⟨span, hspan⟩ := List.exists_mem_of_ne_nil _ h.spans.1
  have hlogical : overview.logicalColumns total ≠ 0 := by
    have hend := (h.frames span hspan).logical
    have hpos := List.length_pos_iff.mpr (h.frames span hspan).columns
    rw [Span.endColumn] at hend
    omega
  exact
    { size := hlength ▸ (Nat.le_add_right _ _).trans (Nat.le_add_right _ _)
      framesPerColumn := h.framesPerColumn.1
      logicalColumns := hlogical
      spans := fun hzero => h.spans.1 (List.length_eq_zero_iff.mp hzero)
      flags := lt_of_le_of_lt h.state.2 (by decide)
      state := by
        rw [hstate]
        exact h.state
      reserved := fun _ => rfl
      finalKnown := fun hfinal => htotal ▸ h.finalKnown (hstate ▸ hfinal)
      unfinished := fun hfinal => hunfinal (hstate ▸ hfinal)
      directoryAfter := le_rfl
      dataAfter := Nat.le_add_right _ _
      directoryFits := hlength ▸ Nat.le_add_right _ _ }

/-- The reader accepts the geometry of the payload. -/
theorem Overview.Stored.geometryOk (htotal : container.totalSourceFrames = total)
    (hunfinal : overview.state ≠ stateFinal → container.isPartial = true) :
    GeometryOk true ⟨container, wovrPayload overview (overview.logicalColumns total) overview.state⟩
      (wovrHeaderFor overview (overview.logicalColumns total) overview.state)
      (spanEntries 0 overview.spans) := by
  have hstate : (wovrHeaderFor overview (overview.logicalColumns total) overview.state).state =
      overview.state := h.state_mod
  have hordered := h.ordered
  rw [← h.map_spanOf 0, List.isChain_map] at hordered
  exact
    { header_eq := (h.wovrHeaderOf (h.state.2.trans (by decide))).symm
      spans_eq := h.spanTable.symm
      headerOk := h.wovrHeaderOk htotal hunfinal
      columnCount := by
        intro hknown
        have hknown' : total ≠ totalFramesUnknown := htotal ▸ hknown
        have hlogical : overview.logicalColumns total =
            requiredColumns overview.framesPerColumn (total - overview.originFrame) :=
          if_neg hknown'
        refine ⟨htotal ▸ h.origin hknown', ?_⟩
        rw [htotal]
        exact hlogical.symm
      frames := fun entry hentry => h.spanFramesOk htotal hentry
      data := fun entry hentry => h.spanDataOk hentry
      ordered := hordered.imp fun _ _ hfollows =>
        (follows_spanOf _).mp hfollows
      packed := (packedColumns_spanEntries 0 overview.spans).trans_le h.packed
      finalFirst := by
        intro hfinal entry hentry
        have hcontiguous := (h.final (hstate ▸ hfinal)).1
        cases hspans : spanEntries 0 overview.spans with
        | nil => rw [hspans] at hentry; cases hentry
        | cons first rest =>
            rw [hspans] at hentry hcontiguous
            cases hentry
            exact hcontiguous.2.1
      finalLast := fun hfinal entry hentry => ((h.final (hstate ▸ hfinal)).2 entry hentry).1 }

/-- The later pass accepts the payload. -/
theorem Overview.Stored.hardeningOk :
    HardeningOk total (wovrHeaderFor overview (overview.logicalColumns total) overview.state)
      (spanEntries 0 overview.spans) := by
  have hstate : (wovrHeaderFor overview (overview.logicalColumns total) overview.state).state =
      overview.state := h.state_mod
  refine ⟨fun hfinal => (h.final (hstate ▸ hfinal)).1, fun hfinal => (h.final (hstate ▸ hfinal)).2,
    ?_⟩
  rw [List.pairwise_map]
  exact (pairwise_spanEntries 0 overview.spans).imp fun hbefore => Or.inl hbefore

end Stored

end Payload

/-! ### The overview of a container that was read -/

theorem columnOf_typed (record : Bytes) : (columnOf record).Typed where
  minimum := fitsSigned_signed field_lt
  maximum := fitsSigned_signed field_lt
  rms := field_lt
  low := field_lt
  mid := field_lt
  high := field_lt
  flags := field_lt

theorem typed_of_mem_columnTable {bytes : Bytes} {offset count : ℕ} {column : Column}
    (h : column ∈ columnTable bytes offset count) : column.Typed := by
  obtain ⟨record, -, rfl⟩ := List.mem_map.mp h
  exact columnOf_typed record

/-- The largest end column bounds the end columns. -/
private theorem le_foldl_max (spans : List Span) (start : ℕ) :
    start ≤ spans.foldl (fun columns span => max columns span.endColumn) start ∧
      (∀ span ∈ spans, span.endColumn ≤
        spans.foldl (fun columns span => max columns span.endColumn) start) ∧
      ∀ bound, start ≤ bound → (∀ span ∈ spans, span.endColumn ≤ bound) →
        spans.foldl (fun columns span => max columns span.endColumn) start ≤ bound := by
  induction spans generalizing start with
  | nil => exact ⟨le_rfl, fun _ hspan => absurd hspan List.not_mem_nil, fun _ hle _ => hle⟩
  | cons span rest ih =>
      obtain ⟨hstart, hends, hbound⟩ := ih (max start span.endColumn)
      refine ⟨(le_max_left _ _).trans hstart, ?_, fun bound hle hspans => ?_⟩
      · intro other hother
        obtain rfl | hother := List.mem_cons.mp hother
        · exact (le_max_right _ _).trans hstart
        · exact hends other hother
      · exact hbound bound (max_le hle (hspans span List.mem_cons_self))
          fun other hother => hspans other (List.mem_cons_of_mem span hother)

theorem Overview.endColumn_le {overview : Overview} {span : Span} (h : span ∈ overview.spans) :
    span.endColumn ≤ overview.spanColumns := (le_foldl_max _ _).2.1 span h

theorem Overview.spanColumns_le {overview : Overview} {bound : ℕ}
    (h : ∀ span ∈ overview.spans, span.endColumn ≤ bound) : overview.spanColumns ≤ bound :=
  (le_foldl_max _ _).2.2 bound (Nat.zero_le _) h

/-- The overview the base layer makes of a payload. -/
def decodedOverview (payload : Bytes) (header : WovrHeader) (spans : List SpanEntry) : Overview where
  levelId := header.levelId
  framesPerColumn := header.framesPerColumn
  originFrame := header.originFrame
  state := header.state
  confidence := unknownConfidence
  spans := spans.map (spanOf payload header)

section Decoded

variable {input : WovrInput} {header : WovrHeader} {spans : List SpanEntry}

/-- The overview of an accepted payload has no more logical columns than its header says. -/
theorem GeometryOk.logicalColumns_le (h : GeometryOk true input header spans) :
    (decodedOverview input.payload header spans).logicalColumns input.header.totalSourceFrames ≤
      header.logicalColumnCount := by
  rw [Overview.logicalColumns]
  split
  · refine Overview.spanColumns_le fun span hspan => ?_
    obtain ⟨entry, hentry, rfl⟩ := List.mem_map.mp hspan
    rw [endColumn_spanOf]
    exact (h.frames entry hentry).logical
  · rename_i hknown
    exact (h.columnCount hknown).2.le

/-- A four-byte field is a 32-bit number. -/
theorem field_le_uint32Max (bytes : Bytes) (offset : ℕ) : field 4 bytes offset ≤ uint32Max :=
  Nat.le_of_lt_succ field_lt

/-- A rule for the spans of an accepted payload, with the logical columns of its overview. -/
theorem GeometryOk.span_ok (h : GeometryOk true input header spans) {entry : SpanEntry}
    (hentry : entry ∈ spans) :
    (spanOf input.payload header entry).Ok input.header.totalSourceFrames header.originFrame
      header.framesPerColumn ((decodedOverview input.payload header spans).logicalColumns
        input.header.totalSourceFrames) := by
  obtain ⟨-, hok⟩ := (spanFramesOk_iff input.payload entry).mp (h.frames entry hentry)
  have hmem : spanOf input.payload header entry ∈
      (decodedOverview input.payload header spans).spans := List.mem_map_of_mem hentry
  by_cases hknown : input.header.totalSourceFrames = totalFramesUnknown
  · -- of an unknown duration the logical columns are those of the spans
    have hlogical := Overview.endColumn_le hmem
    rw [Overview.logicalColumns, if_pos hknown]
    refine { hok with
      logical := hlogical
      last := Or.inl ?_ }
    obtain hlast | ⟨hunknown, -⟩ := hok.last
    · exact hlast
    · exact absurd hknown hunknown
  · rw [Overview.logicalColumns, if_neg hknown]
    have hcount := (h.columnCount hknown).2
    exact hcount ▸ hok

/-- The overview of an accepted payload keeps the rules of the format. -/
theorem GeometryOk.stored (h : GeometryOk true input header spans)
    (hhardening : HardeningOk input.header.totalSourceFrames header spans) :
    (decodedOverview input.payload header spans).Stored input.header.totalSourceFrames := by
  have hheader := h.header_eq
  have hlevel : header.levelId ≤ uint32Max := hheader ▸ field_le_uint32Max _ _
  have hframes : header.framesPerColumn ≤ uint32Max := hheader ▸ field_le_uint32Max _ _
  have hlogical : header.logicalColumnCount ≤ uint32Max := hheader ▸ field_le_uint32Max _ _
  have hspans : header.spanCount ≤ uint32Max := hheader ▸ field_le_uint32Max _ _
  have hcount : spans.length = header.spanCount := by rw [h.spans_eq, length_spanTable]
  have hcolumns : (decodedOverview input.payload header spans).columns =
      spans.flatMap fun entry => entry.columns input.payload header := by
    rw [Overview.columns, decodedOverview, List.flatMap_map]
    rfl
  refine
    { level := hlevel
      framesPerColumn := ⟨h.headerOk.framesPerColumn, hframes⟩
      state := h.headerOk.state
      spans := ⟨?_, ?_⟩
      origin := fun hknown => (h.columnCount hknown).1
      logical := h.logicalColumns_le.trans hlogical
      frames := fun span hspan => ?_
      columns := fun column hcolumn => ?_
      packed := ?_
      ordered := ?_
      finalKnown := h.headerOk.finalKnown
      finalContiguous := fun hfinal => (contiguous_spanOf _).mpr (hhardening.contiguous hfinal)
      finalLast := fun hfinal span hspan => ?_ }
  · intro hnil
    have hzero := congrArg List.length hnil
    rw [decodedOverview, List.length_map, hcount] at hzero
    exact h.headerOk.spans hzero
  · rw [decodedOverview, List.length_map, hcount]
    exact hspans
  · obtain ⟨entry, hentry, rfl⟩ := List.mem_map.mp hspan
    exact h.span_ok hentry
  · rw [hcolumns] at hcolumn
    obtain ⟨entry, hentry, hcolumn⟩ := List.mem_flatMap.mp hcolumn
    exact ⟨typed_of_mem_columnTable hcolumn, (h.data entry hentry).columns column hcolumn⟩
  · rw [hcolumns, List.length_flatMap]
    refine le_of_eq_of_le (congrArg List.sum (List.map_congr_left fun entry _ => ?_)) h.packed
    rw [SpanEntry.columns, columnTable, List.length_map, length_records]
  · rw [decodedOverview, List.isChain_map]
    exact h.ordered.imp fun _ _ hfollows => (follows_spanOf _).mpr hfollows
  · rw [decodedOverview, List.getLast?_map] at hspan
    obtain ⟨entry, hentry, rfl⟩ := Option.mem_map.mp hspan
    obtain ⟨hcolumn, hframe⟩ := hhardening.last hfinal entry hentry
    have hknown := h.headerOk.finalKnown hfinal
    rw [endColumn_spanOf, Overview.logicalColumns, if_neg hknown]
    exact ⟨hcolumn.trans (h.columnCount hknown).2.symm, hframe⟩

end Decoded

end LibApta.Container
