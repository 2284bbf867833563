import LibApta.Serialization.WaveformAssembly

/-!
# The detail section of a written container

The table of a written detail payload is the table the writer made, so that the reader accepts the
section of a container that holds the payload and reads the tiles back in their order.
-/

namespace LibApta.Container

open LittleEndian Packing

section Payload

variable {total : ℕ} {tiles : List Tile}

/-- What comes before the columns of a detail payload. -/
def wdtlFront (tiles : List Tile) : Bytes :=
  encode 4 tiles.length ++ encode 4 0 ++ encode 8 wdtlHeaderSize ++
    ((tileEntries (wdtlColumnsOffset tiles) 0 tiles).map packTileEntry).flatten

theorem wdtlPayload_eq (tiles : List Tile) :
    wdtlPayload tiles = wdtlFront tiles ++ packColumns (tiles.flatMap Tile.columns) :=
  (List.append_assoc _ _ _).symm

theorem length_of_mem_packTileEntry {entries : List TileEntry} {record : Bytes}
    (h : record ∈ entries.map packTileEntry) : record.length = wdtlTileSize := by
  obtain ⟨entry, -, rfl⟩ := List.mem_map.mp h
  exact length_packTileEntry entry

theorem length_wdtlFront (tiles : List Tile) :
    (wdtlFront tiles).length = wdtlColumnsOffset tiles := by
  rw [wdtlFront, List.length_append, length_flatten_of_width fun record =>
    length_of_mem_packTileEntry, List.length_map, length_tileEntries, wdtlColumnsOffset]
  simp only [List.length_append, length_encode]

/-- The header of a written detail payload reads back. -/
theorem wdtlHeaderOf_wdtlPayload (hcount : tiles.length < 256 ^ 4) :
    wdtlHeaderOf (wdtlPayload tiles) = ⟨tiles.length, 0, wdtlHeaderSize⟩ := by
  simp (disch := first | assumption | decide) only [wdtlHeaderOf, wdtlPayload, List.append_assoc,
    field_skip, field_head, Nat.reduceSub]

/-- The tiles of a written payload read back. -/
theorem TilesReadable.map_tileOf (h : TilesReadable total tiles) :
    (tileEntries (wdtlColumnsOffset tiles) 0 tiles).map (tileOf (wdtlPayload tiles)) = tiles := by
  have hcolumns : ∀ column ∈ tiles.flatMap Tile.columns, column.Typed := by
    intro column hmem
    obtain ⟨tile, htile, hcolumn⟩ := List.mem_flatMap.mp hmem
    exact h.typed tile htile column hcolumn
  rw [wdtlPayload_eq, ← length_wdtlFront]
  exact map_tileOf_tileEntries hcolumns _ (fun tile htile => (h.readable tile htile).flags)
    (List.nil_append _).symm

/-- A written descriptor describes one of the tiles. -/
theorem TilesReadable.tileOf_mem (h : TilesReadable total tiles) {entry : TileEntry}
    (hentry : entry ∈ tileEntries (wdtlColumnsOffset tiles) 0 tiles) :
    tileOf (wdtlPayload tiles) entry ∈ tiles := by
  have hmem := List.mem_map_of_mem hentry (f := tileOf (wdtlPayload tiles))
  rwa [h.map_tileOf] at hmem

/-- The descriptors of readable tiles are in the ranges of their types. -/
theorem TilesReadable.typed_tileEntries (h : TilesReadable total tiles) {entry : TileEntry}
    (hentry : entry ∈ tileEntries (wdtlColumnsOffset tiles) 0 tiles) : entry.Typed := by
  have hreadable := h.readable _ (h.tileOf_mem hentry)
  obtain ⟨-, hlast, hflags, hreserved⟩ := mem_tileEntries hentry
  have hcolumns : entry.firstColumn ≤ 4294967295 := hreadable.columns_le.1
  have hcount : entry.columnCount ≤ 4294967295 := by
    have hle := hreadable.columns_le.2
    rwa [tileOf, length_columns] at hle
  have hfirst : entry.firstFrame = entry.firstColumn * 256 := hreadable.first
  have hend := hreadable.last
  rw [endColumn_tileOf, TileEntry.endColumn] at hend
  have hend' : entry.endFrame ≤ (entry.firstColumn + entry.columnCount) * 256 :=
    hend.elim Eq.le fun htotal => (htotal.2.1.trans_lt htotal.2.2).le
  have hstate : entry.state ≤ 4 := hreadable.state.2
  have hindex : entry.tileIndex ≤ 67108863 := hreadable.index
  have hlevel : entry.levelId = 1 := hreadable.level
  have hconfidence : entry.confidence ≤ 255 := by
    have hvalid := hreadable.confidence
    rw [confidenceIsValid, Bool.or_eq_true, decide_eq_true_eq, decide_eq_true_eq] at hvalid
    exact hvalid.elim (fun hle => hle.trans (by decide)) fun heq => heq.le
  have htiles : tiles.length ≤ 4294967295 := h.count
  have hpacked : (tiles.flatMap Tile.columns).length ≤ 4294967295 := h.packed
  have hoffset : entry.columnsOffset + entry.columnCount * 10 ≤
      16 + tiles.length * 48 + (0 + (tiles.flatMap Tile.columns).length) * 10 := hlast
  refine ⟨?_, ?_, ?_, ?_, ?_, ?_, ?_, ?_, ?_, ?_, ?_⟩ <;> omega

/-- The descriptors of written tiles read back. -/
theorem TilesReadable.tileTable (h : TilesReadable total tiles) :
    tileTable (wdtlPayload tiles) (wdtlHeaderOf (wdtlPayload tiles)) =
      tileEntries (wdtlColumnsOffset tiles) 0 tiles := by
  have hrecords := records_flatten
    (encode 4 tiles.length ++ encode 4 0 ++ encode 8 wdtlHeaderSize)
    (packColumns (tiles.flatMap Tile.columns))
    fun record => @length_of_mem_packTileEntry (tileEntries (wdtlColumnsOffset tiles) 0 tiles) record
  rw [List.length_append, List.length_append, length_encode, length_encode, length_encode,
    List.length_map, length_tileEntries] at hrecords
  have hdecode : (tileEntries (wdtlColumnsOffset tiles) 0 tiles).map
      (tileEntryOf ∘ packTileEntry) = tileEntries (wdtlColumnsOffset tiles) 0 tiles := by
    conv_rhs => rw [← List.map_id (tileEntries (wdtlColumnsOffset tiles) 0 tiles)]
    exact List.map_congr_left fun entry hentry =>
      tileEntryOf_packTileEntry (h.typed_tileEntries hentry)
  rw [Container.tileTable, wdtlHeaderOf_wdtlPayload (lt_of_le_uint32Max h.count), ← hdecode,
    ← List.map_map]
  exact congrArg (List.map tileEntryOf) hrecords

/-- The columns of written tiles lie apart. -/
theorem TilesReadable.tilesApart (h : TilesReadable total tiles) :
    TilesApart (wdtlPayload tiles) := by
  rw [TilesApart, h.tileTable]
  refine (pairwise_tileEntries (wdtlColumnsOffset tiles) 0 tiles).imp fun {entry other} hle => ?_
  refine Or.inl ?_
  show 0 + entry.columnsOffset + entry.columnCount * packedColumnSize ≤ 0 + other.columnsOffset
  omega

/-- The columns of a written descriptor lie behind the table. -/
theorem TilesReadable.tileDataOk (h : TilesReadable total tiles) {entry : TileEntry}
    (hentry : entry ∈ tileEntries (wdtlColumnsOffset tiles) 0 tiles) :
    TileDataOk true (wdtlPayload tiles) (wdtlHeaderOf (wdtlPayload tiles)) entry := by
  obtain ⟨hfirst, hlast, -, -⟩ := mem_tileEntries hentry
  have hfirst' : 16 + tiles.length * 48 + 0 * 10 ≤ entry.columnsOffset := hfirst
  rw [wdtlHeaderOf_wdtlPayload (lt_of_le_uint32Max h.count)]
  refine ⟨?_, ?_, ?_, (h.readable _ (h.tileOf_mem hentry)).columnsOk⟩
  · rw [length_wdtlPayload]
    have hlast' : entry.columnsOffset + entry.columnCount * 10 ≤
        16 + tiles.length * 48 + (0 + (tiles.flatMap Tile.columns).length) * 10 := hlast
    show _ + _ * 10 ≤ 16 + tiles.length * 48 + _ * 10
    omega
  · rintro ⟨-, -, hbefore, -⟩
    have hbefore' : entry.columnsOffset < 0 + 16 := hbefore
    omega
  · rintro ⟨-, -, hbefore, -⟩
    have hbefore' : entry.columnsOffset < 16 + tiles.length * 48 := hbefore
    omega

/-- The reader accepts a section with a written payload. -/
theorem TilesReadable.detailSectionOk (h : TilesReadable total tiles) (hne : tiles ≠ [])
    {context : TileContext} (hstrict : context.strict = true)
    (htotal : context.totalSourceFrames = total)
    (hunfinished : (∃ tile ∈ tiles, tile.state ≠ stateFinal) → context.isPartial = true)
    {bytes : Bytes} {entry : Entry} (hversion : entry.version = 1)
    (hpayload : entry.payload bytes = wdtlPayload tiles) :
    DetailSectionOk context bytes entry := by
  have hheader := wdtlHeaderOf_wdtlPayload (lt_of_le_uint32Max h.count)
  have hlength := length_wdtlPayload tiles
  have hall : ∀ tile ∈ tileEntries (wdtlColumnsOffset tiles) 0 tiles,
      TileFramesOk context tile := by
    intro tile htile
    obtain ⟨-, -, hflags, hreserved⟩ := mem_tileEntries htile
    have hmem := h.tileOf_mem htile
    refine ((readable_tileOf_iff (wdtlPayload tiles) tile hstrict).mpr ⟨⟨hflags, hreserved⟩,
      fun hstate => hunfinished ⟨_, hmem, hstate⟩, ?_⟩).1
    rw [htotal]
    exact h.readable _ hmem
  refine ⟨hversion, ?_, ?_, ?_, ?_, ?_, ?_, ?_⟩ <;>
    simp only [Entry.wdtlHeader, Entry.tiles, hpayload, h.tileTable]
  · omega
  · rw [hheader]
    exact fun hzero => hne (List.length_eq_zero_iff.mp hzero)
  · rw [hheader]
    exact fun _ => rfl
  · rw [hheader]
  · rw [hheader, hlength]
    exact Nat.le_add_right _ _
  · exact hall
  · rw [hstrict]
    exact fun tile htile => h.tileDataOk htile

end Payload

end LibApta.Container
