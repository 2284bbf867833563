import LibApta.Serialization.Rearrangement
import LibApta.Serialization.WaveformReadBack

/-!
# The detail payload reads back

The rules of the format for detail tiles, and the proof that the payload written for tiles that keep
them is accepted by the reader and decodes to the same tiles. A final tile needs a known duration:
the writer asks for it, the reader does not.
-/

namespace LibApta.Container

open LittleEndian Packing

/-! ## Rules for tiles -/

/-- What the reader asks of a tile of a source of some duration. -/
structure Tile.Readable (total : ℕ) (tile : Tile) : Prop where
  level : tile.levelId = wdtlLevelId
  index : tile.tileIndex ≤ uint32Max / wdtlColumnsPerTile
  frames : tile.sourceRange.firstFrame < tile.sourceRange.endFrame
  columns : tile.columns ≠ []
  state : statePartial ≤ tile.state ∧ tile.state ≤ stateFinal
  flags : tile.flags = 0
  confidence : confidenceIsValid tile.confidence = true
  inTile : tile.tileIndex * wdtlColumnsPerTile ≤ tile.firstColumnIndex ∧
    tile.endColumn ≤ tile.tileIndex * wdtlColumnsPerTile + wdtlColumnsPerTile
  first : tile.sourceRange.firstFrame = tile.firstColumnIndex * wdtlFramesPerColumn
  last : tile.sourceRange.endFrame = tile.endColumn * wdtlFramesPerColumn ∨
    (total ≠ totalFramesUnknown ∧ tile.sourceRange.endFrame = total ∧
      total < tile.endColumn * wdtlFramesPerColumn)
  total : total ≠ totalFramesUnknown → tile.sourceRange.endFrame ≤ total
  columnsOk : ∀ column ∈ tile.columns, ColumnOk true column

/-- A final tile has a source of known duration. -/
def Tile.FinalKnown (total : ℕ) (tile : Tile) : Prop :=
  tile.state = stateFinal → total ≠ totalFramesUnknown

/-- The rules of the format for the tiles of a source, apart from the rule for final tiles. -/
structure TilesReadable (total : ℕ) (tiles : List Tile) : Prop where
  readable : ∀ tile ∈ tiles, tile.Readable total
  typed : ∀ tile ∈ tiles, ∀ column ∈ tile.columns, column.Typed
  sorted : (tiles.map Tile.key).IsChain (· < ·)
  count : tiles.length ≤ uint32Max
  packed : (tiles.flatMap Tile.columns).length ≤ uint32Max

/-- The columns of a readable tile are 32-bit numbers. -/
theorem Tile.Readable.columns_le {total : ℕ} {tile : Tile} (h : tile.Readable total) :
    tile.firstColumnIndex ≤ uint32Max ∧ tile.columns.length ≤ uint32Max := by
  have hindex : tile.tileIndex ≤ 67108863 := h.index
  have hfirst : tile.tileIndex * 64 ≤ tile.firstColumnIndex := h.inTile.1
  have hend : tile.firstColumnIndex + tile.columns.length ≤ tile.tileIndex * 64 + 64 := h.inTile.2
  have hpos := List.length_pos_iff.mpr h.columns
  show _ ≤ 4294967295 ∧ _ ≤ 4294967295
  omega

/-! ### From descriptors to tiles -/

section Records

variable {context : TileContext} (payload : Bytes)

theorem endColumn_tileOf (entry : TileEntry) : (tileOf payload entry).endColumn = entry.endColumn := by
  rw [Tile.endColumn, tileOf, TileEntry.endColumn, length_columns]

/-- What the reader asks of a descriptor and its columns is the rule for the tile. -/
theorem readable_tileOf_iff (entry : TileEntry) (hstrict : context.strict = true) :
    (TileFramesOk context entry ∧ ∀ column ∈ entry.columns payload, ColumnOk true column) ↔
      (entry.flags = 0 ∧ entry.reserved = 0) ∧
        (entry.state ≠ stateFinal → context.isPartial = true) ∧
        (tileOf payload entry).Readable context.totalSourceFrames := by
  have hend := endColumn_tileOf payload entry
  have hcolumns : (tileOf payload entry).columns ≠ [] ↔ entry.columnCount ≠ 0 := by
    rw [← List.length_pos_iff, tileOf, length_columns, Nat.pos_iff_ne_zero]
  constructor
  · rintro ⟨h, hok⟩
    refine ⟨h.reserved hstrict, h.unfinished, h.level, h.index, h.frames, hcolumns.mpr h.columns,
      h.state, rfl, h.confidence, ?_, h.first, ?_, h.total, hok⟩ <;>
      rw [hend]
    exacts [h.inTile, h.last]
  · rintro ⟨hreserved, hunfinished, h⟩
    have hin := h.inTile
    have hlast := h.last
    rw [hend] at hin hlast
    exact ⟨⟨h.level, h.index, h.frames, hcolumns.mp h.columns, h.state, h.confidence,
      fun _ => hreserved, hunfinished, hin, h.first, hlast, h.total⟩, h.columnsOk⟩

end Records

/-! ### The payload -/

/-- The fields of a descriptor are in the ranges of their types. -/
structure TileEntry.Typed (entry : TileEntry) : Prop where
  levelId : entry.levelId < 256 ^ 4
  tileIndex : entry.tileIndex < 256 ^ 4
  firstFrame : entry.firstFrame < 256 ^ 8
  endFrame : entry.endFrame < 256 ^ 8
  firstColumn : entry.firstColumn < 256 ^ 4
  columnCount : entry.columnCount < 256 ^ 4
  columnsOffset : entry.columnsOffset < 256 ^ 8
  state : entry.state < 256 ^ 4
  flags : entry.flags < 256 ^ 2
  confidence : entry.confidence < 256 ^ 1
  reserved : entry.reserved < 256 ^ 1

@[simp] theorem length_packTileEntry (entry : TileEntry) :
    (packTileEntry entry).length = wdtlTileSize := by
  simp only [packTileEntry, List.length_append, length_encode]

theorem tileEntryOf_packTileEntry {entry : TileEntry} (h : entry.Typed) :
    tileEntryOf (packTileEntry entry) = entry := by
  obtain ⟨hlevel, hindex, hfirst, hend, hcolumn, hcount, hoffset, hstate, hflags, hconfidence,
    hreserved⟩ := h
  simp (disch := first | assumption | decide) only [tileEntryOf, packTileEntry, List.append_assoc,
    field_skip, field_head, field_last, Nat.reduceSub]

section Entries

variable {columnsOffset packedOffset : ℕ} {tiles : List Tile} {entry : TileEntry}

@[simp] theorem length_tileEntries (columnsOffset packedOffset : ℕ) (tiles : List Tile) :
    (tileEntries columnsOffset packedOffset tiles).length = tiles.length := by
  induction tiles generalizing packedOffset with
  | nil => rfl
  | cons tile rest ih => rw [tileEntries, List.length_cons, ih, List.length_cons]

/-- The columns of the tiles lie one after another. -/
theorem mem_tileEntries (h : entry ∈ tileEntries columnsOffset packedOffset tiles) :
    columnsOffset + packedOffset * packedColumnSize ≤ entry.columnsOffset ∧
      entry.columnsOffset + entry.columnCount * packedColumnSize ≤
        columnsOffset + (packedOffset + (tiles.flatMap Tile.columns).length) * packedColumnSize ∧
      entry.flags = 0 ∧ entry.reserved = 0 := by
  induction tiles generalizing packedOffset with
  | nil => cases h
  | cons tile rest ih =>
      rw [List.flatMap_cons, List.length_append]
      rw [tileEntries, List.mem_cons] at h
      obtain rfl | h := h
      · refine ⟨le_rfl, ?_, rfl, rfl⟩
        show columnsOffset + packedOffset * 10 + tile.columns.length * 10 ≤ _ + _ * 10
        omega
      · obtain ⟨hfirst, hlast, hfields⟩ := ih h
        have hfirst' : columnsOffset + (packedOffset + tile.columns.length) * 10 ≤
          entry.columnsOffset := hfirst
        have hlast' : entry.columnsOffset + entry.columnCount * 10 ≤ columnsOffset +
          (packedOffset + tile.columns.length + (rest.flatMap Tile.columns).length) * 10 := hlast
        refine ⟨?_, ?_, hfields⟩
        · show _ + _ * 10 ≤ _
          omega
        · show _ + _ * 10 ≤ _ + _ * 10
          omega

theorem pairwise_tileEntries (columnsOffset packedOffset : ℕ) (tiles : List Tile) :
    (tileEntries columnsOffset packedOffset tiles).Pairwise fun entry other =>
      entry.columnsOffset + entry.columnCount * packedColumnSize ≤ other.columnsOffset := by
  induction tiles generalizing packedOffset with
  | nil => exact List.Pairwise.nil
  | cons tile rest ih =>
      rw [tileEntries]
      refine List.Pairwise.cons (fun other hother => ?_) (ih _)
      have hfirst := (mem_tileEntries hother).1
      rwa [Nat.add_mul, ← Nat.add_assoc] at hfirst

theorem tileColumns_tileEntries (columnsOffset packedOffset : ℕ) (tiles : List Tile) :
    tileColumns (tileEntries columnsOffset packedOffset tiles) =
      (tiles.flatMap Tile.columns).length := by
  induction tiles generalizing packedOffset with
  | nil => rfl
  | cons tile rest ih =>
      rw [List.flatMap_cons, List.length_append, ← ih (packedOffset + tile.columns.length)]
      exact List.sum_cons

/-- The descriptors of tiles decode to the tiles, when the columns lie behind what comes before. -/
theorem map_tileOf_tileEntries {columns : List Column} (h : ∀ column ∈ columns, column.Typed)
    (front : Bytes) {before : List Column} (hflags : ∀ tile ∈ tiles, tile.flags = 0)
    (hcolumns : columns = before ++ tiles.flatMap Tile.columns) :
    (tileEntries front.length before.length tiles).map (tileOf (front ++ packColumns columns)) =
      tiles := by
  induction tiles generalizing before with
  | nil => rfl
  | cons tile rest ih =>
      have hrest := @ih (before ++ tile.columns)
        (fun other hother => hflags other (List.mem_cons_of_mem tile hother))
        (by rw [hcolumns, List.flatMap_cons, List.append_assoc])
      rw [List.length_append] at hrest
      have hslice : slice columns before.length tile.columns.length = tile.columns := by
        rw [hcolumns, List.flatMap_cons, slice_append_middle]
      have hfits : before.length + tile.columns.length ≤ columns.length := by
        rw [hcolumns, List.flatMap_cons, List.length_append, List.length_append]
        omega
      rw [tileEntries, List.map_cons, hrest, tileOf, TileEntry.columns,
        columnTable_packColumns h front hfits, hslice, ← hflags tile List.mem_cons_self]

end Entries

end LibApta.Container
