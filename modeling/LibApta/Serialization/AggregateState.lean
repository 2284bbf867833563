import LibApta.Serialization.WriterAssembly

/-!
# The aggregate state of a written container

The outermost layer of the writer reads the states of the sections back from the container and marks
it as partial when one of them is not final. On a container the layers below wrote, what it reads are
the states of the result, so that the flags of the container follow from the result alone.
-/

namespace LibApta.Container

open LittleEndian Packing InPlace

/-! ## The states of a result -/

/-- The waveform of a result is not final. -/
def waveformUnfinished (data : ResultData) : Bool :=
  data.overview.any (fun overview => decide (overview.state ≠ stateFinal)) ||
    (decide (detailParts data ≠ []) && data.detailTiles.any Tile.unfinished)

/-- The segment of a grid is not final. -/
def Segment.unfinished (segment : Segment) : Bool := decide (segment.state ≠ stateFinal)

/-- A grid or one of its segments is not final. -/
def Grid.unfinished (grid : Grid) : Bool :=
  decide (grid.state ≠ stateFinal) || grid.segments.any Segment.unfinished

/-- The tempo or the local grid that is written is not final. -/
def tempoUnfinished (data : ResultData) : Bool :=
  (s4TempoIsValid data && data.tempo.any fun tempo => decide (tempo.selected.state ≠ stateFinal)) ||
    (s4GridIsValid data && data.localGrid.any Grid.unfinished)

/-- The global grid that is written is not final, or its revision is pending. -/
def gridUnfinished (data : ResultData) : Bool :=
  decide (Feature.globalBeatgrid ∈ data.availableFeatures) && data.globalGrid.any fun pair =>
    pair.1.unfinished || decide (pair.2.state = revisionPending)

/-- The flags of the container of a result. -/
def containerFlags (data : ResultData) : ℕ :=
  if waveformUnfinished data || tempoUnfinished data || gridUnfinished data then
    waveformFlags data ||| 2 ^ flagPartialResult
  else waveformFlags data

/-! ## Looking at sections -/

/-- Looking at sections notes whether one of them is not final. -/
def Inspects (parts : List Part) (unfinished : Bool) : Prop :=
  ∀ index state, ∃ state',
    Check.walk (fun _ (part : Part) => inspectPayload part.1 part.2) index parts state =
      .ok state' ∧ state'.partialRequired = (state.partialRequired || unfinished)

section Inspecting

variable {parts added : List Part} {unfinished unfinished' : Bool}

theorem inspects_nil : Inspects [] false := fun _ state =>
  ⟨state, rfl, (Bool.or_false _).symm⟩

theorem Inspects.cons {part : Part}
    (h : ∀ state, inspectPayload part.1 part.2 state = .ok (state.note unfinished))
    (hparts : Inspects parts unfinished') : Inspects (part :: parts) (unfinished || unfinished') := by
  intro index state
  obtain ⟨state', hwalk, hstate⟩ := hparts (index + 1) (state.note unfinished)
  refine ⟨state', Check.walk_cons_eq_ok.mpr ⟨_, h state, hwalk⟩, ?_⟩
  rw [hstate, AggregateState.note, Bool.or_assoc]

theorem Inspects.append (h : Inspects parts unfinished) (hadded : Inspects added unfinished') :
    Inspects (parts ++ added) (unfinished || unfinished') := by
  intro index state
  obtain ⟨middle, hwalk, hmiddle⟩ := h index state
  obtain ⟨state', hrest, hstate⟩ := hadded (index + parts.length) middle
  refine ⟨state', ?_, by rw [hstate, hmiddle, Bool.or_assoc]⟩
  rw [Check.walk_append, hwalk]
  exact hrest

theorem inspects_one {part : Part}
    (h : ∀ state, inspectPayload part.1 part.2 state = .ok (state.note unfinished)) :
    Inspects [part] unfinished := by
  have hone := inspects_nil.cons h
  rwa [Bool.or_false] at hone

end Inspecting

/-- Whether one of some records is not final, from the states in the records. -/
theorem any_unfinished {α : Type} {items : List α} {state : α → ℕ} {table : List Bytes}
    {width offset : ℕ} (h : table.map (fun record => field width record offset) = items.map state) :
    (table.any fun record => decide (field width record offset ≠ stateFinal)) =
      items.any fun item => decide (state item ≠ stateFinal) := by
  have hany := congrArg (fun states => states.any fun state => decide (state ≠ stateFinal)) h
  rwa [List.any_map, List.any_map] at hany

/-! ### Waveform -/

/-- The state of a written overview. -/
theorem inspectPayload_overview {overview : Overview} (h : overview.state ≤ stateFinal)
    (logicalColumnCount : ℕ) (state : AggregateState) :
    inspectPayload .overview (wovrPayload overview logicalColumnCount (overview.state % 8)) state =
      .ok (state.note (decide (overview.state ≠ stateFinal))) := by
  have hsmall : overview.state < 8 := h.trans_lt (by decide)
  have hflags : overview.state % 8 < 256 ^ 4 := by omega
  have hfield : field 4 (wovrPayload overview logicalColumnCount (overview.state % 8)) 40 =
      overview.state % 8 := by
    simp (disch := first | assumption | decide) only [wovrPayload, packWovrHeader, wovrHeaderFor,
      List.append_assoc, field_skip, field_head, Nat.reduceSub]
  refine Check.bind_eq_ok.mpr ⟨(), Check.rejectIf_eq_ok.mpr ?_, ?_⟩
  · rw [length_wovrPayload]
    omega
  · rw [hfield, Nat.mod_mod, Nat.mod_eq_of_lt hsmall]
    rfl

/-- The descriptors of tiles carry their states. -/
theorem map_state_tileEntries (columnsOffset packedOffset : ℕ) (tiles : List Tile) :
    (tileEntries columnsOffset packedOffset tiles).map TileEntry.state = tiles.map Tile.state := by
  induction tiles generalizing packedOffset with
  | nil => rfl
  | cons tile rest ih => exact congrArg (tile.state :: ·) (ih _)

/-- The states of written tiles. -/
theorem inspectPayload_detail {tiles : List Tile} (h : ∀ tile ∈ tiles, tile.state < 256 ^ 4)
    (hcount : tiles.length < 256 ^ 4) (state : AggregateState) :
    inspectPayload .detail (wdtlPayload tiles) state =
      .ok (state.note (tiles.any Tile.unfinished)) := by
  set entries := tileEntries (wdtlColumnsOffset tiles) 0 tiles with hentries
  have hwidth : ∀ record ∈ entries.map packTileEntry, record.length = wdtlTileSize := by
    intro record hrecord
    obtain ⟨entry, -, rfl⟩ := List.mem_map.mp hrecord
    exact length_packTileEntry entry
  have hheader : field 4 (wdtlPayload tiles) 0 = tiles.length ∧
      field 8 (wdtlPayload tiles) 8 = wdtlHeaderSize := by
    constructor <;>
      simp (disch := first | assumption | decide) only [wdtlPayload, List.append_assoc, field_skip,
        field_head, Nat.reduceSub]
  have hrecords : records wdtlTileSize (wdtlPayload tiles) wdtlHeaderSize tiles.length =
      entries.map packTileEntry := by
    have hflatten := records_flatten (encode 4 tiles.length ++ encode 4 0 ++ encode 8 wdtlHeaderSize)
      (packColumns (tiles.flatMap Tile.columns)) hwidth
    rw [List.length_append, List.length_append, length_encode, length_encode, length_encode,
      List.length_map, hentries, length_tileEntries] at hflatten
    exact hflatten
  have hstates : ((entries.map packTileEntry).any fun descriptor =>
      decide (field 4 descriptor 40 ≠ stateFinal)) = tiles.any Tile.unfinished := by
    have hfield : ∀ entry ∈ entries, field 4 (packTileEntry entry) 40 = entry.state := by
      intro entry hentry
      have hmem : entry.state ∈ entries.map TileEntry.state := List.mem_map_of_mem hentry
      rw [hentries, map_state_tileEntries] at hmem
      obtain ⟨tile, htile, hstate⟩ := List.mem_map.mp hmem
      have hsmall : entry.state < 256 ^ 4 := hstate ▸ h tile htile
      simp (disch := first | assumption | decide) only [packTileEntry, List.append_assoc,
        field_skip, field_head, Nat.reduceSub]
    refine any_unfinished ?_
    rw [List.map_map, ← map_state_tileEntries (wdtlColumnsOffset tiles) 0]
    exact List.map_congr_left hfield
  refine Check.bind_eq_ok.mpr ⟨(), Check.rejectIf_eq_ok.mpr ?_,
    Check.bind_eq_ok.mpr ⟨(), Check.rejectIf_eq_ok.mpr ?_, ?_⟩⟩
  · rw [length_wdtlPayload]
    omega
  · rw [hheader.1, hheader.2, Bool.not_eq_false, rangeFits_iff, length_wdtlPayload]
    exact Nat.le_add_right _ _
  · rw [hheader.1, hheader.2, hrecords, hstates]
    rfl

/-! ### Tempo and grids -/

/-- An allowed state takes one byte. -/
theorem stateAllowed_lt {isPartial : Bool} {state : ℕ} (h : stateAllowed isPartial state = true) :
    state < 256 ^ 1 := by
  simp only [stateAllowed, Bool.and_eq_true, decide_eq_true_eq] at h
  exact h.1.2.trans_lt (by decide)

/-- The state of a written tempo. -/
theorem inspectPayload_tempo {tempo : Tempo} (h : stateAllowed true tempo.selected.state = true)
    (state : AggregateState) :
    inspectPayload .tempo (s4WriteTemp tempo) state =
      .ok (state.note (decide (tempo.selected.state ≠ stateFinal))) := by
  have hsmall := stateAllowed_lt h
  have hfield : field 1 (s4WriteTemp tempo) 2 = tempo.selected.state := by
    simp (disch := first | assumption | decide) only [s4WriteTemp, packTempHeader,
      List.append_assoc, field_skip, field_head, Nat.reduceSub]
  refine Check.bind_eq_ok.mpr ⟨(), Check.rejectIf_eq_ok.mpr ?_, ?_⟩
  · rw [length_s4WriteTemp]
    omega
  · rw [hfield]
    rfl

/-- The states of a written local grid. -/
theorem inspectPayload_localGrid {grid : Grid} {segment : Segment}
    (h : stateAllowed true grid.state = true) (hsegment : stateAllowed true segment.state = true)
    (hsegments : grid.segments = [segment]) (state : AggregateState) :
    inspectPayload .localGrid (s4WriteGrid grid segment) state =
      .ok (state.note grid.unfinished) := by
  have hsmall := stateAllowed_lt h
  have hsegmentSmall := stateAllowed_lt hsegment
  have hfields : field 1 (s4WriteGrid grid segment) 2 = grid.state ∧
      field 1 (s4WriteGrid grid segment) 136 = segment.state := by
    constructor <;>
      simp (disch := first | assumption | decide) only [s4WriteGrid, packLgrdGrid, packLgrdSegment,
        List.append_assoc, field_skip, field_head, Nat.reduceSub]
  refine Check.bind_eq_ok.mpr ⟨(), Check.rejectIf_eq_ok.mpr ?_, ?_⟩
  · rw [length_s4WriteGrid]
    omega
  · rw [hfields.1, hfields.2, Grid.unfinished, hsegments, List.any_cons, List.any_nil,
      Bool.or_false]
    rfl

/-- The states of a written global grid. -/
theorem inspectPayload_globalGrid {grid : Grid} (h : stateAllowed true grid.state = true)
    (hcount : grid.segments.length < 256 ^ 4)
    (hsegments : ∀ segment ∈ grid.segments, stateAllowed true segment.state = true)
    (state : AggregateState) :
    inspectPayload .globalGrid (s6WriteGrid grid) state =
      .ok ({ state with globalGridState := grid.state }.note grid.unfinished) := by
  have hsmall := stateAllowed_lt h
  have hfields : field 1 (s6WriteGrid grid) 2 = grid.state ∧
      field 4 (s6WriteGrid grid) 16 = grid.segments.length := by
    constructor <;>
      simp (disch := first | assumption | decide) only [s6WriteGrid, packGgrdHeader,
        List.append_assoc, field_skip, field_head, Nat.reduceSub]
  have hrecords : records ggrdSegmentSize (s6WriteGrid grid) ggrdHeaderSize grid.segments.length =
      grid.segments.map packSegment := by
    have hflatten := @records_flatten ggrdSegmentSize (grid.segments.map packSegment)
      (packGgrdHeader grid) (grid.beats.map packBeat).flatten fun record hrecord => by
        obtain ⟨segment, -, rfl⟩ := List.mem_map.mp hrecord
        exact length_packSegment segment
    rw [length_packGgrdHeader, List.length_map] at hflatten
    exact hflatten
  have hstates : ((grid.segments.map packSegment).any fun segment =>
      decide (field 1 segment 72 ≠ stateFinal)) = grid.segments.any Segment.unfinished := by
    refine any_unfinished ?_
    rw [List.map_map]
    refine List.map_congr_left fun segment hmem => ?_
    have hsegment := stateAllowed_lt (hsegments segment hmem)
    simp (disch := first | assumption | decide) only [Function.comp, packSegment,
      List.append_assoc, field_skip, field_head, Nat.reduceSub]
  refine Check.bind_eq_ok.mpr ⟨(), Check.rejectIf_eq_ok.mpr ?_,
    Check.bind_eq_ok.mpr ⟨(), Check.rejectIf_eq_ok.mpr ?_, ?_⟩⟩
  · rw [length_s6WriteGrid]
    omega
  · rw [hfields.2, Bool.not_eq_false, rangeFits_iff, length_s6WriteGrid]
    exact Nat.le_add_right _ _
  · rw [hfields.1, hfields.2, hrecords, hstates]
    rfl

/-- The state of a written revision, behind its grid. -/
theorem inspectPayload_revision {revision : Revision}
    (h : revision.state = revisionPending ∨ revision.state = revisionApplied)
    {state : AggregateState}
    (hgrid : revision.state = revisionPending → state.globalGridState ≠ stateFinal) :
    inspectPayload .revision (s6WriteRevision revision) state =
      .ok (state.note (decide (revision.state = revisionPending))) := by
  have hsmall : revision.state < 256 ^ 1 := by
    obtain h | h := h <;> rw [h] <;> decide
  have hfield : field 1 (s6WriteRevision revision) 2 = revision.state := by
    simp (disch := first | assumption | decide) only [s6WriteRevision, List.append_assoc,
      field_skip, field_head, Nat.reduceSub]
  refine Check.bind_eq_ok.mpr ⟨(), Check.rejectIf_eq_ok.mpr ?_, ?_⟩
  · rw [length_s6WriteRevision]
    exact lt_irrefl _
  rw [hfield]
  by_cases hpending : revision.state = revisionPending
  · rw [if_pos hpending]
    refine Check.bind_eq_ok.mpr ⟨(), Check.rejectIf_eq_ok.mpr (hgrid hpending), ?_⟩
    rw [decide_eq_true hpending]
    rfl
  · rw [if_neg hpending]
    refine Check.bind_eq_ok.mpr ⟨(), Check.rejectIf_eq_ok.mpr
      (not_not.mpr (h.resolve_left hpending)), ?_⟩
    rw [decide_eq_false hpending, AggregateState.note, Bool.or_false]
    rfl

/-! ## Marking the container -/

section Patching

variable {data : ResultData} {flags : ℕ} {parts : List Part}
  (hfingerprint : data.fingerprint.length = 32)
  (hparts : ∀ part ∈ parts, part.1.isStandard = true) (hsize : containerSize parts ≤ uint64Max)

include hfingerprint hparts hsize

/-- A directory record leads to the payload of its section. -/
theorem inspectSection_partRecord {placed : ℕ × Part} (h : placed ∈ placeParts parts)
    (back : Bytes) (state : AggregateState) :
    inspectSection ⟨containerOf data flags parts ++ back, containerSize parts⟩ (partRecord placed)
      state = inspectPayload placed.2.1 placed.2.2 state := by
  obtain ⟨hmem, -, -, hlast⟩ := mem_placeParts h
  have htag := hparts _ hmem
  have hoffset : placed.1 < 256 ^ 8 :=
    lt_of_le_uint64Max (((Nat.le_add_right _ _).trans hlast).trans hsize)
  have hlength : placed.2.2.length < 256 ^ 8 :=
    lt_of_le_uint64Max (((Nat.le_add_left _ _).trans hlast).trans hsize)
  have hbytes := bytes_eq_encode htag
  have hstored : field 8 (partRecord placed) 16 = placed.2.2.length := by
    rw [partRecord, recordOf, hbytes]
    simp (disch := first | assumption | decide) only [List.append_assoc, field_skip, field_head,
      Nat.reduceSub]
  have hslice : slice (partRecord placed) 0 4 = placed.2.1.bytes := by
    rw [partRecord, recordOf, hbytes]
    simp only [List.append_assoc, slice_head]
  have hpayload : slice (containerOf data flags parts ++ back) placed.1 placed.2.2.length =
      placed.2.2 := by
    have hfront : (sealHeader (headerBytes data flags parts.length (containerSize parts)) ++
        ((placeParts parts).map partRecord).flatten).length = payloadStart parts.length := by
      rw [List.length_append, length_directory hparts,
        length_sealHeader (length_headerBytes hfingerprint _ _ _), payloadStart]
    have hpack := @slice_pack _ Part sectionAlignment (by decide) 0 Prod.snd
      (sealHeader (headerBytes data flags parts.length (containerSize parts)) ++
        ((placeParts parts).map partRecord).flatten) parts placed (by rwa [hfront])
    rw [hfront, List.append_assoc] at hpack
    rw [slice_append_left (by rwa [size_containerOf hfingerprint hparts])]
    exact hpack
  rw [inspectSection, offset_partRecord htag hoffset, hstored, hslice, hpayload,
    sectionTag_bytes htag]
  refine (congrArg₂ _ ?_ rfl).trans (Check.ok_bind () _)
  exact Check.rejectIf_eq_ok.mpr (by rw [Bool.not_eq_false, rangeFits_iff]; exact hlast)

/-- The writer marks a container whose sections it can look at when one of them is not final. -/
theorem patchAggregateState_containerOf {unfinished : Bool} (hinspects : Inspects parts unfinished)
    (hflags : flags < 256 ^ 4) (hcount : parts.length < 256 ^ 4) (back : Bytes) :
    patchAggregateState ⟨containerOf data flags parts ++ back, containerSize parts⟩ =
      .ok ⟨containerOf data (if unfinished then flags ||| 2 ^ flagPartialResult else flags) parts ++
        back, containerSize parts⟩ := by
  obtain ⟨hflagsField, hcountField, hdirectory⟩ := header_fields hfingerprint hflags hcount
    (((placeParts parts).map partRecord).flatten ++ packParts parts ++ back)
  have hstart := payloadStart_le parts
  rw [← List.append_assoc, ← containerOf] at hflagsField hcountField hdirectory
  obtain ⟨state, hwalk, hstate⟩ := hinspects 0 ⟨false, 0⟩
  have hrecords : Check.walk (fun _ => inspectSection
      ⟨containerOf data flags parts ++ back, containerSize parts⟩) 0
      (records directoryEntrySize (containerOf data flags parts ++ back) headerSize parts.length)
      ⟨false, 0⟩ = .ok state := by
    have hmap : (placeParts parts).map Prod.snd = parts := map_snd_place _ parts
    rw [records_containerOf hfingerprint hparts, Check.walk_map]
    refine (Check.walk_congr fun _ placed hplaced state' =>
      inspectSection_partRecord hfingerprint hparts hsize hplaced back state').trans ?_
    rw [← hmap, Check.walk_map] at hwalk
    exact hwalk
  rw [patchAggregateState]
  refine Check.bind_eq_ok.mpr ⟨(), Check.rejectIf_eq_ok.mpr ?_,
    Check.bind_eq_ok.mpr ⟨(), Check.rejectIf_eq_ok.mpr ?_, Check.bind_eq_ok.mpr ⟨state, ?_, ?_⟩⟩⟩
  · exact not_lt.mpr ((Nat.le_add_right _ _).trans hstart)
  · rw [hcountField, hdirectory, Bool.not_eq_false, rangeFits_iff]
    exact hstart
  · rw [hcountField, hdirectory]
    exact hrecords
  · rw [hstate, Bool.false_or]
    cases unfinished with
    | false => rfl
    | true =>
        rw [if_pos rfl, if_pos rfl, hflagsField]
        refine congrArg Except.ok (congrArg₂ Written.mk ?_ rfl)
        rw [containerOf, containerOf, List.append_assoc, List.append_assoc,
          patch_flags_eq hfingerprint, List.append_assoc, List.append_assoc]

end Patching

/-! ## The whole writer -/

section Writer

variable {data : ResultData} {options : Option SerializeOptions}

/-- Tiles have at least as many columns as there are tiles. -/
theorem TilesWritable.length_lt {total : ℕ} {tiles : List Tile} (h : TilesWritable total tiles) :
    tiles.length < 256 ^ 4 := by
  have hle : ∀ rest : List Tile, (∀ tile ∈ rest, tile.columns ≠ []) →
      rest.length ≤ (rest.flatMap Tile.columns).length := by
    intro rest hne
    induction rest with
    | nil => exact le_rfl
    | cons tile rest ih =>
        have hpos := List.length_pos_iff.mpr (hne tile List.mem_cons_self)
        have hrest := ih fun other hother => hne other (List.mem_cons_of_mem tile hother)
        rw [List.length_cons, List.flatMap_cons, List.length_append]
        omega
  exact lt_of_le_uint32Max ((hle tiles fun tile hmem => (h.readable tile hmem).columns).trans
    h.packed)

/-- The states of the waveform sections. -/
theorem inspects_waveform {overview : Overview} (hwritable : OverviewWritable data options overview)
    (hdetail : detailParts data ≠ [] → DetailWritable data options overview) :
    Inspects (waveformSections data) (waveformUnfinished data) := by
  rw [waveformSections_eq hwritable.present, waveformParts, waveformUnfinished, hwritable.present]
  refine Inspects.cons (inspectPayload_overview hwritable.state.2 _) ?_
  by_cases hnil : detailParts data = []
  · rw [hnil]
    exact inspects_nil
  · obtain ⟨htiles, -, -⟩ := hdetail hnil
    rw [decide_eq_true hnil, Bool.true_and, detailParts_of_ne_nil hnil]
    exact inspects_one (inspectPayload_detail (fun tile hmem =>
      (htiles.readable tile hmem).state.2.trans_lt (by decide)) htiles.length_lt)

/-- The state of metadata does not count. -/
theorem inspects_metadata : Inspects (metadataParts data) false := by
  rw [metadataParts]
  cases data.metadata with
  | none => exact inspects_nil
  | some metadata =>
      exact inspects_one fun state => congrArg Except.ok (by rw [AggregateState.note, Bool.or_false])

/-- The states of the tempo sections. -/
theorem inspects_s4 : Inspects (s4Parts data) (tempoUnfinished data) := by
  refine Inspects.append ?_ ?_
  · cases hvalid : s4TempoIsValid data with
    | false => exact inspects_nil
    | true =>
        cases htempo : data.tempo with
        | none => exact inspects_nil
        | some tempo =>
            simp only [s4TempoIsValid, htempo, Option.any_some, Bool.and_eq_true] at hvalid
            obtain ⟨-, ⟨⟨⟨-, hstate⟩, -⟩, -⟩, -⟩ := hvalid
            exact inspects_one (inspectPayload_tempo hstate)
  · cases hvalid : s4GridIsValid data with
    | false => exact inspects_nil
    | true =>
        cases hgrid : data.localGrid with
        | none => exact inspects_nil
        | some grid =>
            simp only [s4GridIsValid, hgrid, Option.any_some, Bool.and_eq_true,
              decide_eq_true_eq] at hvalid
            obtain ⟨-, ⟨⟨⟨⟨⟨⟨⟨-, hone⟩, -⟩, hstate⟩, -⟩, -⟩, -⟩, -⟩, hsegment⟩ := hvalid
            obtain ⟨segment, hsegments⟩ := List.length_eq_one_iff.mp hone
            rw [hsegments, List.head?_cons, Option.any_some] at hsegment
            simp only [Bool.and_eq_true] at hsegment
            rw [Option.toList_some, List.flatMap_singleton, if_pos rfl, hsegments]
            exact inspects_one (inspectPayload_localGrid hstate hsegment.2 hsegments)

/-- The states of the grid sections. -/
theorem inspects_s6 (hvalid : Feature.globalBeatgrid ∈ data.availableFeatures →
      s6GlobalIsValid data = true) (hcontradictory : resultIsContradictory data = false) :
    Inspects (s6Parts data) (gridUnfinished data) := by
  by_cases hfeature : Feature.globalBeatgrid ∈ data.availableFeatures
  · have hgridValid := hvalid hfeature
    rw [s6Parts, if_pos hfeature, gridUnfinished, decide_eq_true hfeature, Bool.true_and]
    cases hgrid : data.globalGrid with
    | none => exact inspects_nil
    | some pair =>
        simp only [resultIsContradictory, hgrid, hfeature, Option.any_some, decide_true,
          Bool.true_and, Bool.and_eq_false_iff, decide_eq_false_iff_not] at hcontradictory
        simp only [s6GlobalIsValid, hgrid, Option.any_some, Bool.and_eq_true, Bool.or_eq_true,
          decide_eq_true_eq, List.all_eq_true] at hgridValid
        obtain ⟨-, ⟨⟨⟨⟨⟨⟨⟨⟨⟨⟨⟨⟨⟨⟨⟨⟨⟨⟨⟨⟨⟨-, hstate⟩, -⟩, -⟩, hcount⟩, -⟩, -⟩, -⟩, -⟩, -⟩, -⟩, -⟩,
          hrevision⟩, -⟩, -⟩, -⟩, -⟩, -⟩, hsegments⟩, -⟩, -⟩, -⟩⟩ := hgridValid
        intro index state
        have hgridState := inspectPayload_globalGrid hstate (hcount.trans_lt (by decide))
          (fun segment hmem => (hsegments segment hmem).1.1.2) state
        have hrevisionState := @inspectPayload_revision pair.2 hrevision
          ({ state with globalGridState := pair.1.state }.note pair.1.unfinished)
          fun hpending => hcontradictory.resolve_right (not_not.mpr hpending)
        refine ⟨_, Check.walk_cons_eq_ok.mpr ⟨_, hgridState,
          Check.walk_cons_eq_ok.mpr ⟨_, hrevisionState, rfl⟩⟩, ?_⟩
        exact Bool.or_assoc _ _ _
  · rw [s6Parts, if_neg hfeature, gridUnfinished, decide_eq_false hfeature]
    exact inspects_nil

/-- What has a size has a waveform that is writable. -/
theorem waveform_of_querySerializedSizeS4 {size : ℕ}
    (h : resultQuerySerializedSizeS4 data options = .ok size) :
    ∃ overview, OverviewWritable data options overview ∧
      (detailParts data ≠ [] → DetailWritable data options overview) := by
  obtain ⟨_, hlayout, -⟩ := Check.bind_eq_ok.mp h
  obtain ⟨_, hmeta, -⟩ := Check.bind_eq_ok.mp hlayout
  obtain ⟨_, hlayout, -⟩ := Check.bind_eq_ok.mp hmeta
  obtain ⟨_, hwaveform, -⟩ := Check.bind_eq_ok.mp hlayout
  obtain ⟨overview, hwritable, hdetail, -⟩ := resultQuerySerializedSizeWaveform_eq_ok.mp hwaveform
  exact ⟨overview, hwritable, hdetail⟩

/-- The size query and the writer agree: a buffer with room for the size holds the container of the
result at its start, and is as it was behind it. A buffer without room, and a result the size query
refuses, are refused the same way. -/
theorem resultSerialize_eq (hfingerprint : data.fingerprint.length = 32) (buffer : Bytes) :
    resultSerialize data options buffer = do
      let size ← resultQuerySerializedSize data options
      requireRoom buffer.length size
      return ⟨containerOf data (containerFlags data) (writtenParts data) ++ buffer.drop size,
        size⟩ := by
  rw [resultSerialize, resultQuerySerializedSize, bind_assoc]
  refine Check.bind_congr_ok fun _ hcontradictory => ?_
  rw [(writes_s6 hfingerprint).written, bind_assoc]
  refine Check.bind_congr_ok fun size hquery => ?_
  rw [bind_assoc]
  refine Check.bind_congr_ok fun _ hroom => ?_
  obtain ⟨rfl, hsmall, -⟩ := (writes_s6 hfingerprint).size size hquery
  obtain ⟨layout, hlayout, -⟩ := Check.bind_eq_ok.mp hquery
  obtain ⟨baseSize, hbase, hlayout⟩ := Check.bind_eq_ok.mp hlayout
  obtain ⟨_, hvalid, -⟩ := Check.bind_eq_ok.mp hlayout
  obtain ⟨overview, hwritable, hdetail⟩ := waveform_of_querySerializedSizeS4 hbase
  have hinspects : Inspects (writtenParts data)
      (waveformUnfinished data || false || tempoUnfinished data || gridUnfinished data) :=
    (((inspects_waveform hwritable hdetail).append inspects_metadata).append inspects_s4).append
      (inspects_s6 (fun hfeature => ?_) ?_)
  · rw [Check.pure_eq_ok, Check.ok_bind, patchAggregateState_containerOf hfingerprint
      standard_writtenParts hsmall hinspects (waveformFlags_lt data)
      (length_writtenParts_le.trans_lt (by decide)), Bool.or_false]
    rfl
  · by_contra hinvalid
    exact Check.rejectIf_eq_ok.mp hvalid ⟨hfeature, Bool.not_eq_true _ ▸ hinvalid⟩
  · exact Bool.not_eq_true _ ▸ Check.rejectIf_eq_ok.mp hcontradictory

end Writer

end LibApta.Container
