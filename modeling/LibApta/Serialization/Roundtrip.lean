import LibApta.Serialization.WrittenSteps

/-!
# Round trips of the container

A storable result is read back from its container with the same content, and writing what was read
gives the same container. What the strict reader accepts is storable again, apart from final tiles of
a source of unknown duration, which the reader takes and the writer does not.
-/

namespace LibApta.Container

open LittleEndian Packing InPlace

/-! ## Writing what was read -/

section Again

variable {data base : ResultData} {overview : Overview} {feature : Feature}

/-- Which fields the detail layer sets. -/
theorem readDetail_eq (hbase : base.detailTiles = []) : readDetail data base =
    { base with
      detailTiles := if detailParts data = [] then [] else data.detailTiles
      availableFeatures := (readDetail data base).availableFeatures
      changedFeatures := (readDetail data base).changedFeatures } := by
  rw [readDetail]
  split
  · rw [← hbase]
  · rfl

/-- Which fields the tempo layer sets. -/
theorem readTempo_eq (hbase : base.tempo = none) : readTempo data base =
    { base with
      tempo := if s4TempoIsValid data then data.tempo else none
      availableFeatures := (readTempo data base).availableFeatures } := by
  rw [readTempo]
  split
  · rfl
  · rw [← hbase]

/-- Which fields the local grid layer sets. -/
theorem readLocalGrid_eq (hbase : base.localGrid = none) : readLocalGrid data base =
    { base with
      localGrid := if s4GridIsValid data then data.localGrid else none
      availableFeatures := (readLocalGrid data base).availableFeatures } := by
  rw [readLocalGrid]
  split
  · rfl
  · rw [← hbase]

/-- Which fields the grid layer sets. -/
theorem readGrid_eq (hbase : base.globalGrid = none) : readGrid data base =
    { base with
      globalGrid := if Feature.globalBeatgrid ∈ data.availableFeatures then data.globalGrid
        else none
      availableFeatures := (readGrid data base).availableFeatures } := by
  rw [readGrid]
  split
  · cases data.globalGrid with
    | none => rw [Option.map_none, Option.getD_none, ← hbase]
    | some pair => rfl
  · rw [← hbase]

/-- The features of an overview. -/
theorem mem_readOverview (hfeature : feature ≠ .waveform3Band) :
    feature ∈ (readOverview data overview).availableFeatures ↔ feature = .waveformOverview := by
  rw [readOverview]
  split_ifs <;> simp [hfeature]

theorem mem_readDetail : feature ∈ (readDetail data base).availableFeatures ↔
    feature ∈ base.availableFeatures ∨ (detailParts data ≠ [] ∧ feature = .waveformDetail) := by
  rw [readDetail]
  by_cases hnil : detailParts data = [] <;> simp [hnil, or_comm]

theorem mem_readTempo (hconfidence : feature ≠ .confidence) :
    feature ∈ (readTempo data base).availableFeatures ↔
      feature ∈ base.availableFeatures ∨ (s4TempoIsValid data = true ∧ feature = .bpm) := by
  rw [readTempo]
  cases s4TempoIsValid data <;> simp [hconfidence, or_comm]

theorem mem_readLocalGrid (hlocking : feature ≠ .gridLocking) :
    feature ∈ (readLocalGrid data base).availableFeatures ↔ feature ∈ base.availableFeatures ∨
      (s4GridIsValid data = true ∧ feature = .localBeatgrid) := by
  rw [readLocalGrid]
  cases s4GridIsValid data <;> cases data.localGrid.any Grid.isLocked <;>
    simp [hlocking, or_comm]

theorem mem_readGrid (hdynamic : feature ≠ .dynamicTempo) (hconfidence : feature ≠ .confidence) :
    feature ∈ (readGrid data base).availableFeatures ↔ feature ∈ base.availableFeatures ∨
      (Feature.globalBeatgrid ∈ data.availableFeatures ∧ data.globalGrid.isSome = true ∧
        feature = .globalBeatgrid) := by
  rw [readGrid]
  by_cases hfeature : Feature.globalBeatgrid ∈ data.availableFeatures
  · cases data.globalGrid with
    | none => simp
    | some pair =>
        rw [if_pos hfeature, Option.map_some, Option.getD_some, withGlobalGrid]
        split_ifs <;> simp [hfeature, hdynamic, hconfidence, or_comm]
  · simp [hfeature]

/-- Equal results have the fields that the writer looks at in common, apart from the confidence of
the overview, and what is not written may be missing. -/
structure SameContent (data data' : ResultData) : Prop where
  total : data'.totalSourceFrames = data.totalSourceFrames
  rate : data'.sourceSampleRate = data.sourceSampleRate
  channels : data'.sourceChannelCount = data.sourceChannelCount
  layout : data'.sourceChannelLayout = data.sourceChannelLayout
  kind : data'.fingerprintKind = data.fingerprintKind
  fingerprint : data'.fingerprint = data.fingerprint
  overview : data'.overview = data.overview.map fun overview =>
    { overview with confidence := unknownConfidence }
  tiles : data'.detailTiles = if detailParts data = [] then [] else data.detailTiles
  metadata : data'.metadata = data.metadata
  tempo : data'.tempo = if s4TempoIsValid data then data.tempo else none
  localGrid : data'.localGrid = if s4GridIsValid data then data.localGrid else none
  globalGrid : data'.globalGrid =
    if Feature.globalBeatgrid ∈ data.availableFeatures then data.globalGrid else none

/-- Which features of the result that is read back the writer looks at. -/
structure SameFeatures (data data' : ResultData) : Prop where
  overview : Feature.waveformOverview ∈ data'.availableFeatures
  detail : Feature.waveformDetail ∈ data'.availableFeatures ↔ detailParts data ≠ []
  bpm : Feature.bpm ∈ data'.availableFeatures ↔ s4TempoIsValid data = true
  localGrid : Feature.localBeatgrid ∈ data'.availableFeatures ↔ s4GridIsValid data = true
  globalGrid : Feature.globalBeatgrid ∈ data'.availableFeatures ↔
    Feature.globalBeatgrid ∈ data.availableFeatures ∧ data.globalGrid.isSome = true

/-- What is read back has the content and the features that were written. -/
theorem readBack_sameContent (h : data.overview = some overview) :
    SameContent data (readBack data overview) ∧
      (readBack data overview).sessionState =
        (if resultIsPartial data then .active else .completed) := by
  obtain ⟨detailed, changed, hdetail⟩ : ∃ available changed,
      readDetail data (readOverview data overview) =
        { readOverview data overview with
          detailTiles := if detailParts data = [] then [] else data.detailTiles
          availableFeatures := available
          changedFeatures := changed } := ⟨_, _, readDetail_eq rfl⟩
  have hread : readBack data overview = readGrid data (readLocalGrid data (readTempo data
      (readMetadata data (readDetail data (readOverview data overview))))) := rfl
  rw [hdetail, readMetadata, readTempo_eq rfl, readLocalGrid_eq rfl, readGrid_eq rfl] at hread
  rw [hread]
  exact ⟨⟨rfl, rfl, rfl, rfl, rfl, rfl, by rw [h]; rfl, rfl, rfl, rfl, rfl, rfl⟩, rfl⟩

theorem readBack_sameFeatures : SameFeatures data (readBack data overview) := by
  have hmem : ∀ feature, feature ≠ .waveform3Band → feature ≠ .dynamicTempo →
      feature ≠ .confidence → feature ≠ .gridLocking →
      (feature ∈ (readBack data overview).availableFeatures ↔
        ((((feature = .waveformOverview ∨ (detailParts data ≠ [] ∧ feature = .waveformDetail)) ∨
          (s4TempoIsValid data = true ∧ feature = .bpm)) ∨
          (s4GridIsValid data = true ∧ feature = .localBeatgrid)) ∨
          (Feature.globalBeatgrid ∈ data.availableFeatures ∧ data.globalGrid.isSome = true ∧
            feature = .globalBeatgrid))) := by
    intro feature h3Band hdynamic hconfidence hlocking
    rw [readBack, mem_readGrid hdynamic hconfidence, mem_readLocalGrid hlocking,
      mem_readTempo hconfidence, readMetadata, mem_readDetail, mem_readOverview h3Band]
  constructor <;> rw [hmem _ Feature.noConfusion Feature.noConfusion Feature.noConfusion
    Feature.noConfusion] <;> simp

variable {data' : ResultData}

theorem SameContent.s4TempoIsValid_eq (h : SameContent data data') (hf : SameFeatures data data') :
    s4TempoIsValid data' = s4TempoIsValid data := by
  cases hvalid : s4TempoIsValid data with
  | false =>
      rw [s4TempoIsValid, decide_eq_false fun hfeature =>
        Bool.noConfusion ((hf.bpm.mp hfeature).symm.trans hvalid), Bool.false_and]
  | true =>
      have htempo := h.tempo
      rw [if_pos hvalid] at htempo
      have hany := hvalid
      rw [s4TempoIsValid, Bool.and_eq_true] at hany
      rw [s4TempoIsValid, decide_eq_true (hf.bpm.mpr hvalid), htempo, hany.2, Bool.true_and]

theorem SameContent.s4GridIsValid_eq (h : SameContent data data') (hf : SameFeatures data data') :
    s4GridIsValid data' = s4GridIsValid data := by
  cases hvalid : s4GridIsValid data with
  | false =>
      rw [s4GridIsValid, decide_eq_false fun hfeature =>
        Bool.noConfusion ((hf.localGrid.mp hfeature).symm.trans hvalid), Bool.false_and]
  | true =>
      have hgrid := h.localGrid
      rw [if_pos hvalid] at hgrid
      have hany := hvalid
      rw [s4GridIsValid, Bool.and_eq_true] at hany
      rw [s4GridIsValid, decide_eq_true (hf.localGrid.mpr hvalid), hgrid, hany.2, Bool.true_and]

theorem SameContent.detailParts_eq (h : SameContent data data') (hf : SameFeatures data data') :
    detailParts data' = detailParts data := by
  by_cases hnil : detailParts data = []
  · rw [hnil, detailParts, if_pos (Or.inl fun hfeature => hf.detail.mp hfeature hnil)]
  · have htiles := h.tiles
    rw [if_neg hnil] at htiles
    have hne : data.detailTiles ≠ [] := fun hnone => hnil (detailParts_eq_nil.mpr (Or.inr hnone))
    rw [detailParts_of_ne_nil hnil, detailParts, htiles,
      if_neg (not_or.mpr ⟨not_not.mpr (hf.detail.mpr hnil), hne⟩)]

theorem SameContent.waveformSections_eq (h : SameContent data data')
    (hf : SameFeatures data data') : waveformSections data' = waveformSections data := by
  rw [waveformSections, waveformSections, h.overview]
  cases data.overview with
  | none => rfl
  | some overview =>
      simp only [Option.map_some, Option.toList_some, List.flatMap_singleton, waveformParts,
        h.detailParts_eq hf]
      rw [overviewPart, overviewPart, h.total]
      rfl

theorem SameContent.s4Parts_eq (h : SameContent data data') (hf : SameFeatures data data') :
    s4Parts data' = s4Parts data := by
  rw [s4Parts, s4Parts, h.s4TempoIsValid_eq hf, h.s4GridIsValid_eq hf, h.tempo, h.localGrid]
  split_ifs <;> rfl

theorem SameContent.s6Parts_eq (h : SameContent data data') (hf : SameFeatures data data') :
    s6Parts data' = s6Parts data := by
  rw [s6Parts, s6Parts, h.globalGrid, if_congr hf.globalGrid rfl rfl]
  by_cases hfeature : Feature.globalBeatgrid ∈ data.availableFeatures
  · cases data.globalGrid <;> simp [hfeature]
  · simp [hfeature]

/-- What was read back has the sections that were written. -/
theorem SameContent.writtenParts_eq (h : SameContent data data') (hf : SameFeatures data data') :
    writtenParts data' = writtenParts data := by
  rw [writtenParts, writtenParts, h.waveformSections_eq hf, h.s4Parts_eq hf, h.s6Parts_eq hf,
    metadataParts, metadataParts, h.metadata]

/-- What was read back of a result that has an overview is as partial as the result. -/
theorem SameContent.resultIsPartial_eq (h : SameContent data data') (hf : SameFeatures data data')
    (hsession : data'.sessionState = if resultIsPartial data then .active else .completed) :
    resultIsPartial data' = resultIsPartial data := by
  have hwaveform : waveformUnfinished data' = waveformUnfinished data := by
    have htiles : (decide (detailParts data ≠ []) && data'.detailTiles.any Tile.unfinished) =
        (decide (detailParts data ≠ []) && data.detailTiles.any Tile.unfinished) := by
      rw [h.tiles]
      by_cases hnil : detailParts data = [] <;> simp [hnil]
    rw [waveformUnfinished, waveformUnfinished, h.overview, h.detailParts_eq hf, htiles]
    cases data.overview <;> rfl
  have htempo : tempoUnfinished data' = tempoUnfinished data := by
    rw [tempoUnfinished, tempoUnfinished, h.s4TempoIsValid_eq hf, h.s4GridIsValid_eq hf, h.tempo,
      h.localGrid]
    cases s4TempoIsValid data <;> cases s4GridIsValid data <;> rfl
  have hgrid : gridUnfinished data' = gridUnfinished data := by
    rw [gridUnfinished, gridUnfinished, h.globalGrid]
    simp only [hf.globalGrid]
    by_cases hfeature : Feature.globalBeatgrid ∈ data.availableFeatures
    · simp only [hfeature, true_and, if_true]
      cases data.globalGrid <;> rfl
    · simp [hfeature]
  have hstate : decide (data'.sessionState ≠ .completed) = resultIsPartial data := by
    rw [hsession]
    cases resultIsPartial data <;> rfl
  rw [resultIsPartial, hstate, h.total, hwaveform, htempo, hgrid, resultIsPartial]
  cases decide (data.sessionState ≠ .completed) <;>
    cases decide (data.totalSourceFrames = totalFramesUnknown) <;>
    cases waveformUnfinished data <;> cases tempoUnfinished data <;> cases gridUnfinished data <;>
    rfl

/-- Writing what was read back of a container gives the container. -/
theorem writtenBytes_readBack (h : data.overview = some overview) :
    writtenBytes (readBack data overview) = writtenBytes data := by
  obtain ⟨hcontent, hsession⟩ := readBack_sameContent h
  have hf : SameFeatures data (readBack data overview) := readBack_sameFeatures
  have hoverview : (readBack data overview).overview =
      some { overview with confidence := unknownConfidence } := by
    rw [hcontent.overview, h]
    rfl
  have hflags : containerFlags (readBack data overview) = containerFlags data := by
    rw [containerFlags_eq hoverview, containerFlags_eq h, hcontent.resultIsPartial_eq hf hsession,
      hcontent.total]
  rw [writtenBytes, writtenBytes, hflags, hcontent.writtenParts_eq hf, containerOf, containerOf,
    headerBytes, headerBytes, hcontent.total, hcontent.rate, hcontent.channels, hcontent.layout,
    hcontent.fingerprint, hcontent.kind]

/-- What was read back is storable again. -/
theorem Storable.again (h : Storable data overview) :
    Storable (readBack data overview) { overview with confidence := unknownConfidence } := by
  obtain ⟨hcontent, -⟩ := readBack_sameContent h.present
  have hf : SameFeatures data (readBack data overview) := readBack_sameFeatures
  have htempo := hcontent.s4TempoIsValid_eq hf
  have hgrid := hcontent.s4GridIsValid_eq hf
  refine ⟨⟨?_, ?_, ?_, ?_, ?_, ?_, ?_⟩, hf.overview, ?_, ?_, ?_, ?_, ?_, ?_, ?_⟩
  · rw [hcontent.total]
    exact h.source.total
  · rw [hcontent.rate]
    exact h.source.rate
  · rw [hcontent.channels]
    exact h.source.channels
  · rw [hcontent.layout]
    exact h.source.layout
  · rw [hcontent.fingerprint]
    exact h.source.fingerprint
  · rw [hcontent.kind]
    exact h.source.kind
  · rw [hcontent.kind, hcontent.fingerprint]
    exact h.source.noFingerprint
  · rw [hcontent.overview, h.present]
    rfl
  · rw [hcontent.total]
    exact { h.stored with }
  · rw [hcontent.detailParts_eq hf, hcontent.total, hcontent.tiles]
    intro hne
    rw [if_neg hne]
    exact h.tiles hne
  · rw [hcontent.metadata]
    exact h.metadata
  · rw [htempo, hcontent.tempo]
    intro hvalid
    rw [if_pos hvalid]
    exact h.tempo hvalid
  · rw [htempo, hgrid, hcontent.tempo, hcontent.localGrid]
    intro hvalid
    rw [if_pos hvalid, if_pos (h.localGrid hvalid).1]
    exact h.localGrid hvalid
  · rw [htempo, hcontent.globalGrid]
    intro hfeature
    rw [if_pos (hf.globalGrid.mp hfeature).1]
    exact h.globalGrid (hf.globalGrid.mp hfeature).1

end Again

/-! ## Limits of the reader -/

/-- The options of the reader leave room for the container of a result: for its bytes, its sections,
its spans, columns and tiles, and for the memory of the result and of the check on its tiles. -/
structure WithinLimits (sizes : Sizes) (options : Option ParseOptions) (data : ResultData)
    (overview : Overview) : Prop where
  valid : optionsValid options = true
  fileBytes : containerSize (writtenParts data) ≤ (effectiveOptions options).maximumFileBytes
  sections : (writtenParts data).length ≤ (effectiveOptions options).maximumSectionCount
  spans : overview.spans.length ≤ (effectiveOptions options).maximumOverviewSpans
  logical : overview.logicalColumns data.totalSourceFrames ≤
    (effectiveOptions options).maximumWaveformColumns
  columns : overview.columns.length ≤ columnLimit options
  tiles : detailParts data ≠ [] → data.detailTiles.length ≤ columnLimit options ∧
    (data.detailTiles.flatMap Tile.columns).length ≤ columnLimit options
  memory : Affordable options (charge sizes data + data.detailTiles.length * intervalSize)

section Limits

variable {sizes : Sizes} {options : Option ParseOptions} {data : ResultData} {overview : Overview}

/-- What is read back takes no more memory than the result. -/
theorem charge_readBack_le (h : data.overview = some overview) :
    charge sizes (readBack data overview) ≤ charge sizes data := by
  obtain ⟨hcontent, -⟩ := readBack_sameContent h
  have htiles : detailCharge sizes (if detailParts data = [] then [] else data.detailTiles) ≤
      detailCharge sizes data.detailTiles := by
    split
    · rw [detailCharge, List.length_nil, List.map_nil, List.sum_nil, Nat.zero_mul, Nat.zero_mul]
      exact Nat.zero_le _
    · exact le_rfl
  have htempo : tempoCharge sizes (if s4TempoIsValid data then data.tempo else none) ≤
      tempoCharge sizes data.tempo := by
    split
    · exact le_rfl
    · rw [tempoCharge, Option.map_none, Option.getD_none, Nat.zero_mul]
      exact Nat.zero_le _
  have hlocal : localGridCharge sizes (if s4GridIsValid data then data.localGrid else none) ≤
      localGridCharge sizes data.localGrid := by
    split
    · exact le_rfl
    · simp [localGridCharge]
  have hgrid : globalGridCharge sizes (if Feature.globalBeatgrid ∈ data.availableFeatures then
      data.globalGrid else none) ≤ globalGridCharge sizes data.globalGrid := by
    split
    · exact le_rfl
    · exact Nat.zero_le _
  have hoverview : overviewCharge sizes (readBack data overview).overview =
      overviewCharge sizes data.overview := by
    rw [hcontent.overview, h]
    rfl
  rw [charge_eq, charge_eq, hoverview, hcontent.tiles, hcontent.metadata, hcontent.tempo,
    hcontent.localGrid, hcontent.globalGrid]
  omega

/-- The reader has room for the container. -/
theorem Storable.fits (h : Storable data overview)
    (hsize : containerSize (writtenParts data) ≤ uint64Max)
    (hlimits : WithinLimits sizes options data overview) :
    Fits sizes options (writtenBytes data) (writtenInput data overview)
      (writtenHeader data overview) (spanEntries 0 overview.spans) (readBack data overview) := by
  have hlength : (writtenBytes data).length = containerSize (writtenParts data) := by
    rw [writtenBytes]
    exact size_containerOf h.source.fingerprint standard_writtenParts _
  have hpacked : packedColumns (spanEntries 0 overview.spans) = overview.columns.length := by
    have hspans := congrArg (fun spans => (spans.map fun span : Span => span.columns.length).sum)
      (h.stored.map_spanOf overview.state)
    rw [Overview.columns, List.length_flatMap, ← hspans, packedColumns, List.map_map]
    refine congrArg List.sum (List.map_congr_left fun entry _ => ?_)
    show _ = (entry.columns _ _).length
    rw [SpanEntry.columns, columnTable, List.length_map, length_records]
  have hoverview : charge sizes (readOverview data overview) = sizes.result +
      overview.spans.length * sizes.span + overview.columns.length * sizes.column := by
    rw [← h.overviewData_eq hsize, charge_overviewData sizes (length_spanEntries 0 _), hpacked]
    rfl
  have hcharge := charge_eq sizes data
  have hspans : overviewCharge sizes data.overview =
      overview.spans.length * sizes.span + overview.columns.length * sizes.column := by
    rw [h.present, overviewCharge, Option.map_some, Option.getD_some, Overview.columns,
      List.length_flatMap]
  obtain ⟨hmemory, hsmall⟩ := hlimits.memory
  refine ⟨⟨⟨?_, ?_⟩, ⟨hlimits.spans, hlimits.logical⟩, ?_, ?_⟩, fun hsections => ?_, ?_⟩
  · rw [hlength]
    exact hlimits.fileBytes
  · rw [h.headerOf_writtenBytes hsize]
    exact hlimits.sections
  · rw [hpacked]
    exact hlimits.columns
  · rw [hpacked]
    show _ + overview.spans.length * _ + _ ≤ _
    omega
  · have hdetail : detailParts data ≠ [] := fun hnil =>
      hsections ((h.sections_detail hsize).mpr hnil)
    have hcolumns : tileColumns (tileEntries (wdtlColumnsOffset data.detailTiles) 0
        data.detailTiles) = (data.detailTiles.map fun tile => tile.columns.length).sum := by
      rw [tileColumns_tileEntries, List.length_flatMap]
    rw [h.overviewData_eq hsize, detailNeeded, h.tilesOf_writtenBytes hsize hdetail,
      length_tileEntries, hcolumns, Nat.mul_add]
    have htiles : detailCharge sizes data.detailTiles = data.detailTiles.length * sizes.tile +
        (data.detailTiles.map fun tile => tile.columns.length).sum * sizes.column := rfl
    exact ⟨by omega, by omega⟩
  · have hle := @charge_readBack_le sizes data overview h.present
    exact ⟨by omega, by omega⟩

end Limits

/-! ## Round trips -/

/-- A sample result: a final overview of two silent columns, a detail tile of one column, and a tempo
with one candidate, for a source of a hundred frames. -/
def sampleColumn : Column := ⟨0, 0, 0, 0, 0, 0, 1⟩
@[inherit_doc sampleColumn] def sampleOverview : Overview :=
  ⟨0, 64, 0, stateFinal, unknownConfidence, [⟨⟨0, 100⟩, 0, [sampleColumn, sampleColumn]⟩]⟩
@[inherit_doc sampleColumn] def sampleTile : Tile :=
  ⟨wdtlLevelId, 0, ⟨0, 100⟩, 0, statePartial, unknownConfidence, 0, [sampleColumn]⟩
@[inherit_doc sampleColumn] def sampleTempo : Tempo :=
  ⟨⟨stateProvisional, 60, 0, 120000, 1, ⟨0, 100⟩, ⟨0, 100⟩⟩, [⟨120000, 9, 60, 0, 0⟩]⟩
@[inherit_doc sampleColumn] def sampleResult : ResultData where
  specificationMajor := 1
  specificationMinor := 0
  producerApiVersion := 1
  containerVersion := 1
  generation := 7
  availableFeatures := {.waveformOverview, .waveformDetail, .bpm}
  changedFeatures := {.bpm}
  sessionState := .active
  totalSourceFrames := 100
  sourceSampleRate := 44100
  sourceChannelCount := 2
  sourceChannelLayout := 1
  fingerprintKind := 0
  fingerprint := List.replicate 32 0
  overview := some sampleOverview
  detailTiles := [sampleTile]
  metadata := none
  tempo := some sampleTempo
  localGrid := none
  globalGrid := none

section Roundtrip

/-- For each result there is one container. Whatever the options and the buffer, the writer answers as
the size query does, and where the query answers, the size is that of the container: the writer puts
it at the start of the buffer and leaves the rest alone, or finds the buffer too small. -/
theorem exists_container_resultSerialize {data : ResultData}
    (hfingerprint : data.fingerprint.length = 32) :
    ∃ bytes : Bytes, ∀ options buffer,
      (∀ stop, resultQuerySerializedSize data options = .error stop →
        resultSerialize data options buffer = .error stop) ∧
      ∀ size, resultQuerySerializedSize data options = .ok size → size = bytes.length ∧
        resultSerialize data options buffer =
          if buffer.length < bytes.length then Check.reject (.error .bufferTooSmall)
          else .ok ⟨bytes ++ buffer.drop bytes.length, bytes.length⟩ := by
  refine ⟨writtenBytes data, fun options buffer => ⟨fun stop hquery => ?_, fun size hquery => ?_⟩⟩
  · rw [resultSerialize_eq hfingerprint, hquery]
    rfl
  · obtain ⟨-, hparts, hsmall, -⟩ := resultQuerySerializedSize_of_ok hfingerprint hquery
    have hlength : size = (writtenBytes data).length := by
      rw [writtenBytes, size_containerOf hfingerprint standard_writtenParts, hparts]
    refine ⟨hlength, ?_⟩
    rw [resultSerialize_eq hfingerprint, hquery, Check.ok_bind, hlength, writtenBytes]
    rw [writtenBytes] at hlength
    split
    case isTrue hshort =>
      have hfits : Check.rejectIf (uint64Max <
          (containerOf data (containerFlags data) (writtenParts data)).length)
          (Status.error .limitExceeded) = .ok () := Check.rejectIf_eq_ok.mpr (by omega)
      rw [requireRoom, hfits, Check.ok_bind, Check.rejectIf, if_pos hshort]
      rfl
    case isFalse hroom =>
      have henough : requireRoom buffer.length
          (containerOf data (containerFlags data) (writtenParts data)).length = .ok () :=
        requireRoom_eq_ok.mpr ⟨by omega, by omega⟩
      rw [henough]
      rfl

theorem exists_container_sampleResult : ∃ bytes : Bytes, ∀ options buffer,
    (∀ stop, resultQuerySerializedSize sampleResult options = .error stop →
      resultSerialize sampleResult options buffer = .error stop) ∧
    ∀ size, resultQuerySerializedSize sampleResult options = .ok size → size = bytes.length ∧
      resultSerialize sampleResult options buffer =
        if buffer.length < bytes.length then Check.reject (.error .bufferTooSmall)
        else .ok ⟨bytes ++ buffer.drop bytes.length, bytes.length⟩ :=
  exists_container_resultSerialize rfl

/-- What is written for a storable result is read back, and written again. -/
theorem Storable.roundtrip {sizes : Sizes} {data : ResultData} {overview : Overview}
    {writeOptions : Option SerializeOptions} {readOptions : Option ParseOptions} {buffer : Bytes}
    {context : Context} {size : ℕ} (h : Storable data overview)
    (hquery : resultQuerySerializedSize data writeOptions = .ok size)
    (hroom : size ≤ buffer.length) (hlimits : WithinLimits sizes readOptions data overview)
    (hgenerous : context.heap.Generous) :
    ∃ written parsed next, resultSerialize data writeOptions buffer = .ok written ∧
      resultParse sizes readOptions (written.buffer.take written.size) context =
        ⟨.ok (), some parsed, next⟩ ∧
      SameContent data parsed.data ∧
      resultSerialize parsed.data writeOptions buffer = .ok written := by
  obtain ⟨hoptions, rfl, hsmall, hallowed⟩ := h.querySize_iff.mp hquery
  have hlength : (writtenBytes data).length = containerSize (writtenParts data) := by
    rw [writtenBytes]
    exact size_containerOf h.source.fingerprint standard_writtenParts _
  obtain ⟨parsed, next, hparse, hdata⟩ := resultParse_of_accepts hgenerous
    (h.accepts hsmall hlimits.valid hlimits.tiles) (h.fits hsmall hlimits)
  have hfeatures : SameFeatures data (readBack data overview) := readBack_sameFeatures
  obtain ⟨hcontent, -⟩ := readBack_sameContent h.present
  have hagainQuery : resultQuerySerializedSize (readBack data overview) writeOptions =
      .ok (containerSize (writtenParts data)) := by
    rw [h.again.querySize_iff, hcontent.writtenParts_eq hfeatures]
    exact ⟨hoptions, rfl, hsmall, hallowed⟩
  -- what the writer leaves is the container and the rest of the buffer
  have hwrite : ∀ source : ResultData, source.fingerprint.length = 32 →
      writtenBytes source = writtenBytes data →
      resultQuerySerializedSize source writeOptions = .ok (containerSize (writtenParts data)) →
      resultSerialize source writeOptions buffer =
        .ok ⟨writtenBytes data ++ buffer.drop (containerSize (writtenParts data)),
          containerSize (writtenParts data)⟩ := by
    intro source hfingerprint hsame hsource
    have henough : requireRoom buffer.length (containerSize (writtenParts data)) = .ok () :=
      requireRoom_eq_ok.mpr ⟨hsmall, hroom⟩
    rw [resultSerialize_eq hfingerprint, hsource, Check.ok_bind, henough, ← hsame, writtenBytes]
    rfl
  refine ⟨_, parsed, next, hwrite data h.source.fingerprint rfl hquery, ?_, hdata ▸ hcontent, ?_⟩
  · rw [List.take_left' hlength]
    exact hparse
  · rw [hdata]
    exact hwrite _ h.again.source.fingerprint (writtenBytes_readBack h.present) hagainQuery

end Roundtrip

end LibApta.Container
