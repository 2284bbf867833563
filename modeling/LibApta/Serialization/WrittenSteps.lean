import LibApta.Serialization.ReadBack
import LibApta.Serialization.Relaxation

/-!
# The reader takes a written container

Each stage of the reader takes its step on the container of a storable result, and the steps lead to
`readBack`.
-/

namespace LibApta.Container

open LittleEndian Packing InPlace

/-- The container of a result. Nothing below needs to look inside. -/
@[irreducible] def writtenBytes (data : ResultData) : Bytes :=
  containerOf data (containerFlags data) (writtenParts data)

/-- What the readers find in the container of a result. -/
def writtenInput (data : ResultData) (overview : Overview) : WovrInput :=
  ⟨headerOf (writtenBytes data), (overviewPart data overview).2⟩

/-- The header of the overview of a container. -/
def writtenHeader (data : ResultData) (overview : Overview) : WovrHeader :=
  wovrHeaderFor overview (overview.logicalColumns data.totalSourceFrames) overview.state

theorem detailStep_of_nil {options : Option ParseOptions} {bytes : Bytes} {data : ResultData}
    (h : sections bytes .detail = []) : DetailStep options bytes data data := by
  rw [DetailStep, if_pos h]

theorem detailStep_of_ne_nil {options : Option ParseOptions} {bytes : Bytes}
    {data data' : ResultData} (h : sections bytes .detail ≠ [])
    (haccepted : DetailAccepted options bytes) (hdata : data' = withDetail bytes data) :
    DetailStep options bytes data data' := by
  rw [DetailStep, if_neg h]
  exact ⟨haccepted, hdata⟩

/-- A state allowed in a partial result, and final in another one. -/
theorem stateAllowed_of_final {isPartial : Bool} {state : ℕ} (h : stateAllowed true state = true)
    (hfinal : isPartial = false → state = stateFinal) : stateAllowed isPartial state = true := by
  cases isPartial with
  | true => exact h
  | false =>
      rw [hfinal rfl]
      rfl

/-- A local grid that is written is there. -/
theorem localGrid_of_s4GridIsValid {data : ResultData} (h : s4GridIsValid data = true) :
    ∃ grid, data.localGrid = some grid := by
  rw [s4GridIsValid, Bool.and_eq_true, Option.any_eq_true] at h
  obtain ⟨-, grid, hgrid, -⟩ := h
  exact ⟨grid, hgrid⟩

section Steps

variable {data : ResultData} {overview : Overview} {options : Option ParseOptions}
  (h : Storable data overview) (hsize : containerSize (writtenParts data) ≤ uint64Max)

include h hsize

/-- The header of the container reads back. -/
theorem Storable.headerOf_writtenBytes :
    headerOf (writtenBytes data) =
      { headerSize := 96
        containerVersion := 1
        specificationMajor := specVersionMajor
        specificationMinor := specVersionMinor
        producerApiVersion := apiVersion
        containerFlags := containerFlags data
        sectionCount := (writtenParts data).length
        directoryOffset := 96
        totalFileSize := containerSize (writtenParts data)
        totalSourceFrames := data.totalSourceFrames
        sourceSampleRate := data.sourceSampleRate
        sourceChannelCount := data.sourceChannelCount
        sourceChannelLayout := data.sourceChannelLayout
        fingerprint := data.fingerprint
        fingerprintKind := data.fingerprintKind
        crc := crc32c (headerBytes data (containerFlags data) (writtenParts data).length
          (containerSize (writtenParts data))) } := by
  rw [writtenBytes]
  exact headerOf_containerOf h.source (containerFlags_bits h.present).1
    (length_writtenParts_le.trans (by decide)) hsize

theorem Storable.total_writtenBytes :
    (headerOf (writtenBytes data)).totalSourceFrames = data.totalSourceFrames := by
  rw [h.headerOf_writtenBytes hsize]

/-- The container says whether the result is partial. -/
theorem Storable.isPartial_writtenBytes :
    (headerOf (writtenBytes data)).isPartial = resultIsPartial data := by
  rw [h.headerOf_writtenBytes hsize]
  exact (containerFlags_bits h.present).2.1

/-- A section of the container, as the lookups see it. -/
theorem Storable.foundAt_writtenBytes (tag : SectionTag) :
    foundAt (writtenBytes data) tag = foundIn tag 0 (writtenParts data) := by
  rw [writtenBytes]
  exact foundAt_containerOf h.source (flagsOk_containerFlags h.present)
    (partsOk_writtenParts h.present hsize) tag

theorem Storable.payloads_writtenBytes (tag : SectionTag) :
    payloads (writtenBytes data) tag = (foundIn tag 0 (writtenParts data)).map Found.payload := by
  rw [← h.foundAt_writtenBytes hsize, map_payload_foundAt]

/-- The validator takes the container. -/
theorem Storable.containerOk (strict : Bool) :
    ContainerOk strict (writtenBytes data) (writtenInput data overview) := by
  rw [writtenInput, writtenBytes]
  exact containerOk_containerOf h.source (flagsOk_containerFlags h.present)
    (partsOk_writtenParts h.present hsize) strict

omit hsize in
theorem Storable.overviewPart_eq : (overviewPart data overview).2 =
    wovrPayload overview (overview.logicalColumns data.totalSourceFrames) overview.state := by
  rw [overviewPart, h.stored.state_mod]

omit hsize in
/-- An overview that is not final makes the result partial. -/
theorem Storable.partial_of_overview (hstate : overview.state ≠ stateFinal) :
    resultIsPartial data = true := by
  simp [resultIsPartial, waveformUnfinished, h.present, hstate]

/-- The base layer takes the overview. -/
theorem Storable.baseOk (hvalid : optionsValid options = true) :
    BaseOk options (writtenBytes data) (writtenInput data overview) (writtenHeader data overview)
      (spanEntries 0 overview.spans) := by
  refine ⟨hvalid, h.containerOk hsize _, ?_⟩
  have hgeometry := @Overview.Stored.geometryOk data.totalSourceFrames overview
    (headerOf (writtenBytes data)) h.stored (h.total_writtenBytes hsize) fun hstate => by
      rw [h.isPartial_writtenBytes hsize]
      exact h.partial_of_overview hstate
  rw [← h.overviewPart_eq] at hgeometry
  exact hgeometry.weaken fun _ => rfl

theorem Storable.hardeningOk :
    HardeningOk (headerOf (writtenBytes data)).totalSourceFrames (writtenHeader data overview)
      (spanEntries 0 overview.spans) := by
  rw [h.total_writtenBytes hsize]
  exact h.stored.hardeningOk

/-- The base layer reads the overview back. -/
theorem Storable.overviewData_eq :
    overviewData (writtenInput data overview) (writtenHeader data overview)
      (spanEntries 0 overview.spans) = readOverview data overview := by
  have hspans := h.stored.map_spanOf overview.state
  rw [← h.overviewPart_eq] at hspans
  have hcolumns : ((spanEntries 0 overview.spans).flatMap fun entry =>
      entry.columns (overviewPart data overview).2 (writtenHeader data overview)) =
      overview.columns := by
    have hflat := congrArg (List.flatMap Span.columns) hspans
    rwa [List.flatMap_map] at hflat
  have hstate : (writtenHeader data overview).state = overview.state := h.stored.state_mod
  rw [overviewData, writtenInput, hcolumns, baseData, h.isPartial_writtenBytes hsize, hstate,
    h.headerOf_writtenBytes hsize, writtenHeader, hspans, readOverview]
  rfl

/-- The payloads of the detail sections of the container. -/
theorem Storable.payloads_detail :
    payloads (writtenBytes data) .detail = (detailParts data).map Prod.snd := by
  rw [h.payloads_writtenBytes hsize, foundIn_detail h.present, detailParts]
  split <;> rfl

/-- The container has a detail section if the result has detail. -/
theorem Storable.sections_detail :
    sections (writtenBytes data) .detail = [] ↔ detailParts data = [] := by
  rw [← List.map_eq_nil_iff (f := fun entry => Entry.payload entry (writtenBytes data)),
    ← payloads, h.payloads_detail hsize, List.map_eq_nil_iff]

/-- The descriptors of the tiles in the container. -/
theorem Storable.tilesOf_writtenBytes (hdetail : detailParts data ≠ []) :
    tilesOf (writtenBytes data) (sections (writtenBytes data) .detail) =
      tileEntries (wdtlColumnsOffset data.detailTiles) 0 data.detailTiles := by
  rw [tilesOf_eq, h.payloads_detail hsize, detailParts_of_ne_nil hdetail, List.map_singleton,
    List.flatMap_singleton, (h.tiles hdetail).1.tileTable]

/-- The detail stage reads the tiles back. -/
theorem Storable.detailStep
    (hcount : detailParts data ≠ [] → data.detailTiles.length ≤ columnLimit options ∧
      (data.detailTiles.flatMap Tile.columns).length ≤ columnLimit options) (base : ResultData) :
    DetailStep options (writtenBytes data) base (readDetail data base) := by
  have hcontainer := h.containerOk hsize (isStrict options)
  have hpayloads := h.payloads_detail hsize
  have hsections := h.sections_detail hsize
  rw [readDetail]
  by_cases hnil : detailParts data = []
  · rw [if_pos hnil]
    exact detailStep_of_nil (hsections.mpr hnil)
  rw [if_neg hnil]
  obtain ⟨htiles, hknown⟩ := h.tiles hnil
  rw [detailParts_of_ne_nil hnil, List.map_singleton] at hpayloads
  have hne : data.detailTiles ≠ [] := fun hnone =>
    hnil (detailParts_eq_nil.mpr (Or.inr hnone))
  have hdecoded : decodedTiles (writtenBytes data) (sections (writtenBytes data) .detail) =
      data.detailTiles := by
    rw [decodedTiles_eq, hpayloads, List.flatMap_singleton, htiles.tileTable, htiles.map_tileOf]
  have htable := h.tilesOf_writtenBytes hsize hnil
  have hsorted : data.detailTiles.Pairwise fun tile other => tile.key < other.key :=
    List.pairwise_map.mp (List.isChain_iff_pairwise.mp htiles.sorted)
  have hunfinished : (∃ tile ∈ data.detailTiles, tile.state ≠ stateFinal) →
      (headerOf (writtenBytes data)).isPartial = true := by
    rintro ⟨tile, hmem, hstate⟩
    have hany : data.detailTiles.any Tile.unfinished = true :=
      List.any_eq_true.mpr ⟨tile, hmem, decide_eq_true hstate⟩
    rw [h.isPartial_writtenBytes hsize]
    simp [resultIsPartial, waveformUnfinished, hnil, hany]
  have hall : ∀ entry ∈ sections (writtenBytes data) .detail,
      DetailSectionOk (tileContext options (writtenBytes data)) (writtenBytes data) entry := by
    intro entry hentry
    obtain ⟨hentryOk, htag⟩ := (h.containerOk hsize true).sectionEntry hentry
    have hmem : entry.payload (writtenBytes data) ∈ payloads (writtenBytes data) .detail :=
      List.mem_map_of_mem hentry
    rw [hpayloads, List.mem_singleton] at hmem
    have hstrict : DetailSectionOk ⟨true, (headerOf (writtenBytes data)).totalSourceFrames,
        (headerOf (writtenBytes data)).isPartial⟩ (writtenBytes data) entry :=
      htiles.detailSectionOk hne rfl (h.total_writtenBytes hsize) hunfinished
        (hentryOk.version (htag ▸ rfl)) hmem
    refine DetailSectionOk.weaken ?_ ?_ ?_ hstrict
    exacts [fun _ => rfl, rfl, rfl]
  obtain ⟨htileLimit, hcolumnLimit⟩ := hcount hnil
  refine detailStep_of_ne_nil (fun hnone => hnil (hsections.mp hnone)) ⟨⟨hall, ?_, ?_⟩, ?_, ?_⟩ ?_
  · rw [htable, length_tileEntries]
    exact ⟨htiles.count, htileLimit⟩
  · rw [htable, tileColumns_tileEntries]
    exact ⟨htiles.packed, hcolumnLimit⟩
  · refine (collides_eq_false_iff hcontainer hall).mpr ?_
    rw [hpayloads]
    exact List.forall_mem_singleton.mpr htiles.tilesApart
  · rw [hdecoded]
    exact List.pairwise_map.mpr (hsorted.imp ne_of_lt)
  · rw [withDetail, hdecoded, SortKey.sortKey_of_pairwise hsorted]

omit hsize in
/-- Written metadata reads back. -/
theorem Storable.metaParsePayload {metadata : Metadata} (hmetadata : metadata ∈ data.metadata) :
    metaParsePayload (metaWritePayload metadata.toRecord) = .ok metadata := by
  obtain ⟨hvalid, htimes⟩ := h.metadata metadata hmetadata
  have hentries := metaEntries_acceptable hvalid htimes
  have hbacked : ∀ view ∈ metadata.toRecord.texts.toList, Backed view :=
    (Metadata.toRecord_acceptable hvalid).backed
  rw [metaWritePayload_eq hbacked, Metadata.toMetadata_toRecord, metaParsePayload_iff]
  exact ⟨_, hentries, rfl, (foldl_metaEntries hentries).symm⟩

/-- The metadata stage reads the metadata back. -/
theorem Storable.metadataStep {base : ResultData} (hbase : base.metadata = none) :
    MetadataStep (writtenBytes data) base (readMetadata data base) := by
  obtain ⟨start, hfound⟩ := foundIn_metadata h.present
  have hpayloads := h.payloads_writtenBytes hsize .metadata
  rw [hfound] at hpayloads
  cases hmetadata : data.metadata with
  | none =>
      rw [metadataParts, hmetadata] at hpayloads
      refine Or.inl ⟨List.map_eq_nil_iff.mp hpayloads, ?_⟩
      rw [readMetadata, hmetadata, ← hbase]
  | some metadata =>
      rw [metadataParts, hmetadata] at hpayloads
      refine Or.inr ⟨metaWritePayload metadata.toRecord, metadata, hpayloads,
        h.metaParsePayload hmetadata, (h.metadata metadata hmetadata).1, ?_⟩
      rw [readMetadata, hmetadata]

/-- The context of the tempo and grid readers on the container. -/
theorem Storable.contextOf_writtenBytes :
    (contextOf options (writtenBytes data)).isPartial = resultIsPartial data :=
  h.isPartial_writtenBytes hsize

omit hsize in
/-- A tempo that is written keeps the rules of the reader. -/
theorem Storable.tempo_ok (hvalid : s4TempoIsValid data = true) {tempo : Tempo}
    (htempo : data.tempo = some tempo) : tempo.Typed ∧ tempo.Ok (resultIsPartial data) := by
  obtain ⟨htyped, hok⟩ := h.tempo hvalid tempo htempo
  refine ⟨htyped, { hok with state := stateAllowed_of_final hok.state fun hfinal => ?_ }⟩
  by_contra hstate
  simp [resultIsPartial, tempoUnfinished, hvalid, htempo, hstate] at hfinal

omit hsize in
/-- A local grid that is written keeps the rules of the reader. -/
theorem Storable.localGrid_ok (hvalid : s4GridIsValid data = true) {tempo : Tempo} {grid : Grid}
    (htempo : data.tempo = some tempo) (hgrid : data.localGrid = some grid) :
    ∃ segment, grid.Typed ∧ segment.Typed ∧
      grid.LocalOk (resultIsPartial data) tempo.selected.tempoMillibpm segment := by
  obtain ⟨segment, htyped, hsegment, hok⟩ := (h.localGrid hvalid).2 tempo htempo grid hgrid
  refine ⟨segment, htyped, hsegment, { hok with
    state := stateAllowed_of_final hok.state fun hfinal => ?_
    segmentState := stateAllowed_of_final hok.segmentState fun hfinal => ?_ }⟩ <;>
  · by_contra hstate
    simp [resultIsPartial, tempoUnfinished, Grid.unfinished, Segment.unfinished, hvalid, hgrid,
      hok.segments, hstate] at hfinal

/-- The local grid reader reads the local grid back. -/
theorem Storable.localGridStep (hvalid : s4TempoIsValid data = true) {base : ResultData}
    (hbase : base.tempo = data.tempo) :
    LocalGridStep options (writtenBytes data) base (readLocalGrid data base) := by
  obtain ⟨-, tempo, htempo⟩ := bpm_of_s4TempoIsValid hvalid
  obtain ⟨start, hfound⟩ := foundIn_localGrid h.present
  rw [← h.foundAt_writtenBytes hsize, localGridParts] at hfound
  cases hgridValid : s4GridIsValid data with
  | false =>
      rw [hgridValid] at hfound
      refine Or.inl ⟨hfound, ?_⟩
      rw [readLocalGrid, hgridValid, if_neg Bool.false_ne_true]
  | true =>
      obtain ⟨grid, hgrid⟩ := localGrid_of_s4GridIsValid hgridValid
      obtain ⟨segment, htyped, hsegment, hok⟩ := h.localGrid_ok hgridValid htempo hgrid
      rw [hgridValid, if_pos rfl, hgrid, Option.toList_some, List.flatMap_singleton, hok.segments,
        List.head?_cons, Option.toList_some, List.map_singleton] at hfound
      have hread := lgrdPayloadOf_s4WriteGrid htyped hsegment
      have hgridEq := hok.grid_eq
      rw [← @Storable.contextOf_writtenBytes _ _ options h hsize] at hok
      refine Or.inr ⟨⟨start, s4WriteGrid grid segment⟩, hfound,
        hok.localGridOk htyped hsegment, ?_, ?_⟩
      · rw [NominalTempo, hread, hbase, htempo]
        exact hok.sameTempo
      · rw [readLocalGrid, hgridValid, if_pos rfl, withLocalGrid, hread, hgridEq, hgrid,
          Option.any_some]

/-- The tempo stage reads the tempo and the local grid back. -/
theorem Storable.tempoStep (base : ResultData) :
    TempoStep options (writtenBytes data) base (readLocalGrid data (readTempo data base)) := by
  obtain ⟨start, hfound⟩ := foundIn_tempo h.present
  rw [← h.foundAt_writtenBytes hsize, tempoParts] at hfound
  cases hvalid : s4TempoIsValid data with
  | false =>
      have hgridValid : s4GridIsValid data = false := by
        by_contra hgrid
        rw [Bool.not_eq_false] at hgrid
        exact Bool.noConfusion ((h.localGrid hgrid).1.symm.trans hvalid)
      obtain ⟨start', hlocal⟩ := foundIn_localGrid h.present
      rw [← h.foundAt_writtenBytes hsize, localGridParts, hgridValid] at hlocal
      rw [hvalid] at hfound
      refine Or.inl ⟨hfound, hlocal, ?_⟩
      rw [readLocalGrid, hgridValid, readTempo, hvalid]
      rfl
  | true =>
      obtain ⟨-, tempo, htempo⟩ := bpm_of_s4TempoIsValid hvalid
      obtain ⟨htyped, hok⟩ := h.tempo_ok hvalid htempo
      rw [hvalid, if_pos rfl, htempo, Option.toList_some, List.map_singleton] at hfound
      have hread : withTempo (s4WriteTemp tempo) base = readTempo data base := by
        rw [withTempo, tempoOf_s4WriteTemp htyped (hok.count.2.trans_lt (by decide)), readTempo,
          hvalid, if_pos rfl, htempo]
      rw [← @Storable.contextOf_writtenBytes _ _ options h hsize] at hok
      refine Or.inr ⟨⟨start, s4WriteTemp tempo⟩, hfound, hok.tempoOk htyped, ?_⟩
      rw [hread]
      refine h.localGridStep hsize hvalid ?_
      rw [readTempo, hvalid, if_pos rfl]

omit hsize in
/-- A global grid that is written keeps the rules of the reader. -/
theorem Storable.globalGrid_ok (hfeature : Feature.globalBeatgrid ∈ data.availableFeatures)
    {grid : Grid} {revision : Revision} (hgrid : data.globalGrid = some (grid, revision)) :
    grid.Typed ∧ revision.Typed ∧ grid.GlobalOk (resultIsPartial data) ∧
      RevisionOk (resultIsPartial data) revision grid := by
  obtain ⟨htyped, hrevisionTyped, hok, hrevision⟩ := (h.globalGrid hfeature).2.2 _ hgrid
  have hunfinished : resultIsPartial data = false →
      grid.unfinished = false ∧ revision.state ≠ revisionPending := by
    intro hfinal
    simp only [resultIsPartial, gridUnfinished, hfeature, hgrid, decide_true, Option.any_some,
      Bool.true_and, Bool.or_eq_false_iff, decide_eq_false_iff_not] at hfinal
    exact hfinal.2
  have hstates : resultIsPartial data = false → grid.state = stateFinal ∧
      ∀ segment ∈ grid.segments, segment.state = stateFinal := by
    intro hfinal
    have hnone := (hunfinished hfinal).1
    rw [Grid.unfinished, Bool.or_eq_false_iff, decide_eq_false_iff_not, not_not,
      List.any_eq_false] at hnone
    refine ⟨hnone.1, fun segment hmem => ?_⟩
    by_contra hstate
    exact hnone.2 segment hmem (decide_eq_true hstate)
  refine ⟨htyped, hrevisionTyped, { hok with
    state := stateAllowed_of_final hok.state fun hfinal => (hstates hfinal).1
    segments := fun segment hmem => { hok.segments segment hmem with
      state := stateAllowed_of_final (hok.segments segment hmem).state fun hfinal =>
        (hstates hfinal).2 segment hmem } }, { hrevision with
    applied := fun hfinal => hrevision.state.resolve_left (hunfinished hfinal).2 }⟩

/-- The grid stage reads the global grid and its revision back. -/
theorem Storable.gridStep {base : ResultData}
    (hbase : s4TempoIsValid data = true → Feature.bpm ∈ base.availableFeatures) :
    GridStep options (writtenBytes data) base (readGrid data base) := by
  obtain ⟨start, hfound⟩ := foundIn_grid h.present
  have hgridFound := hfound .globalGrid (Or.inl rfl)
  have hrevisionFound := hfound .revision (Or.inr rfl)
  rw [← h.foundAt_writtenBytes hsize, s6Parts] at hgridFound hrevisionFound
  by_cases hfeature : Feature.globalBeatgrid ∈ data.availableFeatures
  · obtain ⟨hvalid, hsome, -⟩ := h.globalGrid hfeature
    obtain ⟨⟨grid, revision⟩, hgrid⟩ := Option.isSome_iff_exists.mp hsome
    obtain ⟨htyped, hrevisionTyped, hok, hrevision⟩ := h.globalGrid_ok hfeature hgrid
    rw [if_pos hfeature, hgrid, Option.toList_some,
      List.flatMap_singleton] at hgridFound hrevisionFound
    rw [← @Storable.contextOf_writtenBytes _ _ options h hsize] at hok hrevision
    have hread := gridOf_s6WriteGrid htyped
    have hreadRevision := congrArg RevnPayload.revision (revnPayloadOf_s6WriteRevision hrevisionTyped)
    refine Or.inr ⟨⟨start, s6WriteGrid grid⟩, ⟨start + 1, s6WriteRevision revision⟩, hgridFound,
      hrevisionFound, rfl, hbase hvalid, hok.globalGridOk htyped, ?_, ?_⟩
    · rw [hread]
      exact hrevision.revnOk hrevisionTyped
    · rw [readGrid, if_pos hfeature, hgrid, Option.map_some, Option.getD_some, hread, hreadRevision]
  · rw [if_neg hfeature] at hgridFound hrevisionFound
    refine Or.inl ⟨hgridFound, hrevisionFound, ?_⟩
    rw [readGrid, if_neg hfeature]

/-- The reader accepts the container of a storable result, and what it reads is `readBack`. -/
theorem Storable.accepts (hvalid : optionsValid options = true)
    (hcount : detailParts data ≠ [] → data.detailTiles.length ≤ columnLimit options ∧
      (data.detailTiles.flatMap Tile.columns).length ≤ columnLimit options) :
    Accepts options (writtenBytes data) (writtenInput data overview) (writtenHeader data overview)
      (spanEntries 0 overview.spans) (readBack data overview) := by
  refine ⟨h.baseOk hsize hvalid, h.hardeningOk hsize, readDetail data (readOverview data overview),
    readMetadata data (readDetail data (readOverview data overview)),
    readLocalGrid data (readTempo data (readMetadata data
      (readDetail data (readOverview data overview)))), ?_, ?_, ?_, ?_⟩
  · rw [h.overviewData_eq hsize]
    exact h.detailStep hsize hcount _
  · refine h.metadataStep hsize ?_
    rw [readDetail]
    split <;> rfl
  · exact h.tempoStep hsize _
  · refine h.gridStep hsize fun htempo => ?_
    rw [readLocalGrid, readTempo, htempo, if_pos rfl]
    split
    · exact Finset.mem_union_right _ (Finset.mem_insert_of_mem (Finset.mem_insert_self _ _))
    · exact Finset.mem_insert_self _ _

end Steps

end LibApta.Container
