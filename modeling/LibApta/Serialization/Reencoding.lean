import LibApta.Serialization.Accepted
import LibApta.Serialization.Guarantees

/-!
# Writing what was parsed

A parsed result of the strict reader is a fixed point: written and parsed again it is the same, but
for the versions of the producer, which become those of this library.
-/

namespace LibApta.Container

open LittleEndian Packing InPlace

/-- The result with the versions this library writes. -/
def asProduced (data : ResultData) : ResultData :=
  { data with
    specificationMajor := specVersionMajor
    specificationMinor := specVersionMinor
    producerApiVersion := apiVersion }

section Accepted

variable {options : Option ParseOptions} {bytes : Bytes} {input : WovrInput} {header : WovrHeader}
  {spans : List SpanEntry} {data base next : ResultData}

/-- The overview is read back as it was read. -/
theorem Accepts.readOverview_eq (h : Accepts options bytes input header spans data)
    (hstrict : isStrict options = true) :
    readOverview data (decodedOverview input.payload header spans) =
      asProduced (overviewData input header spans) := by
  obtain ⟨_, _, hframe⟩ := h.frame
  have hcolumns : (decodedOverview input.payload header spans).columns =
      spans.flatMap fun entry => entry.columns input.payload header := by
    rw [Overview.columns, decodedOverview, List.flatMap_map]
    rfl
  rw [readOverview, h.resultIsPartial_eq hstrict, hcolumns, ← h.base.container.header_eq, hframe]
  rfl

/-- The detail layer is read back as it was read. -/
theorem DetailStep.readDetail_eq (h : DetailStep options bytes base next)
    (hbase : base.detailTiles = []) (htiles : data.detailTiles = next.detailTiles)
    (hdata : Consistent data) (hnext : Consistent next) :
    readDetail data (asProduced base) = asProduced next := by
  rw [DetailStep] at h
  split at h
  case isTrue =>
    have hnil : detailParts data = [] := by
      rw [h, hbase] at htiles
      exact detailParts_eq_nil.mpr (Or.inr htiles)
    rw [readDetail, if_pos hnil, h]
  case isFalse =>
    obtain ⟨-, rfl⟩ := h
    have hsome : data.detailTiles ≠ [] := htiles ▸ hnext.detail.mp (Finset.mem_insert_self _ _)
    have hparts : detailParts data ≠ [] := fun hnil =>
      (detailParts_eq_nil.mp hnil).elim (fun hnone => hnone (hdata.detail.mpr hsome)) hsome
    rw [readDetail, if_neg hparts, htiles]
    rfl

/-- The local grid is read back as it was read. -/
theorem LocalGridStep.readLocalGrid_eq (h : LocalGridStep options bytes base next)
    (hbase : base.localGrid = none) (hgrid : data.localGrid = next.localGrid)
    (hvalid : s4GridIsValid data = data.localGrid.isSome) :
    readLocalGrid data (asProduced base) = asProduced next := by
  rw [readLocalGrid, hvalid, hgrid]
  obtain ⟨-, rfl⟩ | ⟨grid, -, -, -, rfl⟩ := h
  · rw [hbase]
    rfl
  · rfl

/-- The tempo and the local grid are read back as they were read. -/
theorem TempoStep.readTempo_eq (h : TempoStep options bytes base next)
    (hbaseTempo : base.tempo = none) (hbaseGrid : base.localGrid = none)
    (htempo : data.tempo = next.tempo) (hgrid : data.localGrid = next.localGrid)
    (hvalid : s4TempoIsValid data = data.tempo.isSome)
    (hgridValid : s4GridIsValid data = data.localGrid.isSome) :
    readLocalGrid data (readTempo data (asProduced base)) = asProduced next := by
  obtain ⟨-, -, rfl⟩ | ⟨temp, -, -, hlocal⟩ := h
  · rw [readTempo, hvalid, htempo, hbaseTempo, readLocalGrid, hgridValid, hgrid, hbaseGrid]
    rfl
  · have hread : readTempo data (asProduced base) =
        asProduced (withTempo temp.payload base) := by
      obtain ⟨_, hframe⟩ := hlocal.frame
      rw [readTempo, hvalid, htempo, hframe]
      rfl
    rw [hread]
    exact hlocal.readLocalGrid_eq hbaseGrid hgrid hgridValid

/-- The global grid is read back as it was read. -/
theorem GridStep.readGrid_eq (h : GridStep options bytes base next)
    (hbase : base.globalGrid = none) (hnext : Consistent next) :
    readGrid next (asProduced base) = asProduced next := by
  rw [readGrid, if_congr hnext.globalGrid rfl rfl]
  obtain ⟨-, -, rfl⟩ | ⟨_, _, -, -, -, -, -, -, rfl⟩ := h
  · rw [hbase]
    rfl
  · rfl

/-- What is read back of an accepted result is the result. -/
theorem Accepts.readBack_eq (h : Accepts options bytes input header spans data)
    (hstrict : isStrict options = true) :
    readBack data (decodedOverview input.payload header spans) = asProduced data := by
  obtain ⟨detailed, described, timed, hdetail, hmeta, htempo, hgrid⟩ := h.steps
  have hconsistent := h.consistent
  have hdetailConsistent := (consistent_overviewData input header spans).detailStep hdetail
  obtain ⟨_, _, hdetailFrame⟩ := hdetail.frame
  obtain ⟨_, htempoFrame⟩ := htempo.frame
  obtain ⟨_, hgridFrame⟩ := hgrid.frame
  have hmetaFrame := hmeta.frame
  have htiles : data.detailTiles = detailed.detailTiles := by
    rw [hgridFrame, htempoFrame, hmetaFrame]
  have hmetadata : data.metadata = described.metadata := by rw [hgridFrame, htempoFrame]
  have hsameTempo : data.tempo = timed.tempo := by rw [hgridFrame]
  have hsameGrid : data.localGrid = timed.localGrid := by rw [hgridFrame]
  have hread : readMetadata data (asProduced detailed) = asProduced described := by
    rw [readMetadata, hmetadata, hmetaFrame]
    rfl
  have hunattached : described.tempo = none ∧ described.localGrid = none := by
    rw [hmetaFrame, hdetailFrame]
    exact ⟨rfl, rfl⟩
  have hglobal : timed.globalGrid = none := by
    rw [htempoFrame, hmetaFrame, hdetailFrame]
    rfl
  rw [readBack, h.readOverview_eq hstrict, hdetail.readDetail_eq rfl htiles hconsistent
    hdetailConsistent, hread, htempo.readTempo_eq hunattached.1 hunattached.2 hsameTempo hsameGrid
    h.s4TempoIsValid_eq h.s4GridIsValid_eq]
  exact hgrid.readGrid_eq hglobal hconsistent

end Accepted

/-! ## Sizes -/

section Sizes

variable {data : ResultData} {overview : Overview}

/-- A head of the encoding of metadata takes at most nine bytes. -/
theorem cborHeadSize_le (value : ℕ) : cborHeadSize value ≤ 9 := by
  rw [cborHeadSize]
  split_ifs <;> decide

/-- Valid metadata takes little room. -/
theorem metaMeasurePayload_le {metadata : Metadata} (h : metadata.isValid = true) :
    metaMeasurePayload metadata.toRecord ≤ 65536 := by
  have htotal := (Metadata.toRecord_acceptable h).total
  simp only [totalSize, TextFields.toList, List.map_cons, List.map_nil, List.sum_cons,
    List.sum_nil] at htotal
  have hhead := cborHeadSize_le
  have hcount := hhead (metaItemCount metadata.toRecord)
  have htime := hhead metadata.toRecord.creationUnixTime
  have hname := hhead metadata.toRecord.texts.producerName.size
  have hversion := hhead metadata.toRecord.texts.producerVersionString.size
  have hbackend := hhead metadata.toRecord.texts.backendName.size
  have hbackendVersion := hhead metadata.toRecord.texts.backendVersion.size
  have hid := hhead metadata.toRecord.texts.applicationSourceId.size
  have hcomments := hhead metadata.toRecord.texts.comments.size
  rw [metaMeasurePayload]
  simp only [metaTextItemSize]
  split_ifs <;> omega

/-- The sections of a storable result are of bounded size. -/
theorem Storable.size_part_le (h : Storable data overview) {part : Part}
    (hpart : part ∈ writtenParts data) : part.size ≤ 549755813888 := by
  rw [writtenParts_eq h.present, List.mem_cons, List.mem_append, List.mem_append, List.mem_append,
    List.mem_append] at hpart
  obtain rfl | hpart | hpart | hpart | hpart | hpart := hpart
  · have hspans : overview.spans.length ≤ 4294967295 := h.stored.spans.2
    have hcolumns : overview.columns.length ≤ 4294967295 := h.stored.packed
    have hlength : (overviewPart data overview).2.length =
        48 + overview.spans.length * 32 + overview.columns.length * 10 := by
      rw [overviewPart]
      exact length_wovrPayload overview _ _
    exact hlength.trans_le (by omega)
  · have hnil : detailParts data ≠ [] := List.ne_nil_of_mem hpart
    obtain ⟨htiles, -⟩ := h.tiles hnil
    have hcount : data.detailTiles.length ≤ 4294967295 := htiles.count
    have hcolumns : (data.detailTiles.flatMap Tile.columns).length ≤ 4294967295 := htiles.packed
    have hlength : (wdtlPayload data.detailTiles).length = 16 + data.detailTiles.length * 48 +
        (data.detailTiles.flatMap Tile.columns).length * 10 := length_wdtlPayload _
    rw [detailParts_of_ne_nil hnil, List.mem_singleton] at hpart
    rw [hpart]
    exact hlength.trans_le (by omega)
  · obtain ⟨metadata, hmetadata, rfl⟩ := List.mem_map.mp hpart
    have hle := metaMeasurePayload_le (h.metadata metadata (Option.mem_toList.mp hmetadata)).1
    rw [Part.size, ← length_metadataPayload]
    omega
  · rw [tempoParts] at hpart
    split at hpart
    case isFalse => cases hpart
    case isTrue hvalid =>
      obtain ⟨tempo, htempo, rfl⟩ := List.mem_map.mp hpart
      have hcount : tempo.candidates.length ≤ 3 :=
        (h.tempo hvalid tempo (Option.mem_toList.mp htempo)).2.count.2
      have hlength : (s4WriteTemp tempo).length = 56 + tempo.candidates.length * 16 :=
        length_s4WriteTemp tempo
      exact hlength.trans_le (by omega)
  · rw [localGridParts] at hpart
    split at hpart
    case isFalse => cases hpart
    case isTrue =>
      obtain ⟨grid, -, hmem⟩ := List.mem_flatMap.mp hpart
      obtain ⟨segment, -, rfl⟩ := List.mem_map.mp hmem
      rw [Part.size, length_s4WriteGrid]
      decide
  · rw [s6Parts] at hpart
    split at hpart
    case isFalse => cases hpart
    case isTrue hfeature =>
      obtain ⟨⟨grid, revision⟩, hgrid, hmem⟩ := List.mem_flatMap.mp hpart
      obtain ⟨-, -, hok, -⟩ := (h.globalGrid hfeature).2.2 _ (Option.mem_toList.mp hgrid)
      have hsegments : grid.segments.length ≤ 8 := hok.segmentCount.2
      have hbeats : grid.beats.length ≤ 3072 := hok.beatCount
      have hlength : (s6WriteGrid grid).length =
          96 + grid.segments.length * 80 + grid.beats.length * 40 := length_s6WriteGrid grid
      rw [List.mem_cons, List.mem_singleton] at hmem
      obtain rfl | rfl := hmem
      · exact hlength.trans_le (by omega)
      · rw [Part.size, length_s6WriteRevision]
        decide

/-- The container of a storable result fits 64 bits. -/
theorem Storable.size_le (h : Storable data overview) :
    containerSize (writtenParts data) ≤ uint64Max := by
  have hle := @finish_le _ sectionAlignment Part.size (by decide) 549755813888
    (payloadStart (writtenParts data).length) _ fun part hpart => h.size_part_le hpart
  have hcount : (writtenParts data).length ≤ 7 := length_writtenParts_le
  have hstart : payloadStart (writtenParts data).length =
      96 + (writtenParts data).length * 40 := rfl
  have hunit : sectionAlignment = 8 := rfl
  rw [hunit, hstart] at hle
  refine hle.trans ?_
  show _ ≤ 18446744073709551615
  omega

end Sizes

/-! ## Parsed results -/

section Parsed

variable {sizes : Sizes} {options : Option ParseOptions} {buffer : Buffer} {context next : Context}
  {parsed : Parsed}

/-- A result of the strict parser can be written exactly when each of its final tiles belongs to a
source of known duration. -/
theorem resultParse_serializable_iff
    (hparse : resultParse sizes options buffer.bytes context = ⟨.ok (), some parsed, next⟩)
    (hstrict : isStrict options = true) :
    (∃ size, resultQuerySerializedSize parsed.data none = .ok size) ↔
      ∀ tile ∈ parsed.data.detailTiles, tile.FinalKnown parsed.data.totalSourceFrames := by
  obtain ⟨parsed', next', input, header, spans, hreply, haccepts, -⟩ :=
    resultParse_ok (congrArg Reply.status hparse)
  obtain rfl := Option.some.inj (congrArg Reply.resultOut (hreply.symm.trans hparse))
  constructor
  · rintro ⟨size, hquery⟩ tile htile
    have hfingerprint := haccepts.sourceOk.fingerprint
    -- the detail layer of the writer measured the tiles
    obtain ⟨_, -, hquery⟩ := Check.bind_eq_ok.mp hquery
    obtain ⟨layout, hlayout, -⟩ := Check.bind_eq_ok.mp hquery
    obtain ⟨layout, hlayout, -⟩ := Check.bind_eq_ok.mp (laysOut_s6 layout hlayout).1
    obtain ⟨layout, hlayout, -⟩ := Check.bind_eq_ok.mp (laysOut_s4 layout hlayout).1
    obtain ⟨_, -, hdetail, -⟩ :=
      resultQuerySerializedSizeWaveform_eq_ok.mp (laysOut_meta layout hlayout).1
    have hsome : parsed'.data.detailTiles ≠ [] := List.ne_nil_of_mem htile
    have hparts : detailParts parsed'.data ≠ [] := fun hnil =>
      (detailParts_eq_nil.mp hnil).elim
        (fun hnone => hnone (haccepts.consistent.detail.mpr hsome)) hsome
    exact (hdetail hparts).tiles.finalKnown tile htile
  · intro hknown
    have hstorable := haccepts.storable hstrict hknown
    exact ⟨_, hstorable.querySize rfl hstorable.size_le rfl⟩

/-- What the strict parser makes of the small container. -/
theorem resultParse_small : ∃ parsed next,
    resultParse sampleSizes (strictOptions 0 0) smallContainer ⟨freshHeap, 0⟩ =
      ⟨.ok (), some parsed, next⟩ ∧
    parsed.data = overviewData smallInput smallWovrHeader [smallSpan] := by
  have hlimit : allocationLimit (strictOptions 0 0) = defaultMaxAllocationBytes := rfl
  exact @resultParse_of_accepts sampleSizes _ _ ⟨freshHeap, 0⟩ _ _ _ _ freshHeap_generous
    (smallContainer_accepts 0 0) (smallContainer_fits (hlimit ▸ by decide) (hlimit ▸ by decide))

theorem resultParse_serializable_small : ∃ parsed next,
    resultParse sampleSizes (strictOptions 0 0) smallContainer ⟨freshHeap, 0⟩ =
      ⟨.ok (), some parsed, next⟩ ∧
    ((∃ size, resultQuerySerializedSize parsed.data none = .ok size) ↔
      ∀ tile ∈ parsed.data.detailTiles, tile.FinalKnown parsed.data.totalSourceFrames) := by
  obtain ⟨parsed, next, hparse, -⟩ := resultParse_small
  exact ⟨parsed, next, hparse, @resultParse_serializable_iff _ _
    ⟨smallContainer, by decide +kernel⟩ _ _ _ hparse (isStrict_strictOptions 0 0)⟩

/-- A result of the strict parser that can be written is a fixed point of writing and parsing: with
room for the container and for the result, the writer writes it, and the parser makes of what was
written the same result, with the versions of this library. -/
theorem resultParse_fixed {sizes' : Sizes} {readOptions : Option ParseOptions} {context' : Context}
    {overview : Overview} {room : Bytes}
    (hparse : resultParse sizes options buffer.bytes context = ⟨.ok (), some parsed, next⟩)
    (hstrict : isStrict options = true)
    (hknown : ∀ tile ∈ parsed.data.detailTiles, tile.FinalKnown parsed.data.totalSourceFrames)
    (hoverview : parsed.data.overview = some overview)
    (hroom : containerSize (writtenParts parsed.data) ≤ room.length)
    (hlimits : WithinLimits sizes' readOptions parsed.data overview)
    (hgenerous : context'.heap.Generous) :
    ∃ written parsed' next', resultSerialize parsed.data none room = .ok written ∧
      resultParse sizes' readOptions (written.buffer.take written.size) context' =
        ⟨.ok (), some parsed', next'⟩ ∧
      parsed'.data = asProduced parsed.data := by
  obtain ⟨parsed', next', input, header, spans, hreply, haccepts, -⟩ :=
    resultParse_ok (congrArg Reply.status hparse)
  obtain rfl := Option.some.inj (congrArg Reply.resultOut (hreply.symm.trans hparse))
  have hstorable := haccepts.storable hstrict hknown
  obtain rfl := Option.some.inj (haccepts.overview.symm.trans hoverview)
  have hsmall := hstorable.size_le
  have hlength : (writtenBytes parsed'.data).length = containerSize (writtenParts parsed'.data) := by
    rw [writtenBytes]
    exact size_containerOf hstorable.source.fingerprint standard_writtenParts _
  have henough : requireRoom room.length (containerSize (writtenParts parsed'.data)) = .ok () :=
    requireRoom_eq_ok.mpr ⟨hsmall, hroom⟩
  obtain ⟨again, last, hagain, hdata⟩ := resultParse_of_accepts hgenerous
    (hstorable.accepts hsmall hlimits.valid hlimits.tiles) (hstorable.fits hsmall hlimits)
  refine ⟨⟨writtenBytes parsed'.data ++ room.drop (containerSize (writtenParts parsed'.data)),
    containerSize (writtenParts parsed'.data)⟩, again, last, ?_, ?_, ?_⟩
  · rw [resultSerialize_eq hstorable.source.fingerprint, hstorable.querySize rfl hsmall rfl,
      Check.ok_bind, henough, writtenBytes]
    rfl
  · rw [List.take_left' hlength]
    exact hagain
  · rw [hdata, haccepts.readBack_eq hstrict]

/-- The small container is parsed, written and parsed again. -/
theorem resultParse_fixed_small : ∃ parsed next written parsed' next',
    resultParse sampleSizes (strictOptions 0 0) smallContainer ⟨freshHeap, 0⟩ =
      ⟨.ok (), some parsed, next⟩ ∧
    resultSerialize parsed.data none (List.replicate 300 7) = .ok written ∧
    resultParse sampleSizes (strictOptions 0 0) (written.buffer.take written.size) ⟨freshHeap, 0⟩ =
      ⟨.ok (), some parsed', next'⟩ ∧
    parsed'.data = asProduced parsed.data := by
  obtain ⟨parsed, next, hparse, hdata⟩ := resultParse_small
  have hnone : parsed.data.detailTiles = [] := by rw [hdata]; rfl
  have hoverview : parsed.data.overview =
      some (decodedOverview smallOverview smallWovrHeader [smallSpan]) := by rw [hdata]; rfl
  have hsize : containerSize (writtenParts parsed.data) = 226 := by
    rw [hdata]
    decide +kernel
  have hlimits : WithinLimits sampleSizes (strictOptions 0 0) parsed.data
      (decodedOverview smallOverview smallWovrHeader [smallSpan]) := by
    refine ⟨rfl, ?_, ?_, by decide, ?_, by decide +kernel, ?_, ?_⟩
    · rw [hsize]
      decide
    · rw [hdata]
      decide +kernel
    · rw [hdata]
      decide +kernel
    · intro hsome
      exact absurd (detailParts_eq_nil.mpr (Or.inr hnone)) hsome
    · rw [hdata]
      exact ⟨by decide +kernel, by decide +kernel⟩
  have hroom : containerSize (writtenParts parsed.data) ≤ (List.replicate 300 (7 : UInt8)).length := by
    rw [hsize, List.length_replicate]
    decide
  obtain ⟨written, parsed', next', hwrite, hagain, hfixed⟩ := @resultParse_fixed sampleSizes
    (strictOptions 0 0) ⟨smallContainer, by decide +kernel⟩ ⟨freshHeap, 0⟩ next parsed sampleSizes
    (strictOptions 0 0) ⟨freshHeap, 0⟩ _ (List.replicate 300 7) hparse (isStrict_strictOptions 0 0)
    (fun tile htile => absurd htile (hnone ▸ List.not_mem_nil)) hoverview hroom hlimits
    freshHeap_generous
  exact ⟨parsed, next, written, parsed', next', hparse, hwrite, hagain, hfixed⟩

end Parsed

end LibApta.Container
