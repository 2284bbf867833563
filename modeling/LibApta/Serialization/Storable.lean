import LibApta.Serialization.AggregateState
import LibApta.Serialization.WrittenDetail

/-!
# Results that keep the rules of the format

`Storable` collects what the format asks of the data of a result. The writer takes a storable result
whenever the container fits 64 bits and the options, and the flags of the container say exactly what
the reader later asks of them.
-/

namespace LibApta.Container

open LittleEndian Packing InPlace

/-- A result keeps the rules of the format. Of a tempo or a grid that is not written nothing is
asked. -/
structure Storable (data : ResultData) (overview : Overview) : Prop where
  source : SourceOk data
  feature : Feature.waveformOverview ∈ data.availableFeatures
  present : data.overview = some overview
  stored : overview.Stored data.totalSourceFrames
  tiles : detailParts data ≠ [] → TilesReadable data.totalSourceFrames data.detailTiles ∧
    ∀ tile ∈ data.detailTiles, tile.FinalKnown data.totalSourceFrames
  metadata : ∀ metadata ∈ data.metadata, metadata.isValid = true ∧
    ∀ time ∈ metadata.creationUnixTime, time < 18446744073709551616
  tempo : s4TempoIsValid data = true → ∀ tempo ∈ data.tempo, tempo.Typed ∧ tempo.Ok true
  localGrid : s4GridIsValid data = true → s4TempoIsValid data = true ∧
    ∀ tempo ∈ data.tempo, ∀ grid ∈ data.localGrid, ∃ segment, grid.Typed ∧ segment.Typed ∧
      grid.LocalOk true tempo.selected.tempoMillibpm segment
  globalGrid : Feature.globalBeatgrid ∈ data.availableFeatures →
    s4TempoIsValid data = true ∧ data.globalGrid.isSome = true ∧ ∀ pair ∈ data.globalGrid,
      pair.1.Typed ∧ pair.2.Typed ∧ pair.1.GlobalOk true ∧ RevisionOk true pair.2 pair.1

section Permits

variable {data : ResultData} {options : Option SerializeOptions}

/-! ## What a size query says of the options -/

/-- A size query answers only for options that are valid and allow the size. -/
def Permits (options : Option SerializeOptions) (query : Check Status ℕ) : Prop :=
  ∀ size, query = .ok size →
    serializationOptionsAreValid options = true ∧ outputAllowed options size = true

/-- A layer over a query checks what it adds. -/
theorem Permits.layer {query : Check Status ℕ} {parts added : List Part}
    {calculate : Check Status AppendLayout} (h : Permits options query)
    (hsize : ∀ size, query = .ok size → size = containerSize parts ∧ size ≤ uint64Max)
    (hlayout : LaysOut query options added calculate) :
    Permits options (do let layout ← calculate; return layout.totalSize) := by
  intro size hquery
  obtain ⟨layout, hcalculate, htotal⟩ := Check.bind_eq_ok.mp hquery
  obtain rfl := Except.ok.inj htotal
  obtain ⟨hbelow, hsections⟩ := hlayout layout hcalculate
  obtain ⟨hvalid, hallowed⟩ := h _ hbelow
  obtain ⟨hbase, hsmall⟩ := hsize _ hbelow
  rw [hbase] at hsections hsmall hallowed
  obtain ⟨htotal, -, hadded⟩ := (layoutSections_eq_ok hsmall).mp hsections
  refine ⟨hvalid, ?_⟩
  by_cases hnone : added = []
  · rw [htotal, hnone, List.append_nil]
    exact hallowed
  · exact hadded hnone

theorem permits_waveform : Permits options (resultQuerySerializedSizeWaveform data options) := by
  intro size hquery
  obtain ⟨overview, hwritable, hdetail, rfl⟩ := resultQuerySerializedSizeWaveform_eq_ok.mp hquery
  refine ⟨hwritable.optionsOk, ?_⟩
  by_cases hnil : detailParts data = []
  · rw [waveformParts, hnil]
    exact hwritable.allowed
  · exact (hdetail hnil).allowed

/-- What the size query says when it answers. -/
theorem resultQuerySerializedSize_of_ok (hfingerprint : data.fingerprint.length = 32) {size : ℕ}
    (h : resultQuerySerializedSize data options = .ok size) :
    serializationOptionsAreValid options = true ∧ size = containerSize (writtenParts data) ∧
      size ≤ uint64Max ∧ outputAllowed options size = true := by
  have hmeta := permits_waveform.layer (fun size hsize => by
    obtain ⟨hparts, hsmall, -⟩ := (writes_waveform hfingerprint).size size hsize
    exact ⟨hparts, hsmall⟩) (@laysOut_meta data options)
  have htempo := @Permits.layer options (resultQuerySerializedSizeMeta data options) _ _ _ hmeta
    (fun size hsize => by
      obtain ⟨hparts, hsmall, -⟩ := (writes_meta hfingerprint).size size hsize
      exact ⟨hparts, hsmall⟩) (@laysOut_s4 data options)
  have hgrid := @Permits.layer options (resultQuerySerializedSizeS4 data options) _ _ _ htempo
    (fun size hsize => by
      obtain ⟨hparts, hsmall, -⟩ := (writes_s4 hfingerprint).size size hsize
      exact ⟨hparts, hsmall⟩) (@laysOut_s6 data options)
  obtain ⟨_, -, hquery⟩ := Check.bind_eq_ok.mp h
  obtain ⟨hparts, hsmall, -⟩ := (writes_s6 hfingerprint).size size hquery
  obtain ⟨hvalid, hallowed⟩ := hgrid size hquery
  exact ⟨hvalid, hparts, hsmall, hallowed⟩

end Permits

section Storable

variable {data : ResultData} {overview : Overview} {options : Option SerializeOptions}

/-! ## The writer takes a storable result -/

/-- The overview layer takes a storable overview. -/
theorem Storable.overviewWritable (h : Storable data overview)
    (hoptions : serializationOptionsAreValid options = true)
    (hsize : containerSize (waveformParts data overview) ≤ uint64Max)
    (hallowed : ∀ size ≤ containerSize (waveformParts data overview),
      outputAllowed options size = true) : OverviewWritable data options overview := by
  have hstored := h.stored
  have hgrow := containerSize_add_le [overviewPart data overview] (detailParts data)
  have hbase : containerSize [overviewPart data overview] ≤
      containerSize (waveformParts data overview) := (Nat.le_add_right _ _).trans hgrow
  have hwithin : overview.spanColumns ≤ overview.logicalColumns data.totalSourceFrames :=
    Overview.spanColumns_le fun span hspan => (hstored.frames span hspan).logical
  refine ⟨hoptions, h.feature, h.present, hstored.framesPerColumn.1, hstored.spans.1,
    hstored.state, h.source.rate.1, ⟨h.source.channels.1, Nat.le_of_lt_succ h.source.channels.2⟩,
    Nat.le_of_lt_succ h.source.layout, ?_, fun span hspan => ?_, ?_, hstored.packed,
    hstored.origin, hwithin, ⟨?_, hstored.logical⟩, hbase.trans hsize, hallowed _ hbase⟩
  · rw [sourceFingerprintIsValid]
    split
    case isTrue hnone =>
      exact List.all_eq_true.mpr fun byte hbyte => decide_eq_true (h.source.noFingerprint hnone byte
        hbyte)
    case isFalse hsome =>
      have hkind := h.source.kind
      rw [Bool.or_eq_true, decide_eq_true_eq, decide_eq_true_eq]
      omega
  · have hok := hstored.frames span hspan
    refine ⟨hok.frames, hok.columns, hok.logical.trans hstored.logical, fun column hcolumn => ?_⟩
    exact fun _ =>
      (hstored.columns column (List.mem_flatMap.mpr ⟨span, hspan, hcolumn⟩)).ok.ordered
  · exact hstored.ordered.imp fun _ _ hfollows => hfollows.1
  · obtain ⟨span, hspan⟩ := List.exists_mem_of_ne_nil _ hstored.spans.1
    have hend := (hstored.frames span hspan).logical
    have hpos := List.length_pos_iff.mpr (hstored.frames span hspan).columns
    rw [Span.endColumn] at hend
    omega

/-- A tempo that is written is available. -/
theorem bpm_of_s4TempoIsValid (h : s4TempoIsValid data = true) :
    Feature.bpm ∈ data.availableFeatures ∧ ∃ tempo, data.tempo = some tempo := by
  rw [s4TempoIsValid, Bool.and_eq_true, decide_eq_true_eq, Option.any_eq_true] at h
  obtain ⟨hfeature, tempo, htempo, -⟩ := h
  exact ⟨hfeature, tempo, htempo⟩

/-- A pending revision of a storable result has a grid that is not final. -/
theorem Storable.not_contradictory (h : Storable data overview) :
    ¬ resultIsContradictory data = true := by
  rw [resultIsContradictory, Bool.and_eq_true, decide_eq_true_eq, Option.any_eq_true]
  rintro ⟨hfeature, pair, hpair, hstates⟩
  obtain ⟨-, -, hrules⟩ := h.globalGrid hfeature
  rw [Bool.and_eq_true, decide_eq_true_eq, decide_eq_true_eq] at hstates
  exact (hrules pair hpair).2.2.2.notFinal hstates.2 hstates.1

/-- Options that allow a size allow smaller ones. -/
theorem outputAllowed_mono {size total : ℕ} (hle : size ≤ total)
    (h : outputAllowed options total = true) : outputAllowed options size = true := by
  cases options with
  | none => rfl
  | some options =>
      simp only [outputAllowed, Bool.or_eq_true, decide_eq_true_eq] at h ⊢
      exact h.imp_right hle.trans

/-- The sections of a layer are laid out when the container they make is allowed. -/
theorem layoutSections_of_allowed {parts added : List Part}
    (hsize : containerSize (parts ++ added) ≤ uint64Max)
    (hallowed : outputAllowed options (containerSize (parts ++ added)) = true) :
    layoutSections options (containerSize parts) (added.map Part.size) =
      .ok (containerSize (parts ++ added)) := by
  have hgrow := containerSize_add_le parts added
  exact (layoutSections_eq_ok (((Nat.le_add_right _ _).trans hgrow).trans hsize)).mpr
    ⟨rfl, hsize, fun _ => hallowed⟩

/-- The size query gives the size of the container of a storable result, if 64 bits and the options
allow it. -/
theorem Storable.querySize (h : Storable data overview)
    (hoptions : serializationOptionsAreValid options = true)
    (hsize : containerSize (writtenParts data) ≤ uint64Max)
    (hallowed : outputAllowed options (containerSize (writtenParts data)) = true) :
    resultQuerySerializedSize data options = .ok (containerSize (writtenParts data)) := by
  have hgrid := containerSize_add_le (waveformSections data ++ metadataParts data ++ s4Parts data)
    (s6Parts data)
  have htempo := containerSize_add_le (waveformSections data ++ metadataParts data) (s4Parts data)
  have hmeta := containerSize_add_le (waveformSections data) (metadataParts data)
  rw [← writtenParts] at hgrid
  have hbelow : ∀ size ≤ containerSize (writtenParts data), size ≤ uint64Max ∧
      outputAllowed options size = true := fun size hle =>
    ⟨hle.trans hsize, outputAllowed_mono hle hallowed⟩
  have hwaveform := waveformSections_eq h.present
  have hbase : resultQuerySerializedSizeWaveform data options =
      .ok (containerSize (waveformSections data)) := by
    have hle : containerSize (waveformParts data overview) ≤
        containerSize (writtenParts data) := by
      rw [← hwaveform]
      omega
    rw [hwaveform]
    refine resultQuerySerializedSizeWaveform_eq_ok.mpr ⟨overview, h.overviewWritable hoptions
      (hbelow _ hle).1 fun size hsmall => (hbelow size (hsmall.trans hle)).2, fun hne => ?_, rfl⟩
    obtain ⟨htiles, hknown⟩ := h.tiles hne
    exact ⟨⟨htiles.readable, hknown, htiles.sorted, htiles.packed⟩, (hbelow _ hle).1,
      (hbelow _ hle).2⟩
  have hmetaSize : resultQuerySerializedSizeMeta data options =
      .ok (containerSize (waveformSections data ++ metadataParts data)) := by
    obtain ⟨hfits, hallow⟩ := hbelow (containerSize (waveformSections data ++ metadataParts data))
      (by omega)
    refine Check.bind_eq_ok.mpr ⟨_, Check.bind_eq_ok.mpr ⟨_, hbase, Check.bind_eq_ok.mpr
      ⟨_, ?_, rfl⟩⟩, rfl⟩
    refine Eq.trans ?_ (layoutSections_of_allowed hfits hallow)
    rw [metadataParts, List.map_map]
    simp only [length_metadataPayload]
    rfl
  have htempoSize : resultQuerySerializedSizeS4 data options =
      .ok (containerSize (waveformSections data ++ metadataParts data ++ s4Parts data)) := by
    obtain ⟨hfits, hallow⟩ := hbelow
      (containerSize (waveformSections data ++ metadataParts data ++ s4Parts data)) (by omega)
    refine Check.bind_eq_ok.mpr ⟨_, Check.bind_eq_ok.mpr ⟨_, hmetaSize, Check.bind_eq_ok.mpr
      ⟨(), Check.rejectIf_eq_ok.mpr ?_, Check.bind_eq_ok.mpr
        ⟨_, layoutSections_of_allowed hfits hallow, rfl⟩⟩⟩, rfl⟩
    rintro ⟨hvalid, hinvalid⟩
    exact Bool.noConfusion ((h.localGrid hvalid).1.symm.trans hinvalid)
  refine Check.bind_eq_ok.mpr ⟨(), Check.rejectIf_eq_ok.mpr h.not_contradictory,
    Check.bind_eq_ok.mpr ⟨_, Check.bind_eq_ok.mpr ⟨_, htempoSize, Check.bind_eq_ok.mpr
      ⟨(), Check.rejectIf_eq_ok.mpr ?_, Check.bind_eq_ok.mpr
        ⟨_, layoutSections_of_allowed hsize hallowed, rfl⟩⟩⟩, rfl⟩⟩
  rintro ⟨hfeature, hinvalid⟩
  obtain ⟨hbpm, hsome, hrules⟩ := h.globalGrid hfeature
  obtain ⟨pair, hpair⟩ := Option.isSome_iff_exists.mp hsome
  obtain ⟨-, -, hgridOk, hrevision⟩ := hrules pair hpair
  have hvalid : s6GlobalIsValid data = true :=
    hgridOk.s6GlobalIsValid hfeature (bpm_of_s4TempoIsValid hbpm).1 hpair hrevision
  exact Bool.noConfusion (hvalid.symm.trans hinvalid)

/-- When the size query answers for a storable result. -/
theorem Storable.querySize_iff (h : Storable data overview) {size : ℕ} :
    resultQuerySerializedSize data options = .ok size ↔
      serializationOptionsAreValid options = true ∧ size = containerSize (writtenParts data) ∧
        size ≤ uint64Max ∧ outputAllowed options size = true := by
  refine ⟨resultQuerySerializedSize_of_ok h.source.fingerprint, ?_⟩
  rintro ⟨hoptions, rfl, hsize, hallowed⟩
  exact h.querySize hoptions hsize hallowed

/-! ## The flags of the container -/

/-- A result is partial: its session is not completed, the duration of its source is unknown, or a
section is not final. -/
def resultIsPartial (data : ResultData) : Bool :=
  decide (data.sessionState ≠ .completed) || decide (data.totalSourceFrames = totalFramesUnknown) ||
    waveformUnfinished data || tempoUnfinished data || gridUnfinished data

/-- The flags of the container of a result with an overview. -/
theorem containerFlags_eq (h : data.overview = some overview) :
    containerFlags data = (if resultIsPartial data then 2 ^ flagPartialResult else 0) |||
      (if data.totalSourceFrames = totalFramesUnknown then 2 ^ flagDurationUnknown else 0) := by
  have hdetail : detailFlags data =
      if decide (detailParts data ≠ []) && data.detailTiles.any Tile.unfinished then
        2 ^ flagPartialResult else 0 := by
    rw [detailFlags, tileFlags]
    by_cases hnil : detailParts data = []
    · rw [if_pos hnil, hnil]
      rfl
    · rw [if_neg hnil, decide_eq_true hnil, Bool.true_and]
  have hoverview : overviewContainerFlags data overview =
      (if decide (overview.state ≠ stateFinal) || decide (data.sessionState ≠ .completed) ||
          decide (data.totalSourceFrames = totalFramesUnknown) then 2 ^ flagPartialResult else 0) |||
        (if data.totalSourceFrames = totalFramesUnknown then 2 ^ flagDurationUnknown else 0) := by
    rw [overviewContainerFlags]
    by_cases hstate : overview.state = stateFinal <;>
      by_cases hsession : data.sessionState = .completed <;>
      by_cases hunknown : data.totalSourceFrames = totalFramesUnknown <;>
      simp [hstate, hsession, hunknown]
  rw [containerFlags, waveformFlags, h, Option.map_some, Option.getD_some, hoverview, hdetail,
    resultIsPartial, waveformUnfinished, h, Option.any_some]
  generalize decide (overview.state ≠ stateFinal) = state
  generalize decide (data.sessionState ≠ .completed) = session
  generalize (decide (detailParts data ≠ []) && data.detailTiles.any Tile.unfinished) = detail
  generalize tempoUnfinished data = tempo
  generalize gridUnfinished data = grid
  by_cases hunknown : data.totalSourceFrames = totalFramesUnknown
  · rw [decide_eq_true hunknown, if_pos hunknown]
    cases state <;> cases session <;> cases detail <;> cases tempo <;> cases grid <;> rfl
  · rw [decide_eq_false hunknown, if_neg hunknown]
    cases state <;> cases session <;> cases detail <;> cases tempo <;> cases grid <;> rfl

/-- The flags of the container say whether the result is partial and its duration unknown. -/
theorem containerFlags_bits (h : data.overview = some overview) :
    containerFlags data < 8 ∧
      (containerFlags data).testBit flagPartialResult = resultIsPartial data ∧
      (containerFlags data).testBit flagDurationUnknown =
        decide (data.totalSourceFrames = totalFramesUnknown) := by
  rw [containerFlags_eq h]
  by_cases hunknown : data.totalSourceFrames = totalFramesUnknown
  · rw [decide_eq_true hunknown, if_pos hunknown]
    cases resultIsPartial data <;> decide
  · rw [decide_eq_false hunknown, if_neg hunknown]
    cases resultIsPartial data <;> decide

/-- A result of unknown duration is partial. -/
theorem partial_of_unknown (h : data.totalSourceFrames = totalFramesUnknown) :
    resultIsPartial data = true := by
  simp [resultIsPartial, h]

/-- The flags of the container agree with the duration of the source. -/
theorem flagsOk_containerFlags (h : data.overview = some overview) :
    FlagsOk data (containerFlags data) := by
  obtain ⟨hsmall, hpart, hduration⟩ := containerFlags_bits h
  refine ⟨hsmall, fun hunknown => ?_, fun hknown => ?_⟩
  · rw [hpart, hduration]
    exact ⟨decide_eq_true hunknown, partial_of_unknown hunknown⟩
  · rw [hduration]
    exact decide_eq_false hknown

end Storable

end LibApta.Container
