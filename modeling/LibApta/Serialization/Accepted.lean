import LibApta.Serialization.Roundtrip

/-!
# Results of strict parses are storable

Each step of the parser sets the fields of its layer and the features that go with them. So a result
of the strict parser keeps the rules of the format, but for a rule the reader does not check: that
the duration of the source is known when a tile is final.
-/

namespace LibApta.Container

open LittleEndian Packing InPlace Cbor

/-! ## What the steps change -/

section Frames

variable {options : Option ParseOptions} {bytes : Bytes} {data data' : ResultData}

/-- Which fields the detail stage sets. -/
theorem DetailStep.frame (h : DetailStep options bytes data data') : ∃ available changed,
    data' = { data with
      detailTiles := data'.detailTiles
      availableFeatures := available
      changedFeatures := changed } := by
  rw [DetailStep] at h
  split at h
  case isTrue => exact ⟨data'.availableFeatures, data'.changedFeatures, by rw [h]⟩
  case isFalse =>
    obtain ⟨-, rfl⟩ := h
    exact ⟨_, _, rfl⟩

/-- Which field the metadata stage sets. -/
theorem MetadataStep.frame (h : MetadataStep bytes data data') :
    data' = { data with metadata := data'.metadata } := by
  obtain ⟨-, rfl⟩ | ⟨_, _, -, -, -, rfl⟩ := h <;> rfl

/-- Which fields the local grid stage sets. -/
theorem LocalGridStep.frame (h : LocalGridStep options bytes data data') : ∃ available,
    data' = { data with
      localGrid := data'.localGrid
      availableFeatures := available } := by
  obtain ⟨-, rfl⟩ | ⟨_, -, -, -, rfl⟩ := h
  · exact ⟨data'.availableFeatures, rfl⟩
  · exact ⟨_, rfl⟩

/-- Which fields the tempo stage sets. -/
theorem TempoStep.frame (h : TempoStep options bytes data data') : ∃ available,
    data' = { data with
      tempo := data'.tempo
      localGrid := data'.localGrid
      availableFeatures := available } := by
  obtain ⟨-, -, rfl⟩ | ⟨temp, -, -, hlocal⟩ := h
  · exact ⟨data'.availableFeatures, rfl⟩
  · obtain ⟨available, hframe⟩ := hlocal.frame
    rw [hframe]
    exact ⟨available, rfl⟩

/-- Which fields the grid stage sets. -/
theorem GridStep.frame (h : GridStep options bytes data data') : ∃ available,
    data' = { data with
      globalGrid := data'.globalGrid
      availableFeatures := available } := by
  obtain ⟨-, -, rfl⟩ | ⟨_, _, -, -, -, -, -, -, rfl⟩ := h
  · exact ⟨data'.availableFeatures, rfl⟩
  · exact ⟨_, rfl⟩

/-- The features of a result are those of the data it has. -/
structure Consistent (data : ResultData) : Prop where
  overview : Feature.waveformOverview ∈ data.availableFeatures
  detail : Feature.waveformDetail ∈ data.availableFeatures ↔ data.detailTiles ≠ []
  tempo : Feature.bpm ∈ data.availableFeatures ↔ data.tempo.isSome = true
  localGrid : Feature.localBeatgrid ∈ data.availableFeatures ↔ data.localGrid.isSome = true
  globalGrid : Feature.globalBeatgrid ∈ data.availableFeatures ↔ data.globalGrid.isSome = true

theorem consistent_overviewData (input : WovrInput) (header : WovrHeader)
    (spans : List SpanEntry) : Consistent (overviewData input header spans) := by
  constructor <;> rw [overviewData, baseData] <;> dsimp only <;> split_ifs <;> simp

/-- A detail section describes tiles. -/
theorem decodedTiles_ne_nil {context : TileContext} (hnone : sections bytes .detail ≠ [])
    (hok : ∀ entry ∈ sections bytes .detail, DetailSectionOk context bytes entry) :
    decodedTiles bytes (sections bytes .detail) ≠ [] := by
  obtain ⟨entry, hentry⟩ := List.exists_mem_of_ne_nil _ hnone
  have hcount := (hok entry hentry).tiles
  intro hnil
  have hempty := List.flatMap_eq_nil_iff.mp hnil entry hentry
  have hlength := congrArg List.length hempty
  rw [List.length_map, Entry.tiles, length_tileTable] at hlength
  exact hcount hlength

theorem Consistent.detailStep (h : Consistent data) (hstep : DetailStep options bytes data data') :
    Consistent data' := by
  rw [DetailStep] at hstep
  split at hstep
  case isTrue => exact hstep ▸ h
  case isFalse hsome =>
    obtain ⟨haccepted, rfl⟩ := hstep
    have htiles := decodedTiles_ne_nil hsome haccepted.ok.sections
    have hsorted : SortKey.sortKey Tile.key (decodedTiles bytes (sections bytes .detail)) ≠ [] := by
      intro hnil
      have hperm := SortKey.sortKey_perm Tile.key (decodedTiles bytes (sections bytes .detail))
      rw [hnil] at hperm
      exact htiles hperm.nil_eq.symm
    constructor <;> simp only [withDetail, Finset.mem_insert, reduceCtorEq, false_or, true_or,
      true_iff]
    exacts [h.overview, hsorted, h.tempo, h.localGrid, h.globalGrid]

theorem Consistent.metadataStep (h : Consistent data) (hstep : MetadataStep bytes data data') :
    Consistent data' := by
  rw [hstep.frame]
  exact ⟨h.overview, h.detail, h.tempo, h.localGrid, h.globalGrid⟩

theorem Consistent.localGridStep (h : Consistent data)
    (hstep : LocalGridStep options bytes data data') : Consistent data' := by
  obtain ⟨-, rfl⟩ | ⟨grid, -, -, -, rfl⟩ := hstep
  · exact h
  · constructor <;> rw [withLocalGrid] <;> dsimp only <;> split_ifs <;>
      simp [h.overview, h.detail, h.tempo, h.globalGrid]

theorem Consistent.tempoStep (h : Consistent data) (hstep : TempoStep options bytes data data') :
    Consistent data' := by
  obtain ⟨-, -, rfl⟩ | ⟨temp, -, -, hlocal⟩ := hstep
  · exact h
  · refine Consistent.localGridStep ?_ hlocal
    constructor <;> simp [withTempo, h.overview, h.detail, h.localGrid, h.globalGrid]

theorem Consistent.gridStep (h : Consistent data) (hstep : GridStep options bytes data data') :
    Consistent data' := by
  obtain ⟨-, -, rfl⟩ | ⟨_, _, -, -, -, -, -, -, rfl⟩ := hstep
  · exact h
  · constructor <;> rw [withGlobalGrid] <;> dsimp only <;> split_ifs <;>
      simp [h.overview, h.detail, h.tempo, h.localGrid]

end Frames

/-! ## What an accepted result is made of -/

section Accepted

variable {options : Option ParseOptions} {bytes : Bytes} {input : WovrInput} {header : WovrHeader}
  {spans : List SpanEntry} {data : ResultData}
  (h : Accepts options bytes input header spans data)

include h

theorem Accepts.consistent : Consistent data := by
  obtain ⟨_, _, _, hdetail, hmeta, htempo, hgrid⟩ := h.steps
  exact ((((consistent_overviewData input header spans).detailStep hdetail).metadataStep
    hmeta).tempoStep htempo).gridStep hgrid

/-- What an accepted result shares with the result of its overview. -/
theorem Accepts.frame : ∃ available changed,
    data = { overviewData input header spans with
      detailTiles := data.detailTiles
      metadata := data.metadata
      tempo := data.tempo
      localGrid := data.localGrid
      globalGrid := data.globalGrid
      availableFeatures := available
      changedFeatures := changed } := by
  obtain ⟨detailed, described, timed, hdetail, hmeta, htempo, hgrid⟩ := h.steps
  obtain ⟨_, changed, hdetail⟩ := hdetail.frame
  obtain ⟨_, htempo⟩ := htempo.frame
  obtain ⟨available, hgrid⟩ := hgrid.frame
  have hmeta := hmeta.frame
  rw [hgrid, htempo, hmeta, hdetail]
  exact ⟨available, changed, rfl⟩

/-- The tiles are those of the detail sections, in order. -/
theorem Accepts.detailTiles (hsome : data.detailTiles ≠ []) : DetailAccepted options bytes ∧
    data.detailTiles = SortKey.sortKey Tile.key (decodedTiles bytes (sections bytes .detail)) := by
  obtain ⟨detailed, described, timed, hdetail, hmeta, htempo, hgrid⟩ := h.steps
  obtain ⟨_, htempo⟩ := htempo.frame
  obtain ⟨_, hgrid⟩ := hgrid.frame
  have htiles : data.detailTiles = detailed.detailTiles := by
    rw [hgrid, htempo, hmeta.frame]
  rw [DetailStep] at hdetail
  split at hdetail
  case isTrue =>
    rw [htiles, hdetail] at hsome
    exact absurd rfl hsome
  case isFalse =>
    refine ⟨hdetail.1, ?_⟩
    rw [htiles, hdetail.2]
    rfl

theorem Accepts.metadata {metadata : Metadata} (hsome : data.metadata = some metadata) :
    metadata.isValid = true ∧ ∃ payload, metaParsePayload payload = .ok metadata := by
  obtain ⟨detailed, described, timed, hdetail, hmeta, htempo, hgrid⟩ := h.steps
  obtain ⟨_, _, hdetail⟩ := hdetail.frame
  obtain ⟨_, htempo⟩ := htempo.frame
  obtain ⟨_, hgrid⟩ := hgrid.frame
  have hsame : data.metadata = described.metadata := by rw [hgrid, htempo]
  obtain ⟨-, hnone⟩ | ⟨payload, metadata', -, hparse, hvalid, hdescribed⟩ := hmeta
  · rw [hsame, hnone, hdetail] at hsome
    cases hsome
  · rw [hsame, hdescribed] at hsome
    obtain rfl := Option.some.inj hsome
    exact ⟨hvalid, payload, hparse⟩

theorem Accepts.tempo {tempo : Tempo} (hsome : data.tempo = some tempo) :
    tempo.Typed ∧ tempo.Ok (headerOf bytes).isPartial := by
  obtain ⟨detailed, described, timed, hdetail, hmeta, htempo, hgrid⟩ := h.steps
  obtain ⟨_, _, hdetail⟩ := hdetail.frame
  obtain ⟨_, hgrid⟩ := hgrid.frame
  have hsame : data.tempo = timed.tempo := by rw [hgrid]
  obtain ⟨-, -, hnone⟩ | ⟨temp, -, hok, hlocal⟩ := htempo
  · rw [hsame, hnone, hmeta.frame, hdetail] at hsome
    cases hsome
  · obtain ⟨_, hlocal⟩ := hlocal.frame
    rw [hsame, hlocal] at hsome
    obtain rfl := Option.some.inj hsome
    exact ⟨tempoOf_typed _, hok.ok⟩

theorem Accepts.localGrid {grid : Grid} (hsome : data.localGrid = some grid) :
    ∃ tempo segment, data.tempo = some tempo ∧ grid.Typed ∧ segment.Typed ∧
      grid.LocalOk (headerOf bytes).isPartial tempo.selected.tempoMillibpm segment := by
  obtain ⟨detailed, described, timed, hdetail, hmeta, htempo, hgrid⟩ := h.steps
  obtain ⟨_, _, hdetail⟩ := hdetail.frame
  obtain ⟨_, hgrid⟩ := hgrid.frame
  have hsame : data.localGrid = timed.localGrid ∧ data.tempo = timed.tempo := by
    rw [hgrid]
    exact ⟨rfl, rfl⟩
  obtain ⟨hsame, hsameTempo⟩ := hsame
  obtain ⟨-, -, hnone⟩ | ⟨temp, -, -, ⟨-, hnone⟩ | ⟨found, -, hok, hnominal, htimed⟩⟩ := htempo
  · rw [hsame, hnone, hmeta.frame, hdetail] at hsome
    cases hsome
  · rw [hsame, hnone, withTempo, hmeta.frame, hdetail] at hsome
    cases hsome
  · rw [hsame, htimed] at hsome
    obtain rfl := Option.some.inj hsome
    rw [htimed] at hsameTempo
    exact ⟨_, _, hsameTempo, lgrdGrid_typed _, lgrdSegment_typed _, hok.localOk hnominal⟩

theorem Accepts.globalGrid {grid : Grid} {revision : Revision}
    (hsome : data.globalGrid = some (grid, revision)) :
    data.tempo.isSome = true ∧ grid.Typed ∧ revision.Typed ∧
      grid.GlobalOk (headerOf bytes).isPartial ∧
      RevisionOk (headerOf bytes).isPartial revision grid := by
  obtain ⟨detailed, described, timed, hdetail, hmeta, htempo, hgrid⟩ := h.steps
  have hconsistent := (((consistent_overviewData input header spans).detailStep
    hdetail).metadataStep hmeta).tempoStep htempo
  obtain ⟨_, _, hdetail⟩ := hdetail.frame
  obtain ⟨_, htempo⟩ := htempo.frame
  obtain ⟨-, -, hnone⟩ | ⟨ggrd, revn, -, -, -, hbpm, hok, hrevision, hdata⟩ := hgrid
  · rw [hnone, htempo, hmeta.frame, hdetail] at hsome
    cases hsome
  · rw [hdata] at hsome
    obtain ⟨rfl, rfl⟩ := Prod.mk.inj (Option.some.inj hsome)
    refine ⟨?_, gridOf_typed _, revision_typed _, hok.globalOk, hrevision.revisionOk⟩
    rw [hdata]
    exact hconsistent.tempo.mp hbpm

/-! ## Rules of accepted results -/

/-- The source of an accepted result. -/
theorem Accepts.sourceOk : SourceOk data := by
  obtain ⟨_, _, hframe⟩ := h.frame
  have hok := h.base.container.header
  have hheader := h.base.container.header_eq
  have hsize : 96 ≤ bytes.length := h.base.container.size
  rw [hframe]
  refine ⟨?_, ⟨hok.rate, ?_⟩, ⟨hok.channels, ?_⟩, ?_, ?_, hok.kind, hok.noFingerprint⟩ <;>
    rw [overviewData, baseData, hheader]
  exacts [Nat.le_of_lt_succ field_lt, Nat.le_of_lt_succ field_lt, field_lt, field_lt,
    length_slice (by omega)]

/-- The total of an accepted result. -/
theorem Accepts.total : data.totalSourceFrames = input.header.totalSourceFrames := by
  obtain ⟨_, _, hframe⟩ := h.frame
  rw [hframe]
  rfl

theorem Accepts.overview :
    data.overview = some (decodedOverview input.payload header spans) := by
  obtain ⟨_, _, hframe⟩ := h.frame
  rw [hframe]
  rfl

/-- A tile of an accepted result comes from a descriptor. -/
theorem Accepts.tile (hstrict : isStrict options = true) {tile : Tile}
    (htile : tile ∈ data.detailTiles) :
    tile.Readable data.totalSourceFrames ∧ (∀ column ∈ tile.columns, column.Typed) ∧
      (tile.state ≠ stateFinal → (headerOf bytes).isPartial = true) := by
  obtain ⟨haccepted, htiles⟩ := h.detailTiles (List.ne_nil_of_mem htile)
  rw [htiles, (SortKey.sortKey_perm Tile.key _).mem_iff] at htile
  obtain ⟨entry, hentry, htile⟩ := List.mem_flatMap.mp htile
  obtain ⟨descriptor, hdescriptor, rfl⟩ := List.mem_map.mp htile
  have hsection := haccepted.ok.sections entry hentry
  have hframes := hsection.frames descriptor hdescriptor
  have hcolumns := (hsection.data descriptor hdescriptor).columns
  rw [show (tileContext options bytes).strict = true from hstrict] at hcolumns
  obtain ⟨-, -, hreadable⟩ :=
    (readable_tileOf_iff (entry.payload bytes) descriptor hstrict).mp ⟨hframes, hcolumns⟩
  rw [h.total, h.base.container.header_eq]
  exact ⟨hreadable, fun column hcolumn => typed_of_mem_columnTable hcolumn, hframes.unfinished⟩

/-- The tiles of an accepted result keep the rules of the format. -/
theorem Accepts.tilesReadable (hstrict : isStrict options = true) (hsome : data.detailTiles ≠ []) :
    TilesReadable data.totalSourceFrames data.detailTiles := by
  obtain ⟨haccepted, htiles⟩ := h.detailTiles hsome
  have hperm := SortKey.sortKey_perm Tile.key (decodedTiles bytes (sections bytes .detail))
  rw [← htiles] at hperm
  refine ⟨fun tile htile => (h.tile hstrict htile).1, fun tile htile => (h.tile hstrict htile).2.1,
    ?_, ?_, ?_⟩
  · rw [htiles]
    rw [List.isChain_map]
    exact (SortKey.sortKey_pairwise_lt haccepted.keys).isChain
  · rw [hperm.length_eq, length_decodedTiles]
    exact haccepted.ok.tiles.1
  · rw [List.length_flatMap, (hperm.map fun tile : Tile => tile.columns.length).sum_nat,
      columns_decodedTiles]
    exact haccepted.ok.columns.1

omit h in
/-- The time in metadata that was read is a 64-bit number. -/
theorem creationUnixTime_lt {metadata : Metadata} {payload : Bytes}
    (hparse : metaParsePayload payload = .ok metadata) :
    ∀ time ∈ metadata.creationUnixTime, time < 18446744073709551616 := by
  intro time htime
  obtain ⟨entries, haccept, -, hmetadata⟩ := metaParsePayload_iff.mp hparse
  have hentry : ((5, .unsigned time) : ℕ × Item) ∈ metaEntries metadata := by
    refine mem_metaEntries.mpr ⟨(by decide : Recognized 5), ?_⟩
    show metadata.creationUnixTime.map Item.unsigned = some (.unsigned time)
    rw [htime, Option.map_some]
  rw [hmetadata, metaEntries_foldl haccept, List.mem_filter] at hentry
  obtain ⟨value, hvalue, hlt⟩ := (haccept.rules _ hentry.1).2
  obtain rfl := Item.unsigned.inj hvalue
  exact hlt

/-- A tempo of an accepted result is written. -/
theorem Accepts.s4TempoIsValid_eq : s4TempoIsValid data = data.tempo.isSome := by
  cases htempo : data.tempo with
  | none => rw [s4TempoIsValid, htempo, Option.any_none, Bool.and_false, Option.isSome_none]
  | some tempo =>
      have hfeature := h.consistent.tempo.mpr (by rw [htempo]; rfl)
      rw [Option.isSome_some]
      exact (h.tempo htempo).2.s4TempoIsValid hfeature htempo

/-- A local grid of an accepted result is written. -/
theorem Accepts.s4GridIsValid_eq : s4GridIsValid data = data.localGrid.isSome := by
  cases hgrid : data.localGrid with
  | none => rw [s4GridIsValid, hgrid, Option.any_none, Bool.and_false, Option.isSome_none]
  | some grid =>
      have hfeature := h.consistent.localGrid.mpr (by rw [hgrid]; rfl)
      obtain ⟨tempo, segment, -, -, -, hok⟩ := h.localGrid hgrid
      rw [Option.isSome_some]
      exact hok.s4GridIsValid hfeature hgrid

/-- A result of the strict reader is storable when its final tiles have a source of known
duration. -/
theorem Accepts.storable (hstrict : isStrict options = true)
    (hknown : ∀ tile ∈ data.detailTiles, tile.FinalKnown data.totalSourceFrames) :
    Storable data (decodedOverview input.payload header spans) := by
  have hconsistent := h.consistent
  refine ⟨h.sourceOk, hconsistent.overview, h.overview, ?_, fun hdetail => ?_, ?_, ?_, ?_, ?_⟩
  · have hgeometry := h.base.geometry
    have hhardening := h.hardening
    rw [hstrict] at hgeometry
    rw [← h.base.container.header_eq] at hhardening
    rw [h.total]
    exact hgeometry.stored hhardening
  · have hsome : data.detailTiles ≠ [] := fun hnil => hdetail (detailParts_eq_nil.mpr (Or.inr hnil))
    exact ⟨h.tilesReadable hstrict hsome, hknown⟩
  · intro metadata hsome
    obtain ⟨hvalid, payload, hparse⟩ := h.metadata hsome
    exact ⟨hvalid, creationUnixTime_lt hparse⟩
  · intro _ tempo hsome
    obtain ⟨htyped, hok⟩ := h.tempo hsome
    exact ⟨htyped, { hok with state := stateAllowed_partial hok.state }⟩
  · intro hvalid
    obtain ⟨grid, hgrid⟩ := localGrid_of_s4GridIsValid hvalid
    obtain ⟨tempo, segment, htempo, htyped, hsegment, hok⟩ := h.localGrid hgrid
    refine ⟨?_, fun tempo' htempo' grid' hgrid' => ⟨segment, ?_⟩⟩
    · rw [h.s4TempoIsValid_eq, htempo]
      rfl
    · obtain rfl := Option.some.inj (htempo.symm.trans htempo')
      obtain rfl := Option.some.inj (hgrid.symm.trans hgrid')
      exact ⟨htyped, hsegment, { hok with
        state := stateAllowed_partial hok.state
        segmentState := stateAllowed_partial hok.segmentState }⟩
  · intro hfeature
    have hsome := hconsistent.globalGrid.mp hfeature
    obtain ⟨⟨grid, revision⟩, hgrid⟩ := Option.isSome_iff_exists.mp hsome
    obtain ⟨htempo, htyped, hrevisionTyped, hok, hrevision⟩ := h.globalGrid hgrid
    refine ⟨h.s4TempoIsValid_eq.trans htempo, hsome, fun pair hpair => ?_⟩
    obtain rfl := Option.some.inj (hgrid.symm.trans hpair)
    exact ⟨htyped, hrevisionTyped, { hok with
      state := stateAllowed_partial hok.state
      segments := fun segment hmem => { hok.segments segment hmem with
        state := stateAllowed_partial (hok.segments segment hmem).state } },
      { hrevision with applied := fun hfinal => Bool.noConfusion hfinal }⟩

/-- An accepted result is partial when its container says so. -/
theorem Accepts.resultIsPartial_eq (hstrict : isStrict options = true) :
    resultIsPartial data = (headerOf bytes).isPartial := by
  have hheader := h.base.container.header_eq
  have hsession : data.sessionState =
      if (headerOf bytes).isPartial then .active else .completed := by
    obtain ⟨_, _, hframe⟩ := h.frame
    rw [hframe, ← hheader]
    rfl
  cases hpart : (headerOf bytes).isPartial with
  | true =>
      rw [hpart] at hsession
      simp [resultIsPartial, hsession]
  | false =>
      rw [hpart] at hsession
      -- nothing in a container that is not partial is unfinished
      have hknown : data.totalSourceFrames ≠ totalFramesUnknown := by
        intro hunknown
        have hduration := h.base.container.header.duration
        rw [DurationOk, ← h.total, if_pos hunknown, hheader, hpart] at hduration
        exact Bool.noConfusion hduration.2
      have hoverview : (decodedOverview input.payload header spans).state = stateFinal := by
        by_contra hstate
        have hunfinished := h.base.geometry.headerOk.unfinished hstate
        rw [hheader, hpart] at hunfinished
        cases hunfinished
      have htiles : data.detailTiles.any Tile.unfinished = false := by
        rw [List.any_eq_false]
        intro tile htile hstate
        have hunfinished := (h.tile hstrict htile).2.2 (of_decide_eq_true hstate)
        rw [hpart] at hunfinished
        cases hunfinished
      have hfinal : ∀ {state : ℕ}, stateAllowed false state = true → state = stateFinal := by
        intro state hallowed
        simp only [stateAllowed, Bool.false_or, Bool.and_eq_true, decide_eq_true_eq] at hallowed
        exact hallowed.2
      have htempo : tempoUnfinished data = false := by
        rw [tempoUnfinished, Bool.or_eq_false_iff, Bool.and_eq_false_imp, Bool.and_eq_false_imp]
        refine ⟨fun _ => ?_, fun _ => ?_⟩
        · rw [Option.any_eq_false]
          intro tempo hsome
          have hok := (h.tempo hsome).2
          rw [hpart] at hok
          exact decide_eq_false (not_not.mpr (hfinal hok.state))
        · rw [Option.any_eq_false]
          intro grid hsome
          obtain ⟨_, segment, -, -, -, hok⟩ := h.localGrid hsome
          rw [hpart] at hok
          simp [Grid.unfinished, hok.segments, hfinal hok.state, Segment.unfinished,
            hfinal hok.segmentState]
      have hgrid : gridUnfinished data = false := by
        rw [gridUnfinished, Bool.and_eq_false_imp]
        refine fun _ => ?_
        rw [Option.any_eq_false]
        rintro ⟨grid, revision⟩ hsome
        obtain ⟨-, -, -, hok, hrevision⟩ := h.globalGrid hsome
        rw [hpart] at hok hrevision
        have happlied := hrevision.applied rfl
        have hsegments : grid.segments.any Segment.unfinished = false := by
          rw [List.any_eq_false]
          intro segment hmem hunfinished
          exact of_decide_eq_true hunfinished (hfinal (hok.segments segment hmem).state)
        have hpending : revision.state ≠ revisionPending := by
          rw [happlied]
          decide
        simp [Grid.unfinished, hsegments, hfinal hok.state, hpending]
      rw [resultIsPartial, hsession, decide_eq_false hknown, waveformUnfinished, h.overview,
        htiles, htempo, hgrid, Option.any_some, hoverview]
      simp

end Accepted

end LibApta.Container
