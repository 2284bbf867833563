import LibApta.Serialization.ParseResult
import LibApta.Serialization.Storable

/-!
# What is read back of a written container

The reader takes the container of a storable result layer by layer. `readBack` is the result it ends
with: the data of the sections as they were, and the fields that are not stored recomputed from them.
-/

namespace LibApta.Container

open LittleEndian Packing InPlace

/-! ## The result that is read back -/

/-- What is read back of an overview. Its confidence is not stored. -/
def readOverview (data : ResultData) (overview : Overview) : ResultData where
  specificationMajor := specVersionMajor
  specificationMinor := specVersionMinor
  producerApiVersion := apiVersion
  containerVersion := 1
  generation := 1
  availableFeatures :=
    if overview.columns.any Column.has3Band then {.waveformOverview, .waveform3Band}
    else {.waveformOverview}
  changedFeatures := {.waveformOverview}
  sessionState := if resultIsPartial data then .active else .completed
  totalSourceFrames := data.totalSourceFrames
  sourceSampleRate := data.sourceSampleRate
  sourceChannelCount := data.sourceChannelCount
  sourceChannelLayout := data.sourceChannelLayout
  fingerprintKind := data.fingerprintKind
  fingerprint := data.fingerprint
  overview := some { overview with confidence := unknownConfidence }
  detailTiles := []
  metadata := none
  tempo := none
  localGrid := none
  globalGrid := none

/-- What is read back with detail tiles. -/
def readDetail (data base : ResultData) : ResultData :=
  if detailParts data = [] then base
  else
    { base with
      detailTiles := data.detailTiles
      availableFeatures := insert .waveformDetail base.availableFeatures
      changedFeatures := insert .waveformDetail base.changedFeatures }

/-- What is read back with metadata. -/
def readMetadata (data base : ResultData) : ResultData := { base with metadata := data.metadata }

/-- What is read back with a tempo, if it was written. -/
def readTempo (data base : ResultData) : ResultData :=
  if s4TempoIsValid data then
    { base with
      tempo := data.tempo
      availableFeatures := insert .bpm (insert .confidence base.availableFeatures) }
  else base

/-- What is read back with a local grid, if it was written. -/
def readLocalGrid (data base : ResultData) : ResultData :=
  if s4GridIsValid data then
    { base with
      localGrid := data.localGrid
      availableFeatures := (if data.localGrid.any Grid.isLocked then {.gridLocking} else ∅) ∪
        insert .localBeatgrid base.availableFeatures }
  else base

/-- What is read back with a global grid, if it was written. -/
def readGrid (data base : ResultData) : ResultData :=
  if Feature.globalBeatgrid ∈ data.availableFeatures then
    (data.globalGrid.map fun pair => withGlobalGrid pair.1 pair.2 base).getD base
  else base

/-- What is read back of the container of a result. -/
def readBack (data : ResultData) (overview : Overview) : ResultData :=
  readGrid data <| readLocalGrid data <| readTempo data <| readMetadata data <|
    readDetail data (readOverview data overview)

/-! ## The sections of a written container -/

section Tags

variable {data : ResultData} {part : Part}

theorem tag_of_mem_detailParts (h : part ∈ detailParts data) : part.1 = .detail := by
  rw [detailParts] at h
  split at h
  · cases h
  · rw [List.mem_singleton.mp h]

theorem tag_of_mem_metadataParts (h : part ∈ metadataParts data) : part.1 = .metadata := by
  obtain ⟨metadata, -, rfl⟩ := List.mem_map.mp h
  rfl

/-- The section of a tempo. -/
def tempoParts (data : ResultData) : List Part :=
  if s4TempoIsValid data then data.tempo.toList.map fun tempo => (.tempo, s4WriteTemp tempo)
  else []

/-- The section of a local grid. -/
def localGridParts (data : ResultData) : List Part :=
  if s4GridIsValid data then data.localGrid.toList.flatMap fun grid =>
    grid.segments.head?.toList.map fun segment => (.localGrid, s4WriteGrid grid segment)
  else []

theorem s4Parts_eq (data : ResultData) : s4Parts data = tempoParts data ++ localGridParts data := rfl

theorem tag_of_mem_tempoParts (h : part ∈ tempoParts data) : part.1 = .tempo := by
  rw [tempoParts] at h
  split at h
  · obtain ⟨tempo, -, rfl⟩ := List.mem_map.mp h
    rfl
  · cases h

theorem tag_of_mem_localGridParts (h : part ∈ localGridParts data) : part.1 = .localGrid := by
  rw [localGridParts] at h
  split at h
  · obtain ⟨grid, -, hmem⟩ := List.mem_flatMap.mp h
    obtain ⟨segment, -, rfl⟩ := List.mem_map.mp hmem
    rfl
  · cases h

theorem tag_of_mem_s6Parts (h : part ∈ s6Parts data) :
    part.1 = .globalGrid ∨ part.1 = .revision := by
  rw [s6Parts] at h
  split at h
  · obtain ⟨pair, -, hmem⟩ := List.mem_flatMap.mp h
    rw [List.mem_cons, List.mem_singleton] at hmem
    exact hmem.imp (congrArg Prod.fst) (congrArg Prod.fst)
  · cases h

/-- A tag that only some of the sections in a row have. -/
theorem foundIn_between {tag : SectionTag} {front block back : List Part}
    (hfront : ∀ part ∈ front, part.1 ≠ tag) (hback : ∀ part ∈ back, part.1 ≠ tag) :
    foundIn tag 0 (front ++ (block ++ back)) = foundIn tag front.length block := by
  rw [foundIn_append, foundIn_append, foundIn_eq_nil hfront, foundIn_eq_nil hback, Nat.zero_add,
    List.nil_append, List.append_nil]

end Tags

section Sections

variable {data : ResultData} {overview : Overview}

/-- The sections of a result with an overview. -/
theorem writtenParts_eq (h : data.overview = some overview) :
    writtenParts data = overviewPart data overview :: (detailParts data ++ (metadataParts data ++
      (tempoParts data ++ (localGridParts data ++ s6Parts data)))) := by
  rw [writtenParts, waveformSections_eq h, waveformParts, s4Parts_eq]
  simp only [List.cons_append, List.append_assoc]

/-- Which sections do not have a tag. -/
theorem forall_ne_tag (data : ResultData) (tag : SectionTag) :
    (tag ≠ .detail → ∀ part ∈ detailParts data, part.1 ≠ tag) ∧
      (tag ≠ .metadata → ∀ part ∈ metadataParts data, part.1 ≠ tag) ∧
      (tag ≠ .tempo → ∀ part ∈ tempoParts data, part.1 ≠ tag) ∧
      (tag ≠ .localGrid → ∀ part ∈ localGridParts data, part.1 ≠ tag) ∧
      (tag ≠ .globalGrid → tag ≠ .revision → ∀ part ∈ s6Parts data, part.1 ≠ tag) := by
  refine ⟨fun hne part hpart heq => hne (heq.symm.trans (tag_of_mem_detailParts hpart)),
    fun hne part hpart heq => hne (heq.symm.trans (tag_of_mem_metadataParts hpart)),
    fun hne part hpart heq => hne (heq.symm.trans (tag_of_mem_tempoParts hpart)),
    fun hne part hpart heq => hne (heq.symm.trans (tag_of_mem_localGridParts hpart)),
    fun hgrid hrevision part hpart heq => ?_⟩
  obtain htag | htag := tag_of_mem_s6Parts hpart
  · exact hgrid (heq.symm.trans htag)
  · exact hrevision (heq.symm.trans htag)

/-- The detail section is the one behind the overview. -/
theorem foundIn_detail (h : data.overview = some overview) :
    foundIn .detail 0 (writtenParts data) = foundIn .detail 1 (detailParts data) := by
  obtain ⟨-, hmetadata, htempo, hlocal, hgrid⟩ := forall_ne_tag data .detail
  rw [writtenParts_eq h]
  refine @foundIn_between .detail [overviewPart data overview] _ _ ?_ ?_
  · exact List.forall_mem_singleton.mpr SectionTag.noConfusion
  · simp only [List.forall_mem_append]
    exact ⟨hmetadata SectionTag.noConfusion, htempo SectionTag.noConfusion,
      hlocal SectionTag.noConfusion, hgrid SectionTag.noConfusion SectionTag.noConfusion⟩

/-- The metadata section comes behind the waveform. -/
theorem foundIn_metadata (h : data.overview = some overview) :
    ∃ start, foundIn .metadata 0 (writtenParts data) =
      foundIn .metadata start (metadataParts data) := by
  obtain ⟨hdetail, -, htempo, hlocal, hgrid⟩ := forall_ne_tag data .metadata
  rw [writtenParts_eq h, ← List.cons_append]
  refine ⟨_, foundIn_between ?_ ?_⟩
  · exact List.forall_mem_cons.mpr ⟨SectionTag.noConfusion, hdetail SectionTag.noConfusion⟩
  · simp only [List.forall_mem_append]
    exact ⟨htempo SectionTag.noConfusion, hlocal SectionTag.noConfusion,
      hgrid SectionTag.noConfusion SectionTag.noConfusion⟩

/-- The tempo section comes behind the metadata. -/
theorem foundIn_tempo (h : data.overview = some overview) :
    ∃ start, foundIn .tempo 0 (writtenParts data) = foundIn .tempo start (tempoParts data) := by
  obtain ⟨hdetail, hmetadata, -, hlocal, hgrid⟩ := forall_ne_tag data .tempo
  rw [writtenParts_eq h, ← List.cons_append, ← List.append_assoc]
  refine ⟨_, foundIn_between ?_ ?_⟩
  · simp only [List.forall_mem_append, List.forall_mem_cons]
    exact ⟨⟨SectionTag.noConfusion, hdetail SectionTag.noConfusion⟩,
      hmetadata SectionTag.noConfusion⟩
  · simp only [List.forall_mem_append]
    exact ⟨hlocal SectionTag.noConfusion, hgrid SectionTag.noConfusion SectionTag.noConfusion⟩

/-- The local grid section comes behind the tempo. -/
theorem foundIn_localGrid (h : data.overview = some overview) :
    ∃ start, foundIn .localGrid 0 (writtenParts data) =
      foundIn .localGrid start (localGridParts data) := by
  obtain ⟨hdetail, hmetadata, htempo, -, hgrid⟩ := forall_ne_tag data .localGrid
  rw [writtenParts_eq h, ← List.cons_append, ← List.append_assoc, ← List.append_assoc]
  refine ⟨_, foundIn_between ?_ (hgrid SectionTag.noConfusion SectionTag.noConfusion)⟩
  simp only [List.forall_mem_append, List.forall_mem_cons]
  exact ⟨⟨⟨SectionTag.noConfusion, hdetail SectionTag.noConfusion⟩,
    hmetadata SectionTag.noConfusion⟩, htempo SectionTag.noConfusion⟩

/-- The grid and revision sections come last. -/
theorem foundIn_grid (h : data.overview = some overview) :
    ∃ start, ∀ tag, tag = .globalGrid ∨ tag = .revision →
      foundIn tag 0 (writtenParts data) = foundIn tag start (s6Parts data) := by
  rw [writtenParts_eq h, ← List.cons_append, ← List.append_assoc, ← List.append_assoc,
    ← List.append_assoc]
  set front := overviewPart data overview :: detailParts data ++ metadataParts data ++
    tempoParts data ++ localGridParts data with hfront
  refine ⟨front.length, fun tag htag => ?_⟩
  have hfound := @foundIn_between tag front (s6Parts data) [] ?_
    fun _ hmem => absurd hmem List.not_mem_nil
  · rwa [List.append_nil] at hfound
  obtain ⟨hdetail, hmetadata, htempo, hlocal, -⟩ := forall_ne_tag data tag
  simp only [hfront, List.forall_mem_append, List.forall_mem_cons]
  obtain rfl | rfl := htag <;>
    exact ⟨⟨⟨⟨SectionTag.noConfusion, hdetail SectionTag.noConfusion⟩,
      hmetadata SectionTag.noConfusion⟩, htempo SectionTag.noConfusion⟩,
      hlocal SectionTag.noConfusion⟩

/-- The sections of a written container. -/
theorem partsOk_writtenParts (h : data.overview = some overview)
    (hsize : containerSize (writtenParts data) ≤ uint64Max) :
    PartsOk (writtenParts data) (overviewPart data overview).2 := by
  refine ⟨standard_writtenParts, ?_, length_writtenParts_le.trans (by decide), hsize⟩
  obtain ⟨hdetail, hmetadata, htempo, hlocal, hgrid⟩ := forall_ne_tag data .overview
  have hrest : ((detailParts data ++ (metadataParts data ++ (tempoParts data ++
      (localGridParts data ++ s6Parts data)))).filter fun part => part.1 = .overview) = [] := by
    rw [List.filter_eq_nil_iff]
    simp only [decide_eq_true_eq, List.forall_mem_append]
    exact ⟨hdetail SectionTag.noConfusion, hmetadata SectionTag.noConfusion,
      htempo SectionTag.noConfusion, hlocal SectionTag.noConfusion,
      hgrid SectionTag.noConfusion SectionTag.noConfusion⟩
  rw [writtenParts_eq h, List.filter_cons, hrest]
  rfl

end Sections

end LibApta.Container
