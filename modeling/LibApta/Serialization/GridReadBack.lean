import LibApta.Serialization.GridStages
import LibApta.Serialization.GridWriter

/-!
# The tempo and grid payloads read back

`Typed` says that the fields of a tempo, a segment, a beat, a grid or a revision are in the ranges of
their types; a payload written of typed data decodes to the data. `Ok` collects what the readers ask
of the data itself, so that a written payload is accepted exactly when its data is, and the data of an
accepted payload keeps the rules again.
-/

namespace LibApta.Container

open LittleEndian

/-! ## Fields in the ranges of their types -/

/-- A range of 64-bit frames. -/
structure RangeTyped (range : FrameRange) : Prop where
  firstFrame : range.firstFrame < 256 ^ 8
  endFrame : range.endFrame < 256 ^ 8

/-- The fields of a selected tempo are in the ranges of their types. -/
structure SelectedTempo.Typed (selected : SelectedTempo) : Prop where
  state : selected.state < 256 ^ 1
  confidence : selected.confidence < 256 ^ 1
  flags : selected.flags < 256 ^ 4
  tempoMillibpm : selected.tempoMillibpm < 256 ^ 4
  candidateSetId : selected.candidateSetId < 256 ^ 4
  evidenceRange : RangeTyped selected.evidenceRange
  applicabilityRange : RangeTyped selected.applicabilityRange

@[inherit_doc SelectedTempo.Typed]
structure Candidate.Typed (candidate : Candidate) : Prop where
  tempoMillibpm : candidate.tempoMillibpm < 256 ^ 4
  score : candidate.score < 256 ^ 2
  confidence : candidate.confidence < 256 ^ 1
  relationToSelected : candidate.relationToSelected < 256 ^ 1
  flags : candidate.flags < 256 ^ 4

@[inherit_doc SelectedTempo.Typed]
structure Tempo.Typed (tempo : Tempo) : Prop where
  selected : tempo.selected.Typed
  candidates : ∀ candidate ∈ tempo.candidates, candidate.Typed

@[inherit_doc SelectedTempo.Typed]
structure Segment.Typed (segment : Segment) : Prop where
  applicabilityRange : RangeTyped segment.applicabilityRange
  anchorWholeFrame : segment.anchorWholeFrame < 256 ^ 8
  anchorFraction : segment.anchorFraction < 256 ^ 4
  anchorOrdinal : FitsSigned (2 ^ 64) segment.anchorOrdinal
  framesPerBeatWhole : segment.framesPerBeatWhole < 256 ^ 8
  framesPerBeatFraction : segment.framesPerBeatFraction < 256 ^ 4
  beatCount : segment.beatCount < 256 ^ 4
  nominalTempoMillibpm : segment.nominalTempoMillibpm < 256 ^ 4
  segmentId : segment.segmentId < 256 ^ 4
  revision : segment.revision < 256 ^ 4
  flags : segment.flags < 256 ^ 4
  state : segment.state < 256 ^ 1
  confidence : segment.confidence < 256 ^ 1

@[inherit_doc SelectedTempo.Typed]
structure GridBeat.Typed (beat : GridBeat) : Prop where
  wholeFrame : beat.wholeFrame < 256 ^ 8
  fraction : beat.fraction < 256 ^ 4
  ordinal : FitsSigned (2 ^ 64) beat.ordinal
  revision : beat.revision < 256 ^ 4
  flags : beat.flags < 256 ^ 4
  confidence : beat.confidence < 256 ^ 1

@[inherit_doc SelectedTempo.Typed]
structure Grid.Typed (grid : Grid) : Prop where
  requestedRange : RangeTyped grid.requestedRange
  evidenceRange : RangeTyped grid.evidenceRange
  applicabilityRange : RangeTyped grid.applicabilityRange
  coverageRange : RangeTyped grid.coverageRange
  representation : grid.representation < 256 ^ 4
  state : grid.state < 256 ^ 1
  confidence : grid.confidence < 256 ^ 1
  flags : grid.flags < 256 ^ 4
  segmentCount : grid.segments.length < 256 ^ 4
  beatCount : grid.beats.length < 256 ^ 4
  segments : ∀ segment ∈ grid.segments, segment.Typed
  beats : ∀ beat ∈ grid.beats, beat.Typed

@[inherit_doc SelectedTempo.Typed]
structure Revision.Typed (revision : Revision) : Prop where
  state : revision.state < 256 ^ 1
  confidence : revision.confidence < 256 ^ 1
  flags : revision.flags < 256 ^ 4
  revisionId : revision.revisionId < 256 ^ 4
  previousRevisionId : revision.previousRevisionId < 256 ^ 4
  proposedRepresentation : revision.proposedRepresentation < 256 ^ 4
  proposedSegmentCount : revision.proposedSegmentCount < 256 ^ 4
  proposedBeatCount : revision.proposedBeatCount < 256 ^ 4
  affectedRange : RangeTyped revision.affectedRange

/-- A signed number takes as many bytes as its type. -/
private theorem unsigned_typed (value : ℤ) : unsigned (2 ^ 64) value < 256 ^ 8 :=
  (unsigned_lt (by decide) value).trans_le (by decide)

/-- A state allowed in some result is allowed in a partial one. -/
theorem stateAllowed_partial {isPartial : Bool} {state : ℕ}
    (h : stateAllowed isPartial state = true) : stateAllowed true state = true := by
  simp only [stateAllowed, Bool.and_eq_true, Bool.true_or, and_true] at h ⊢
  exact h.1

/-! ## Tempo -/

section Tempo

variable {tempo : Tempo}

theorem candidateOf_packCandidate {candidate : Candidate} (h : candidate.Typed) :
    candidateOf (packCandidate candidate) = candidate ∧
      field 4 (packCandidate candidate) 12 = 0 := by
  obtain ⟨htempo, hscore, hconfidence, hrelation, hflags⟩ := h
  constructor <;>
    simp (disch := first | assumption | decide) only [candidateOf, packCandidate,
      List.append_assoc, field_skip, field_head, field_last, Nat.reduceSub]

/-- The header of a written tempo reads back. -/
theorem tempHeaderOf_s4WriteTemp (h : tempo.selected.Typed)
    (hcount : tempo.candidates.length < 256 ^ 4) :
    tempHeaderOf (s4WriteTemp tempo) = ⟨1, tempo.selected, tempo.candidates.length, 0⟩ := by
  obtain ⟨hstate, hconfidence, hflags, htempo, hset, ⟨hfirst, hend⟩, ⟨hfirst', hend'⟩⟩ := h
  simp (disch := first | assumption | decide) only [tempHeaderOf, s4WriteTemp, packTempHeader,
    List.append_assoc, field_skip, field_head, Nat.reduceSub]

/-- The candidate records of a written tempo are those of its candidates. -/
theorem candidateRecords_s4WriteTemp (tempo : Tempo) :
    candidateRecords (s4WriteTemp tempo) tempo.candidates.length =
      tempo.candidates.map packCandidate := by
  have hrecords := @records_flatten tempCandidateSize (tempo.candidates.map packCandidate)
    (packTempHeader tempo.selected tempo.candidates.length) [] fun record hrecord => by
      obtain ⟨candidate, -, rfl⟩ := List.mem_map.mp hrecord
      exact length_packCandidate candidate
  rw [length_packTempHeader, List.length_map, List.append_nil] at hrecords
  exact hrecords

private theorem map_candidateOf {candidates : List Candidate}
    (h : ∀ candidate ∈ candidates, candidate.Typed) :
    (candidates.map packCandidate).map candidateOf = candidates := by
  rw [List.map_map]
  conv_rhs => rw [← List.map_id candidates]
  exact List.map_congr_left fun candidate hmem => (candidateOf_packCandidate (h candidate hmem)).1

/-- A written tempo reads back. -/
theorem tempoOf_s4WriteTemp (h : tempo.Typed) (hcount : tempo.candidates.length < 256 ^ 4) :
    tempoOf (s4WriteTemp tempo) = tempo := by
  rw [tempoOf, tempHeaderOf_s4WriteTemp h.selected hcount, candidateRecords_s4WriteTemp,
    map_candidateOf h.candidates]

/-- What the reader asks of a tempo. -/
structure Tempo.Ok (isPartial : Bool) (tempo : Tempo) : Prop where
  state : stateAllowed isPartial tempo.selected.state = true
  confidence : tempo.selected.confidence ≤ maxConfidence
  inRange : tempoInRange tempo.selected.tempoMillibpm = true
  evidence : rangeValid tempo.selected.evidenceRange = true
  applicability : rangeValid tempo.selected.applicabilityRange = true
  count : tempo.candidates.length ≠ 0 ∧ tempo.candidates.length ≤ maxCandidates
  candidates : ∀ candidate ∈ tempo.candidates, tempoInRange candidate.tempoMillibpm = true ∧
    candidate.confidence ≤ maxConfidence ∧ candidate.relationToSelected ≤ maxRelation
  falling : tempo.candidates.IsChain Candidate.Falls

/-- The reader accepts a written tempo that keeps its rules. -/
theorem Tempo.Ok.tempoOk {context : PayloadContext} (h : tempo.Typed)
    (hok : tempo.Ok context.isPartial) :
    TempoOk context (s4WriteTemp tempo) (tempHeaderOf (s4WriteTemp tempo)) := by
  have hcount : tempo.candidates.length < 256 ^ 4 := hok.count.2.trans_lt (by decide)
  have hheader := tempHeaderOf_s4WriteTemp h.selected hcount
  refine ⟨rfl, ?_, ?_, ?_⟩
  · rw [hheader]
    exact ⟨rfl, hok.state, hok.confidence, hok.inRange, hok.evidence, hok.applicability,
      fun _ => rfl, hok.count, length_s4WriteTemp tempo⟩
  · rw [hheader]
    intro record hrecord
    rw [candidateRecords_s4WriteTemp] at hrecord
    obtain ⟨candidate, hmem, rfl⟩ := List.mem_map.mp hrecord
    obtain ⟨hread, hreserved⟩ := candidateOf_packCandidate (h.candidates candidate hmem)
    obtain ⟨htempo, hconfidence, hrelation⟩ := hok.candidates candidate hmem
    refine ⟨?_, ?_, ?_, fun _ => hreserved⟩ <;> rw [hread]
    exacts [htempo, hconfidence, hrelation]
  · rw [hheader, candidateRecords_s4WriteTemp, map_candidateOf h.candidates]
    exact hok.falling

/-- The tempo of a payload is typed. -/
theorem tempoOf_typed (payload : Bytes) : (tempoOf payload).Typed where
  selected := ⟨field_lt, field_lt, field_lt, field_lt, field_lt, ⟨field_lt, field_lt⟩,
    ⟨field_lt, field_lt⟩⟩
  candidates := by
    intro candidate hmem
    obtain ⟨record, -, rfl⟩ := List.mem_map.mp hmem
    exact ⟨field_lt, field_lt, field_lt, field_lt, field_lt⟩

/-- The tempo of an accepted payload keeps the rules of the reader. -/
theorem TempoOk.ok {context : PayloadContext} {payload : Bytes}
    (h : TempoOk context payload (tempHeaderOf payload)) :
    (tempoOf payload).Ok context.isPartial where
  state := h.headerOk.state
  confidence := h.headerOk.confidence
  inRange := h.headerOk.tempo
  evidence := h.headerOk.evidence
  applicability := h.headerOk.applicability
  count := by
    rw [tempoOf, List.length_map, candidateRecords, length_records]
    exact h.headerOk.count
  candidates := by
    intro candidate hmem
    obtain ⟨record, hrecord, rfl⟩ := List.mem_map.mp hmem
    exact ⟨(h.candidates record hrecord).tempo, (h.candidates record hrecord).confidence,
      (h.candidates record hrecord).relation⟩
  falling := h.falling

/-- The writer takes a tempo that the reader accepts. -/
theorem Tempo.Ok.s4TempoIsValid {data : ResultData} {isPartial : Bool}
    (hfeature : Feature.bpm ∈ data.availableFeatures) (htempo : data.tempo = some tempo)
    (hok : tempo.Ok isPartial) : s4TempoIsValid data = true := by
  simp only [Container.s4TempoIsValid, htempo, Option.any_some, Bool.and_eq_true,
    decide_eq_true_eq, List.all_eq_true]
  exact ⟨hfeature, ⟨⟨⟨⟨⟨⟨⟨hok.count.1, hok.count.2⟩, hok.inRange⟩, hok.confidence⟩,
    stateAllowed_partial hok.state⟩,
    hok.evidence⟩, hok.applicability⟩,
    fun candidate hmem => ⟨(hok.candidates candidate hmem).1, (hok.candidates candidate hmem).2.1⟩⟩⟩

end Tempo

/-! ## Local grid -/

section LocalGrid

variable {grid : Grid} {segment : Segment}

/-- The grid fields of a local grid payload, from the bytes of the grid and those of the segment. -/
private theorem field_packLgrdGrid {width offset : ℕ} (h : offset + width ≤ 80) :
    field width (s4WriteGrid grid segment) offset = field width (packLgrdGrid grid) offset := by
  rw [s4WriteGrid, field_append_left (by rwa [length_packLgrdGrid])]

private theorem field_packLgrdSegment {width offset : ℕ} (h : 80 ≤ offset) :
    field width (s4WriteGrid grid segment) offset =
      field width (packLgrdSegment segment) (offset - 80) := by
  rw [s4WriteGrid, field_append_right (by rwa [length_packLgrdGrid]), length_packLgrdGrid]

/-- The payload of a local grid, with the range of the grid for the segment. -/
def lgrdPayloadFor (grid : Grid) (segment : Segment) : LgrdPayload where
  version := 1
  state := grid.state
  confidence := grid.confidence
  flags := grid.flags
  representation := grid.representation
  segmentCount := 1
  requestedRange := grid.requestedRange
  evidenceRange := grid.evidenceRange
  coverageRange := grid.coverageRange
  segment := { segment with applicabilityRange := grid.applicabilityRange }
  reserved := [0, 0, 0, 0]

/-- A written local grid reads back. -/
theorem lgrdPayloadOf_s4WriteGrid (hgrid : grid.Typed) (hsegment : segment.Typed) :
    lgrdPayloadOf (s4WriteGrid grid segment) = lgrdPayloadFor grid segment := by
  obtain ⟨⟨hrequested, hrequested'⟩, ⟨hevidence, hevidence'⟩, ⟨happlicability, happlicability'⟩,
    ⟨hcoverage, hcoverage'⟩, hrepresentation, hstate, hconfidence, hflags, -, -, -, -⟩ := hgrid
  obtain ⟨-, hanchor, hfraction, hordinal, hwhole, hpart, hbeats, hnominal, hid, hrevision, hflags',
    hstate', hconfidence'⟩ := hsegment
  have hordinal' := unsigned_typed segment.anchorOrdinal
  have hsigned := signed_unsigned hordinal
  simp (disch := first | assumption | decide) only [lgrdPayloadOf, lgrdPayloadFor,
    field_packLgrdGrid, field_packLgrdSegment, packLgrdGrid, packLgrdSegment, List.append_assoc,
    field_skip, field_head, field_last, Nat.reduceSub, hsigned]

/-- What the reader asks of a local grid in a result of some tempo. -/
structure Grid.LocalOk (isPartial : Bool) (tempoMillibpm : ℕ) (grid : Grid) (segment : Segment) :
    Prop where
  state : stateAllowed isPartial grid.state = true
  confidence : grid.confidence ≤ maxConfidence
  representation : grid.representation = representationSegments
  requested : rangeValid grid.requestedRange = true
  evidence : rangeValid grid.evidenceRange = true
  applicability : rangeValid grid.applicabilityRange = true
  coverage : rangeValid grid.coverageRange = true
  segments : grid.segments = [segment]
  beats : grid.beats = []
  sameRange : segment.applicabilityRange = grid.applicabilityRange
  framesPerBeat : segment.framesPerBeatWhole ≠ 0
  nominal : tempoInRange segment.nominalTempoMillibpm = true
  sameTempo : segment.nominalTempoMillibpm = tempoMillibpm
  segmentState : stateAllowed isPartial segment.state = true
  segmentConfidence : segment.confidence ≤ maxConfidence

/-- The payload of a local grid that keeps the rules describes the grid. -/
theorem Grid.LocalOk.grid_eq {isPartial : Bool} {tempoMillibpm : ℕ}
    (h : grid.LocalOk isPartial tempoMillibpm segment) :
    (lgrdPayloadFor grid segment).grid = grid := by
  obtain ⟨requested, evidence, applicability, coverage, representation, state, confidence, flags,
    segments, beats⟩ := grid
  obtain ⟨-, -, hrepresentation, -, -, -, -, hsegments, hbeats, hrange, -⟩ := h
  cases segment
  dsimp only at hrepresentation hsegments hbeats hrange
  subst hrepresentation hsegments hbeats hrange
  rfl

/-- The reader accepts a written local grid that keeps its rules. -/
theorem Grid.LocalOk.localGridOk {context : PayloadContext} {tempoMillibpm : ℕ}
    (hgrid : grid.Typed) (hsegment : segment.Typed)
    (h : grid.LocalOk context.isPartial tempoMillibpm segment) :
    LocalGridOk context (s4WriteGrid grid segment) (lgrdPayloadOf (s4WriteGrid grid segment)) := by
  have hread := lgrdPayloadOf_s4WriteGrid hgrid hsegment
  rw [hread]
  exact ⟨length_s4WriteGrid grid segment, hread.symm, rfl, h.state, h.confidence, h.representation,
    rfl, h.requested, h.evidence, h.applicability, h.coverage, h.framesPerBeat, h.nominal,
    h.segmentState, h.segmentConfidence, fun _ value hvalue => by
      simpa only [lgrdPayloadFor, List.mem_cons, List.not_mem_nil, or_false, or_self] using hvalue⟩

theorem lgrdSegment_typed (payload : Bytes) : (lgrdPayloadOf payload).segment.Typed :=
  ⟨⟨field_lt, field_lt⟩, field_lt, field_lt, fitsSigned_signed field_lt, field_lt, field_lt,
    field_lt, field_lt, field_lt, field_lt, field_lt, field_lt, field_lt⟩

/-- The local grid of a payload is typed. -/
theorem lgrdGrid_typed (payload : Bytes) : (lgrdPayloadOf payload).grid.Typed where
  requestedRange := ⟨field_lt, field_lt⟩
  evidenceRange := ⟨field_lt, field_lt⟩
  applicabilityRange := ⟨field_lt, field_lt⟩
  coverageRange := ⟨field_lt, field_lt⟩
  representation := (by decide : representationSegments < 256 ^ 4)
  state := field_lt
  confidence := field_lt
  flags := field_lt
  segmentCount := (by decide : 1 < 256 ^ 4)
  beatCount := (by decide : 0 < 256 ^ 4)
  segments := fun _ hmem => List.mem_singleton.mp hmem ▸ lgrdSegment_typed payload
  beats := fun _ hmem => absurd hmem List.not_mem_nil

/-- The local grid of an accepted payload keeps the rules of the reader. -/
theorem LocalGridOk.localOk {context : PayloadContext} {payload : Bytes} {tempoMillibpm : ℕ}
    (h : LocalGridOk context payload (lgrdPayloadOf payload))
    (htempo : (lgrdPayloadOf payload).segment.nominalTempoMillibpm = tempoMillibpm) :
    (lgrdPayloadOf payload).grid.LocalOk context.isPartial tempoMillibpm
      (lgrdPayloadOf payload).segment :=
  ⟨h.state, h.confidence, rfl, h.requested, h.evidence, h.applicability, h.coverage, rfl, rfl, rfl,
    h.framesPerBeat, h.tempo, htempo, h.segmentState, h.segmentConfidence⟩

/-- The writer takes a local grid that the reader accepts. -/
theorem Grid.LocalOk.s4GridIsValid {data : ResultData} {isPartial : Bool} {tempoMillibpm : ℕ}
    (hfeature : Feature.localBeatgrid ∈ data.availableFeatures) (hgrid : data.localGrid = some grid)
    (h : grid.LocalOk isPartial tempoMillibpm segment) : s4GridIsValid data = true := by
  simp only [Container.s4GridIsValid, hgrid, Option.any_some, Bool.and_eq_true, decide_eq_true_eq,
    h.segments, List.head?_cons, List.length_singleton]
  exact ⟨hfeature, ⟨⟨⟨⟨⟨⟨⟨h.representation, trivial⟩, h.confidence⟩, stateAllowed_partial h.state⟩,
    h.requested⟩, h.evidence⟩, h.applicability⟩, h.coverage⟩,
    ⟨⟨h.framesPerBeat, h.nominal⟩, h.segmentConfidence⟩, stateAllowed_partial h.segmentState⟩

end LocalGrid

/-! ## Global grid -/

section GlobalGrid

variable {grid : Grid}

theorem segmentOf_packSegment {segment : Segment} (h : segment.Typed) :
    segmentOf (packSegment segment) = segment ∧ slice (packSegment segment) 28 4 = encode 4 0 ∧
      slice (packSegment segment) 74 6 = encode 6 0 := by
  obtain ⟨⟨hfirst, hend⟩, hanchor, hfraction, hordinal, hwhole, hpart, hbeats, hnominal, hid,
    hrevision, hflags, hstate, hconfidence⟩ := h
  have hordinal' := unsigned_typed segment.anchorOrdinal
  have hsigned := signed_unsigned hordinal
  have hlast : slice (encode 6 0) 0 6 = encode 6 0 := by decide
  refine ⟨?_, ?_, ?_⟩ <;>
    simp (disch := first | assumption | decide) only [segmentOf, packSegment, List.append_assoc,
      field_skip, field_head, slice_skip, slice_head, Nat.reduceSub, hsigned, hlast]

theorem beatOf_packBeat {beat : GridBeat} (h : beat.Typed) :
    beatOf (packBeat beat) = beat ∧ slice (packBeat beat) 12 4 = encode 4 0 ∧
      slice (packBeat beat) 33 7 = encode 7 0 := by
  obtain ⟨hwhole, hfraction, hordinal, hrevision, hflags, hconfidence⟩ := h
  have hordinal' := unsigned_typed beat.ordinal
  have hsigned := signed_unsigned hordinal
  have hlast : slice (encode 7 0) 0 7 = encode 7 0 := by decide
  refine ⟨?_, ?_, ?_⟩ <;>
    simp (disch := first | assumption | decide) only [beatOf, packBeat, List.append_assoc,
      field_skip, field_head, slice_skip, slice_head, Nat.reduceSub, hsigned, hlast]

/-- The header of a written global grid reads back. -/
theorem ggrdHeaderOf_s6WriteGrid (h : grid.Typed) :
    ggrdHeaderOf (s6WriteGrid grid) =
      { version := 1
        state := grid.state
        confidence := grid.confidence
        flags := grid.flags
        representation := grid.representation
        coverageCount := 1
        segmentCount := grid.segments.length
        beatCount := grid.beats.length
        requestedRange := grid.requestedRange
        evidenceRange := grid.evidenceRange
        applicabilityRange := grid.applicabilityRange
        coverageRange := grid.coverageRange
        reserved := encode 8 0 } := by
  obtain ⟨⟨hrequested, hrequested'⟩, ⟨hevidence, hevidence'⟩, ⟨happlicability, happlicability'⟩,
    ⟨hcoverage, hcoverage'⟩, hrepresentation, hstate, hconfidence, hflags, hsegments, hbeats, -,
    -⟩ := h
  simp (disch := first | assumption | decide) only [ggrdHeaderOf, s6WriteGrid, packGgrdHeader,
    List.append_assoc, field_skip, field_head, slice_skip, slice_head, Nat.reduceSub]

private theorem length_of_mem_packSegment {segments : List Segment} {record : Bytes}
    (h : record ∈ segments.map packSegment) : record.length = ggrdSegmentSize := by
  obtain ⟨segment, -, rfl⟩ := List.mem_map.mp h
  exact length_packSegment segment

private theorem length_of_mem_packBeat {beats : List GridBeat} {record : Bytes}
    (h : record ∈ beats.map packBeat) : record.length = ggrdBeatSize := by
  obtain ⟨beat, -, rfl⟩ := List.mem_map.mp h
  exact length_packBeat beat

/-- The segment records of a written grid are those of its segments. -/
theorem segmentRecords_s6WriteGrid (h : grid.Typed) :
    segmentRecords (s6WriteGrid grid) (ggrdHeaderOf (s6WriteGrid grid)) =
      grid.segments.map packSegment := by
  have hrecords := records_flatten (packGgrdHeader grid) (grid.beats.map packBeat).flatten
    fun record => @length_of_mem_packSegment grid.segments record
  rw [length_packGgrdHeader, List.length_map] at hrecords
  rw [segmentRecords, ggrdHeaderOf_s6WriteGrid h]
  exact hrecords

/-- The beat records of a written grid are those of its beats. -/
theorem beatRecords_s6WriteGrid (h : grid.Typed) :
    beatRecords (s6WriteGrid grid) (ggrdHeaderOf (s6WriteGrid grid)) = grid.beats.map packBeat := by
  have hrecords := records_flatten (packGgrdHeader grid ++ (grid.segments.map packSegment).flatten)
    [] fun record => @length_of_mem_packBeat grid.beats record
  rw [List.length_append, length_packGgrdHeader,
    length_flatten_of_width fun record => @length_of_mem_packSegment grid.segments record,
    List.length_map, List.length_map, List.append_nil, List.append_assoc] at hrecords
  rw [beatRecords, ggrdHeaderOf_s6WriteGrid h]
  exact hrecords

private theorem map_segmentOf {segments : List Segment} (h : ∀ segment ∈ segments, segment.Typed) :
    (segments.map packSegment).map segmentOf = segments := by
  rw [List.map_map]
  conv_rhs => rw [← List.map_id segments]
  exact List.map_congr_left fun segment hmem => (segmentOf_packSegment (h segment hmem)).1

private theorem map_beatOf {beats : List GridBeat} (h : ∀ beat ∈ beats, beat.Typed) :
    (beats.map packBeat).map beatOf = beats := by
  rw [List.map_map]
  conv_rhs => rw [← List.map_id beats]
  exact List.map_congr_left fun beat hmem => (beatOf_packBeat (h beat hmem)).1

/-- A written global grid reads back. -/
theorem gridOf_s6WriteGrid (h : grid.Typed) : gridOf (s6WriteGrid grid) = grid := by
  rw [gridOf, segmentRecords_s6WriteGrid h, beatRecords_s6WriteGrid h, map_segmentOf h.segments,
    map_beatOf h.beats, ggrdHeaderOf_s6WriteGrid h]
  rfl

/-- What the reader asks of a global grid. -/
structure Grid.GlobalOk (isPartial : Bool) (grid : Grid) : Prop where
  state : stateAllowed isPartial grid.state = true
  confidence : grid.confidence ≤ maxConfidence
  representation : representationValid grid.representation = true
  requested : rangeValid grid.requestedRange = true
  evidence : rangeValid grid.evidenceRange = true
  applicability : rangeValid grid.applicabilityRange = true
  coverage : rangeValid grid.coverageRange = true
  segmentCount : grid.segments.length ≠ 0 ∧ grid.segments.length ≤ maxSegments
  beatCount : grid.beats.length ≤ maxBeats
  explicit : grid.representation = representationSegments ↔ grid.beats.length = 0
  segments : ∀ segment ∈ grid.segments, SegmentOk isPartial grid.applicabilityRange segment
  segmentOrder : grid.segments.IsChain Segment.Follows
  beats : ∀ beat ∈ grid.beats, BeatOk grid.applicabilityRange beat
  beatOrder : grid.beats.IsChain GridBeat.Follows

/-- The reader accepts a written global grid that keeps its rules. -/
theorem Grid.GlobalOk.globalGridOk {context : PayloadContext} (h : grid.Typed)
    (hok : grid.GlobalOk context.isPartial) :
    GlobalGridOk context (s6WriteGrid grid) (ggrdHeaderOf (s6WriteGrid grid)) := by
  have hsegments := segmentRecords_s6WriteGrid h
  have hbeats := beatRecords_s6WriteGrid h
  have hheader := ggrdHeaderOf_s6WriteGrid h
  refine ⟨rfl, ?_, ?_, ?_, ?_, ?_, ?_, ?_⟩
  · rw [hheader]
    exact ⟨rfl, hok.state, hok.confidence, hok.representation, rfl, hok.requested, hok.evidence,
      hok.applicability, hok.coverage, fun _ => (by decide : allZero (encode 8 0) = true),
      hok.segmentCount, hok.beatCount, hok.explicit, length_s6WriteGrid grid⟩
  · rw [hsegments, hheader]
    intro record hrecord
    obtain ⟨segment, hmem, rfl⟩ := List.mem_map.mp hrecord
    rw [(segmentOf_packSegment (h.segments segment hmem)).1]
    exact hok.segments segment hmem
  · rw [hsegments]
    intro _ record hrecord
    obtain ⟨segment, hmem, rfl⟩ := List.mem_map.mp hrecord
    obtain ⟨-, hfirst, hlast⟩ := segmentOf_packSegment (h.segments segment hmem)
    rw [hfirst, hlast]
    exact ⟨by decide, by decide⟩
  · rw [hsegments, map_segmentOf h.segments]
    exact hok.segmentOrder
  · rw [hbeats, hheader]
    intro record hrecord
    obtain ⟨beat, hmem, rfl⟩ := List.mem_map.mp hrecord
    rw [(beatOf_packBeat (h.beats beat hmem)).1]
    exact hok.beats beat hmem
  · rw [hbeats]
    intro _ record hrecord
    obtain ⟨beat, hmem, rfl⟩ := List.mem_map.mp hrecord
    obtain ⟨-, hfirst, hlast⟩ := beatOf_packBeat (h.beats beat hmem)
    rw [hfirst, hlast]
    exact ⟨by decide, by decide⟩
  · rw [hbeats, map_beatOf h.beats]
    exact hok.beatOrder

/-- The global grid of a payload is typed. -/
theorem gridOf_typed (payload : Bytes) : (gridOf payload).Typed where
  requestedRange := ⟨field_lt, field_lt⟩
  evidenceRange := ⟨field_lt, field_lt⟩
  applicabilityRange := ⟨field_lt, field_lt⟩
  coverageRange := ⟨field_lt, field_lt⟩
  representation := field_lt
  state := field_lt
  confidence := field_lt
  flags := field_lt
  segmentCount := by
    rw [(length_gridOf payload).1]
    exact field_lt
  beatCount := by
    rw [(length_gridOf payload).2]
    exact field_lt
  segments := by
    intro segment hmem
    obtain ⟨record, -, rfl⟩ := List.mem_map.mp hmem
    exact ⟨⟨field_lt, field_lt⟩, field_lt, field_lt, fitsSigned_signed field_lt, field_lt, field_lt,
      field_lt, field_lt, field_lt, field_lt, field_lt, field_lt, field_lt⟩
  beats := by
    intro beat hmem
    obtain ⟨record, -, rfl⟩ := List.mem_map.mp hmem
    exact ⟨field_lt, field_lt, fitsSigned_signed field_lt, field_lt, field_lt, field_lt⟩

/-- The global grid of an accepted payload keeps the rules of the reader. -/
theorem GlobalGridOk.globalOk {context : PayloadContext} {payload : Bytes}
    (h : GlobalGridOk context payload (ggrdHeaderOf payload)) :
    (gridOf payload).GlobalOk context.isPartial := by
  obtain ⟨hsegments, hbeats⟩ := length_gridOf payload
  refine ⟨h.headerOk.state, h.headerOk.confidence, h.headerOk.representation, h.headerOk.requested,
    h.headerOk.evidence, h.headerOk.applicability, h.headerOk.coverage, ?_, ?_, ?_, ?_,
    h.segmentOrder, ?_, h.beatOrder⟩
  · rw [hsegments]
    exact h.headerOk.segments
  · rw [hbeats]
    exact h.headerOk.beats
  · rw [hbeats]
    exact h.headerOk.explicit
  · intro segment hmem
    obtain ⟨record, hrecord, rfl⟩ := List.mem_map.mp hmem
    exact h.segments record hrecord
  · intro beat hmem
    obtain ⟨record, hrecord, rfl⟩ := List.mem_map.mp hmem
    exact h.beats record hrecord

/-! ## Revision -/

/-- A written revision reads back. -/
theorem revnPayloadOf_s6WriteRevision {revision : Revision} (h : revision.Typed) :
    revnPayloadOf (s6WriteRevision revision) = ⟨1, revision, encode 4 0 ++ encode 32 0⟩ := by
  obtain ⟨hstate, hconfidence, hflags, hid, hprevious, hrepresentation, hsegments, hbeats,
    ⟨hfirst, hend⟩⟩ := h
  have hlast : slice (encode 32 0) 0 32 = encode 32 0 := by decide
  simp (disch := first | assumption | decide) only [revnPayloadOf, s6WriteRevision,
    List.append_assoc, field_skip, field_head, slice_skip, slice_head, Nat.reduceSub, hlast]

/-- The reader accepts a written revision that keeps its rules. -/
theorem RevisionOk.revnOk {context : PayloadContext} {revision : Revision}
    (h : revision.Typed) (hok : RevisionOk context.isPartial revision grid) :
    RevnOk context (s6WriteRevision revision) grid
      (revnPayloadOf (s6WriteRevision revision)).revision := by
  have hread := revnPayloadOf_s6WriteRevision h
  refine ⟨length_s6WriteRevision revision, rfl, ?_, ?_, ?_⟩ <;> rw [hread]
  exacts [fun _ => (by decide : allZero (encode 4 0 ++ encode 32 0) = true), hok]

theorem revision_typed (payload : Bytes) : (revnPayloadOf payload).revision.Typed :=
  ⟨field_lt, field_lt, field_lt, field_lt, field_lt, field_lt, field_lt, field_lt,
    ⟨field_lt, field_lt⟩⟩

/-- The writer takes a global grid with a revision that the reader accepts. -/
theorem Grid.GlobalOk.s6GlobalIsValid {data : ResultData} {isPartial : Bool} {revision : Revision}
    (hfeature : Feature.globalBeatgrid ∈ data.availableFeatures)
    (hbpm : Feature.bpm ∈ data.availableFeatures) (hgrid : data.globalGrid = some (grid, revision))
    (hok : grid.GlobalOk isPartial) (hrevision : RevisionOk isPartial revision grid) :
    s6GlobalIsValid data = true := by
  have hsegments : ∀ segment ∈ grid.segments,
      ((((rangeValid segment.applicabilityRange = true ∧ segment.framesPerBeatWhole ≠ 0) ∧
        tempoInRange segment.nominalTempoMillibpm = true) ∧
        stateAllowed true segment.state = true) ∧ segment.confidence ≤ maxConfidence) ∧
        segment.revision = revision.revisionId := by
    intro segment hmem
    have hsegment := hok.segments segment hmem
    exact ⟨⟨⟨⟨⟨hsegment.range, hsegment.framesPerBeat⟩, hsegment.tempo⟩,
      stateAllowed_partial hsegment.state⟩, hsegment.confidence⟩, hrevision.segments segment hmem⟩
  have hsucceeds : grid.beats.IsChain GridBeat.Succeeds :=
    hok.beatOrder.imp fun previous beat hfollows => by
      rw [GridBeat.Follows] at hfollows
      rw [GridBeat.Succeeds]
      omega
  simp only [Container.s6GlobalIsValid, hgrid, Option.any_some, Bool.and_eq_true, decide_eq_true_eq,
    Bool.or_eq_true, List.all_eq_true]
  exact ⟨⟨hfeature, hbpm⟩, ⟨⟨⟨⟨⟨⟨⟨⟨⟨⟨⟨⟨⟨⟨⟨⟨⟨⟨⟨⟨⟨hok.representation,
    stateAllowed_partial hok.state⟩, hok.confidence⟩, hok.segmentCount.1⟩, hok.segmentCount.2⟩,
    hok.beatCount⟩, hok.explicit⟩, hok.requested⟩, hok.evidence⟩, hok.applicability⟩,
    hok.coverage⟩, hrevision.revisionId⟩, hrevision.state⟩, hrevision.confidence⟩,
    hrevision.affected⟩, hrevision.sameRepresentation⟩, hrevision.segmentCount⟩,
    hrevision.beatCount⟩, hsegments⟩, hok.segmentOrder⟩,
    fun beat hmem => ⟨(hok.beats beat hmem).confidence, hrevision.beats beat hmem⟩⟩, hsucceeds⟩⟩

end GlobalGrid

end LibApta.Container
