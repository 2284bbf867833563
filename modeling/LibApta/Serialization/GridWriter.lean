import LibApta.Serialization.GlobalGrid

/-!
# Writing the tempo and grid payloads

The payloads of the `TEMP`, `LGRD`, `GGRD` and `REVN` sections, and the tests the writer makes of a
result before it writes them. The tests ask less than the readers do: a tempo may have candidates in
any order, a global grid segments outside its applicability range.
-/

namespace LibApta.Container

open LittleEndian

/-! ## Tempo -/

/-- `apta_s4_tempo_is_valid`. -/
def s4TempoIsValid (data : ResultData) : Bool :=
  decide (Feature.bpm ∈ data.availableFeatures) && data.tempo.any fun tempo =>
    decide (tempo.candidates.length ≠ 0) && decide (tempo.candidates.length ≤ maxCandidates) &&
      tempoInRange tempo.selected.tempoMillibpm &&
      decide (tempo.selected.confidence ≤ maxConfidence) &&
      stateAllowed true tempo.selected.state && rangeValid tempo.selected.evidenceRange &&
      rangeValid tempo.selected.applicabilityRange &&
      tempo.candidates.all fun candidate => tempoInRange candidate.tempoMillibpm &&
        decide (candidate.confidence ≤ maxConfidence)

/-- The header of a tempo payload. -/
def packTempHeader (selected : SelectedTempo) (candidateCount : ℕ) : Bytes :=
  encode 2 1 ++ encode 1 selected.state ++ encode 1 selected.confidence ++
    encode 4 selected.flags ++ encode 4 selected.tempoMillibpm ++
    encode 4 selected.candidateSetId ++ encode 8 selected.evidenceRange.firstFrame ++
    encode 8 selected.evidenceRange.endFrame ++
    encode 8 selected.applicabilityRange.firstFrame ++
    encode 8 selected.applicabilityRange.endFrame ++ encode 4 candidateCount ++ encode 4 0

/-- The record of a tempo candidate. -/
def packCandidate (candidate : Candidate) : Bytes :=
  encode 4 candidate.tempoMillibpm ++ encode 2 candidate.score ++
    encode 1 candidate.confidence ++ encode 1 candidate.relationToSelected ++
    encode 4 candidate.flags ++ encode 4 0

/-- `apta_s4_write_temp`. -/
def s4WriteTemp (tempo : Tempo) : Bytes :=
  packTempHeader tempo.selected tempo.candidates.length ++
    (tempo.candidates.map packCandidate).flatten

/-! ## Local grid -/

/-- `apta_s4_grid_is_valid`. -/
def s4GridIsValid (data : ResultData) : Bool :=
  decide (Feature.localBeatgrid ∈ data.availableFeatures) && data.localGrid.any fun grid =>
    decide (grid.representation = representationSegments) &&
      decide (grid.segments.length = 1) && decide (grid.confidence ≤ maxConfidence) &&
      stateAllowed true grid.state && rangeValid grid.requestedRange &&
      rangeValid grid.evidenceRange && rangeValid grid.applicabilityRange &&
      rangeValid grid.coverageRange &&
      grid.segments.head?.any fun segment => decide (segment.framesPerBeatWhole ≠ 0) &&
        tempoInRange segment.nominalTempoMillibpm &&
        decide (segment.confidence ≤ maxConfidence) && stateAllowed true segment.state

/-- The fields of a local grid payload that are about the grid. -/
def packLgrdGrid (grid : Grid) : Bytes :=
  encode 2 1 ++ encode 1 grid.state ++ encode 1 grid.confidence ++ encode 4 grid.flags ++
    encode 4 grid.representation ++ encode 4 1 ++ encode 8 grid.requestedRange.firstFrame ++
    encode 8 grid.requestedRange.endFrame ++ encode 8 grid.evidenceRange.firstFrame ++
    encode 8 grid.evidenceRange.endFrame ++ encode 8 grid.applicabilityRange.firstFrame ++
    encode 8 grid.applicabilityRange.endFrame ++ encode 8 grid.coverageRange.firstFrame ++
    encode 8 grid.coverageRange.endFrame

/-- The fields of a local grid payload that are about its segment. The range of the segment is not
among them. -/
def packLgrdSegment (segment : Segment) : Bytes :=
  encode 8 segment.anchorWholeFrame ++ encode 4 segment.anchorFraction ++ encode 4 0 ++
    encode 8 (unsigned (2 ^ 64) segment.anchorOrdinal) ++
    encode 8 segment.framesPerBeatWhole ++ encode 4 segment.framesPerBeatFraction ++
    encode 4 segment.beatCount ++ encode 4 segment.nominalTempoMillibpm ++
    encode 4 segment.segmentId ++ encode 4 segment.revision ++ encode 4 segment.flags ++
    encode 1 segment.state ++ encode 1 segment.confidence ++ encode 1 0 ++ encode 1 0 ++
    encode 4 0

/-- `apta_s4_write_grid`, for a grid with this first segment. -/
def s4WriteGrid (grid : Grid) (segment : Segment) : Bytes :=
  packLgrdGrid grid ++ packLgrdSegment segment

/-! ## Global grid -/

instance (previous segment : Segment) : Decidable (Segment.Follows previous segment) := by
  unfold Segment.Follows
  infer_instance

/-- A beat that comes after another as far as the writer looks: the fractions of the positions do
not count. -/
def GridBeat.Succeeds (previous beat : GridBeat) : Prop :=
  previous.wholeFrame ≤ beat.wholeFrame ∧ previous.ordinal < beat.ordinal

instance (previous beat : GridBeat) : Decidable (GridBeat.Succeeds previous beat) :=
  inferInstanceAs (Decidable (_ ∧ _))

/-- `apta_s6_global_is_valid`. -/
def s6GlobalIsValid (data : ResultData) : Bool :=
  decide (Feature.globalBeatgrid ∈ data.availableFeatures) &&
    decide (Feature.bpm ∈ data.availableFeatures) && data.globalGrid.any fun pair =>
      let grid := pair.1
      let revision := pair.2
      representationValid grid.representation && stateAllowed true grid.state &&
        decide (grid.confidence ≤ maxConfidence) && decide (grid.segments.length ≠ 0) &&
        decide (grid.segments.length ≤ maxSegments) && decide (grid.beats.length ≤ maxBeats) &&
        decide (grid.representation = representationSegments ↔ grid.beats.length = 0) &&
        rangeValid grid.requestedRange && rangeValid grid.evidenceRange &&
        rangeValid grid.applicabilityRange && rangeValid grid.coverageRange &&
        decide (revision.revisionId ≠ 0) &&
        (decide (revision.state = revisionPending) || decide (revision.state = revisionApplied)) &&
        decide (revision.confidence ≤ maxConfidence) && rangeValid revision.affectedRange &&
        decide (revision.proposedRepresentation = grid.representation) &&
        decide (revision.proposedSegmentCount = grid.segments.length) &&
        decide (revision.proposedBeatCount = grid.beats.length) &&
        (grid.segments.all fun segment => rangeValid segment.applicabilityRange &&
          decide (segment.framesPerBeatWhole ≠ 0) &&
          tempoInRange segment.nominalTempoMillibpm && stateAllowed true segment.state &&
          decide (segment.confidence ≤ maxConfidence) &&
          decide (segment.revision = revision.revisionId)) &&
        decide (grid.segments.IsChain Segment.Follows) &&
        (grid.beats.all fun beat => decide (beat.confidence ≤ maxConfidence) &&
          decide (beat.revision = revision.revisionId)) &&
        decide (grid.beats.IsChain GridBeat.Succeeds)

/-- The header of a global grid payload. -/
def packGgrdHeader (grid : Grid) : Bytes :=
  encode 2 1 ++ encode 1 grid.state ++ encode 1 grid.confidence ++ encode 4 grid.flags ++
    encode 4 grid.representation ++ encode 4 1 ++ encode 4 grid.segments.length ++
    encode 4 grid.beats.length ++ encode 8 grid.requestedRange.firstFrame ++
    encode 8 grid.requestedRange.endFrame ++ encode 8 grid.evidenceRange.firstFrame ++
    encode 8 grid.evidenceRange.endFrame ++ encode 8 grid.applicabilityRange.firstFrame ++
    encode 8 grid.applicabilityRange.endFrame ++ encode 8 grid.coverageRange.firstFrame ++
    encode 8 grid.coverageRange.endFrame ++ encode 8 0

/-- The record of a segment. -/
def packSegment (segment : Segment) : Bytes :=
  encode 8 segment.applicabilityRange.firstFrame ++
    encode 8 segment.applicabilityRange.endFrame ++ encode 8 segment.anchorWholeFrame ++
    encode 4 segment.anchorFraction ++ encode 4 0 ++
    encode 8 (unsigned (2 ^ 64) segment.anchorOrdinal) ++
    encode 8 segment.framesPerBeatWhole ++ encode 4 segment.framesPerBeatFraction ++
    encode 4 segment.beatCount ++ encode 4 segment.nominalTempoMillibpm ++
    encode 4 segment.segmentId ++ encode 4 segment.revision ++ encode 4 segment.flags ++
    encode 1 segment.state ++ encode 1 segment.confidence ++ encode 6 0

/-- The record of a beat. -/
def packBeat (beat : GridBeat) : Bytes :=
  encode 8 beat.wholeFrame ++ encode 4 beat.fraction ++ encode 4 0 ++
    encode 8 (unsigned (2 ^ 64) beat.ordinal) ++ encode 4 beat.revision ++
    encode 4 beat.flags ++ encode 1 beat.confidence ++ encode 7 0

/-- `apta_s6_write_grid`. -/
def s6WriteGrid (grid : Grid) : Bytes :=
  packGgrdHeader grid ++ ((grid.segments.map packSegment).flatten ++
    (grid.beats.map packBeat).flatten)

/-- `apta_s6_write_revision`. -/
def s6WriteRevision (revision : Revision) : Bytes :=
  encode 2 1 ++ encode 1 revision.state ++ encode 1 revision.confidence ++
    encode 4 revision.flags ++ encode 4 revision.revisionId ++
    encode 4 revision.previousRevisionId ++ encode 4 revision.proposedRepresentation ++
    encode 4 revision.proposedSegmentCount ++ encode 4 revision.proposedBeatCount ++
    encode 4 0 ++ encode 8 revision.affectedRange.firstFrame ++
    encode 8 revision.affectedRange.endFrame ++ encode 32 0

/-! ## Sizes -/

theorem length_packCandidate (candidate : Candidate) :
    (packCandidate candidate).length = tempCandidateSize := by
  simp only [packCandidate, List.length_append, length_encode]

theorem length_packTempHeader (selected : SelectedTempo) (candidateCount : ℕ) :
    (packTempHeader selected candidateCount).length = tempHeaderSize := by
  simp only [packTempHeader, List.length_append, length_encode]

theorem length_packGgrdHeader (grid : Grid) : (packGgrdHeader grid).length = ggrdHeaderSize := by
  simp only [packGgrdHeader, List.length_append, length_encode]

theorem length_packSegment (segment : Segment) :
    (packSegment segment).length = ggrdSegmentSize := by
  simp only [packSegment, List.length_append, length_encode]

theorem length_packBeat (beat : GridBeat) : (packBeat beat).length = ggrdBeatSize := by
  simp only [packBeat, List.length_append, length_encode]

/-- The size of a table of records of one width made from items. -/
private theorem length_packed {α : Type} {pack : α → Bytes} {width : ℕ}
    (h : ∀ item, (pack item).length = width) (items : List α) :
    (items.map pack).flatten.length = items.length * width := by
  rw [length_flatten_of_width fun record hrecord => ?_, List.length_map]
  obtain ⟨item, -, rfl⟩ := List.mem_map.mp hrecord
  exact h item

theorem length_s4WriteTemp (tempo : Tempo) :
    (s4WriteTemp tempo).length = tempHeaderSize + tempo.candidates.length * tempCandidateSize := by
  rw [s4WriteTemp, List.length_append, length_packTempHeader, length_packed length_packCandidate]

theorem length_packLgrdGrid (grid : Grid) : (packLgrdGrid grid).length = 80 := by
  simp only [packLgrdGrid, List.length_append, length_encode]

theorem length_packLgrdSegment (segment : Segment) : (packLgrdSegment segment).length = 64 := by
  simp only [packLgrdSegment, List.length_append, length_encode]

theorem length_s4WriteGrid (grid : Grid) (segment : Segment) :
    (s4WriteGrid grid segment).length = lgrdPayloadSize := by
  rw [s4WriteGrid, List.length_append, length_packLgrdGrid, length_packLgrdSegment]

theorem length_s6WriteGrid (grid : Grid) :
    (s6WriteGrid grid).length = ggrdHeaderSize + grid.segments.length * ggrdSegmentSize +
      grid.beats.length * ggrdBeatSize := by
  rw [s6WriteGrid, List.length_append, List.length_append, length_packGgrdHeader,
    length_packed length_packSegment, length_packed length_packBeat, Nat.add_assoc]

theorem length_s6WriteRevision (revision : Revision) :
    (s6WriteRevision revision).length = revnPayloadSize := by
  simp only [s6WriteRevision, List.length_append, length_encode]

end LibApta.Container
