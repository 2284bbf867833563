import LibApta.Serialization.TempoGrid

/-!
# The global grid and revision sections

Payload readers of the `GGRD` and `REVN` sections: a header, a table of segments, a table of beats,
and the revision record that belongs to them. `GlobalGridOk` and `RevisionOk` say what the readers
accept.
-/

namespace LibApta.Container

open LittleEndian

/-- A representation a grid may have. -/
def representationValid (representation : ℕ) : Bool :=
  decide (representationSegments ≤ representation) && decide (representation ≤ representationHybrid)

/-! ## Header -/

/-- The header of a global grid payload. -/
structure GgrdHeader where
  version : ℕ
  state : ℕ
  confidence : ℕ
  flags : ℕ
  representation : ℕ
  coverageCount : ℕ
  segmentCount : ℕ
  beatCount : ℕ
  requestedRange : FrameRange
  evidenceRange : FrameRange
  applicabilityRange : FrameRange
  coverageRange : FrameRange
  reserved : Bytes
deriving DecidableEq

/-- The header a payload starts with. -/
def ggrdHeaderOf (payload : Bytes) : GgrdHeader where
  version := field 2 payload 0
  state := field 1 payload 2
  confidence := field 1 payload 3
  flags := field 4 payload 4
  representation := field 4 payload 8
  coverageCount := field 4 payload 12
  segmentCount := field 4 payload 16
  beatCount := field 4 payload 20
  requestedRange := ⟨field 8 payload 24, field 8 payload 32⟩
  evidenceRange := ⟨field 8 payload 40, field 8 payload 48⟩
  applicabilityRange := ⟨field 8 payload 56, field 8 payload 64⟩
  coverageRange := ⟨field 8 payload 72, field 8 payload 80⟩
  reserved := slice payload 88 8

/-- Read the header of a global grid payload. -/
def readGgrdHeader (payload : Bytes) : Check ErrorCode GgrdHeader := do
  let version ← Check.read 2 payload 0
  let state ← Check.read 1 payload 2
  let confidence ← Check.read 1 payload 3
  let flags ← Check.read 4 payload 4
  let representation ← Check.read 4 payload 8
  let coverageCount ← Check.read 4 payload 12
  let segmentCount ← Check.read 4 payload 16
  let beatCount ← Check.read 4 payload 20
  let requestedFirst ← Check.read 8 payload 24
  let requestedEnd ← Check.read 8 payload 32
  let evidenceFirst ← Check.read 8 payload 40
  let evidenceEnd ← Check.read 8 payload 48
  let applicabilityFirst ← Check.read 8 payload 56
  let applicabilityEnd ← Check.read 8 payload 64
  let coverageFirst ← Check.read 8 payload 72
  let coverageEnd ← Check.read 8 payload 80
  let reserved ← Check.view payload 88 8
  return {
    version, state, confidence, flags, representation, coverageCount, segmentCount, beatCount
    requestedRange := ⟨requestedFirst, requestedEnd⟩
    evidenceRange := ⟨evidenceFirst, evidenceEnd⟩
    applicabilityRange := ⟨applicabilityFirst, applicabilityEnd⟩
    coverageRange := ⟨coverageFirst, coverageEnd⟩
    reserved }

theorem readGgrdHeader_eq {payload : Bytes} (h : ggrdHeaderSize ≤ payload.length) :
    readGgrdHeader payload = .ok (ggrdHeaderOf payload) := by
  have hlen : 96 ≤ payload.length := h
  simp (disch := omega) only [readGgrdHeader, ggrdHeaderOf, Check.read_of_le, Check.view_of_le,
    Check.ok_bind, Check.pure_eq_ok]

/-- Check the header of a global grid payload and the size of the payload. -/
def validateGgrdHeader (context : PayloadContext) (payload : Bytes) :
    Check ErrorCode GgrdHeader := do
  Check.rejectIf (payload.length < ggrdHeaderSize) .corruptData
  let header ← readGgrdHeader payload
  Check.rejectIf (header.version ≠ 1 ∨ stateAllowed context.isPartial header.state = false ∨
    maxConfidence < header.confidence ∨ representationValid header.representation = false ∨
    header.coverageCount ≠ 1 ∨ rangeValid header.requestedRange = false ∨
    rangeValid header.evidenceRange = false ∨ rangeValid header.applicabilityRange = false ∨
    rangeValid header.coverageRange = false ∨
    (context.strict = true ∧ allZero header.reserved = false)) .corruptData
  Check.rejectIf (header.segmentCount = 0 ∨ maxSegments < header.segmentCount ∨
    maxBeats < header.beatCount ∨
    (header.representation = representationSegments ∧ header.beatCount ≠ 0) ∨
    (header.representation ≠ representationSegments ∧ header.beatCount = 0)) .corruptData
  let expectedSize ← Check.within uint64Max (ggrdHeaderSize +
    header.segmentCount * ggrdSegmentSize + header.beatCount * ggrdBeatSize)
  Check.rejectIf (payload.length ≠ expectedSize) .corruptData
  return header

/-! ## Segments -/

/-- The segment a record holds. -/
def segmentOf (record : Bytes) : Segment where
  applicabilityRange := ⟨field 8 record 0, field 8 record 8⟩
  anchorWholeFrame := field 8 record 16
  anchorFraction := field 4 record 24
  anchorOrdinal := signed (2 ^ 64) (field 8 record 32)
  framesPerBeatWhole := field 8 record 40
  framesPerBeatFraction := field 4 record 48
  beatCount := field 4 record 52
  nominalTempoMillibpm := field 4 record 56
  segmentId := field 4 record 60
  revision := field 4 record 64
  flags := field 4 record 68
  state := field 1 record 72
  confidence := field 1 record 73

/-- Read a segment record. -/
def readSegment (record : Bytes) : Check ErrorCode Segment := do
  let firstFrame ← Check.read 8 record 0
  let endFrame ← Check.read 8 record 8
  let anchorWholeFrame ← Check.read 8 record 16
  let anchorFraction ← Check.read 4 record 24
  let anchorOrdinal ← Check.read 8 record 32
  let framesPerBeatWhole ← Check.read 8 record 40
  let framesPerBeatFraction ← Check.read 4 record 48
  let beatCount ← Check.read 4 record 52
  let nominalTempoMillibpm ← Check.read 4 record 56
  let segmentId ← Check.read 4 record 60
  let revision ← Check.read 4 record 64
  let flags ← Check.read 4 record 68
  let state ← Check.read 1 record 72
  let confidence ← Check.read 1 record 73
  return {
    applicabilityRange := ⟨firstFrame, endFrame⟩
    anchorWholeFrame, anchorFraction
    anchorOrdinal := signed (2 ^ 64) anchorOrdinal
    framesPerBeatWhole, framesPerBeatFraction, beatCount, nominalTempoMillibpm, segmentId
    revision, flags, state, confidence }

theorem readSegment_eq {record : Bytes} (h : record.length = ggrdSegmentSize) :
    readSegment record = .ok (segmentOf record) := by
  have hlen : record.length = 80 := h
  simp (disch := omega) only [readSegment, segmentOf, Check.read_of_le, Check.ok_bind,
    Check.pure_eq_ok]

/-- Check a segment against the grid and the segment before it, and copy it. -/
def copySegment (capacity : ℕ) (context : PayloadContext) (applicability : FrameRange)
    (record : Bytes) (written : List Segment) : Check ErrorCode (List Segment) := do
  let segment ← readSegment record
  let reserved28 ← Check.view record 28 4
  let reserved74 ← Check.view record 74 6
  Check.rejectIf (rangeValid segment.applicabilityRange = false ∨
    segment.framesPerBeatWhole = 0 ∨ tempoInRange segment.nominalTempoMillibpm = false ∨
    stateAllowed context.isPartial segment.state = false ∨ maxConfidence < segment.confidence ∨
    (context.strict = true ∧ allZero reserved28 = false) ∨
    (context.strict = true ∧ allZero reserved74 = false) ∨
    segment.applicabilityRange.firstFrame < applicability.firstFrame ∨
    applicability.endFrame < segment.applicabilityRange.endFrame ∨
    ¬ ∀ previous ∈ written.getLast?,
      previous.applicabilityRange.endFrame ≤ segment.applicabilityRange.firstFrame) .corruptData
  Check.push capacity written segment

/-- Copy the segments of a grid into an array of the given element count. -/
def copySegments (capacity : ℕ) (context : PayloadContext) (payload : Bytes)
    (header : GgrdHeader) : Check ErrorCode (List Segment) :=
  Check.forRecords ggrdSegmentSize payload ggrdHeaderSize header.segmentCount
    (fun _ record written => copySegment capacity context header.applicabilityRange record written)
    []

/-! ## Beats -/

/-- The beat a record holds. -/
def beatOf (record : Bytes) : GridBeat where
  wholeFrame := field 8 record 0
  fraction := field 4 record 8
  ordinal := signed (2 ^ 64) (field 8 record 16)
  revision := field 4 record 24
  flags := field 4 record 28
  confidence := field 1 record 32

/-- Read a beat record. -/
def readBeat (record : Bytes) : Check ErrorCode GridBeat := do
  let wholeFrame ← Check.read 8 record 0
  let fraction ← Check.read 4 record 8
  let ordinal ← Check.read 8 record 16
  let revision ← Check.read 4 record 24
  let flags ← Check.read 4 record 28
  let confidence ← Check.read 1 record 32
  return ⟨wholeFrame, fraction, signed (2 ^ 64) ordinal, revision, flags, confidence⟩

theorem readBeat_eq {record : Bytes} (h : record.length = ggrdBeatSize) :
    readBeat record = .ok (beatOf record) := by
  have hlen : record.length = 40 := h
  simp (disch := omega) only [readBeat, beatOf, Check.read_of_le, Check.ok_bind, Check.pure_eq_ok]

/-- A beat comes after another: not earlier in position, and later in number. -/
def GridBeat.Follows (previous beat : GridBeat) : Prop :=
  ¬ (beat.wholeFrame < previous.wholeFrame ∨
    (previous.wholeFrame = beat.wholeFrame ∧ beat.fraction < previous.fraction) ∨
    beat.ordinal ≤ previous.ordinal)

instance (previous beat : GridBeat) : Decidable (GridBeat.Follows previous beat) := by
  unfold GridBeat.Follows
  infer_instance

/-- Check a beat against the grid and the beat before it, and copy it. -/
def copyBeat (capacity : ℕ) (context : PayloadContext) (applicability : FrameRange)
    (record : Bytes) (written : List GridBeat) : Check ErrorCode (List GridBeat) := do
  let beat ← readBeat record
  let reserved12 ← Check.view record 12 4
  let reserved33 ← Check.view record 33 7
  Check.rejectIf ((context.strict = true ∧ allZero reserved12 = false) ∨
    (context.strict = true ∧ allZero reserved33 = false) ∨ maxConfidence < beat.confidence ∨
    beat.wholeFrame < applicability.firstFrame ∨ applicability.endFrame ≤ beat.wholeFrame ∨
    ¬ ∀ previous ∈ written.getLast?, GridBeat.Follows previous beat) .corruptData
  Check.push capacity written beat

/-- Copy the beats of a grid, which follow its segments, into an array of the given element
count. -/
def copyBeats (capacity : ℕ) (context : PayloadContext) (payload : Bytes) (header : GgrdHeader) :
    Check ErrorCode (List GridBeat) :=
  Check.forRecords ggrdBeatSize payload (ggrdHeaderSize + header.segmentCount * ggrdSegmentSize)
    header.beatCount
    (fun _ record written => copyBeat capacity context header.applicabilityRange record written) []

/-- The grid of a header, its segments and its beats. -/
def GgrdHeader.grid (header : GgrdHeader) (segments : List Segment) (beats : List GridBeat) :
    Grid where
  requestedRange := header.requestedRange
  evidenceRange := header.evidenceRange
  applicabilityRange := header.applicabilityRange
  coverageRange := header.coverageRange
  representation := header.representation
  state := header.state
  confidence := header.confidence
  flags := header.flags
  segments := segments
  beats := beats

/-! ## Revision -/

/-- A revision payload. -/
structure RevnPayload where
  version : ℕ
  revision : Revision
  reserved : Bytes
deriving DecidableEq

/-- The fields of a revision payload. -/
def revnPayloadOf (payload : Bytes) : RevnPayload where
  version := field 2 payload 0
  revision :=
    { state := field 1 payload 2
      confidence := field 1 payload 3
      flags := field 4 payload 4
      revisionId := field 4 payload 8
      previousRevisionId := field 4 payload 12
      proposedRepresentation := field 4 payload 16
      proposedSegmentCount := field 4 payload 20
      proposedBeatCount := field 4 payload 24
      affectedRange := ⟨field 8 payload 32, field 8 payload 40⟩ }
  reserved := slice payload 28 4 ++ slice payload 48 32

/-- Read a revision payload. -/
def readRevnPayload (payload : Bytes) : Check ErrorCode RevnPayload := do
  let version ← Check.read 2 payload 0
  let state ← Check.read 1 payload 2
  let confidence ← Check.read 1 payload 3
  let flags ← Check.read 4 payload 4
  let revisionId ← Check.read 4 payload 8
  let previousRevisionId ← Check.read 4 payload 12
  let proposedRepresentation ← Check.read 4 payload 16
  let proposedSegmentCount ← Check.read 4 payload 20
  let proposedBeatCount ← Check.read 4 payload 24
  let reserved28 ← Check.view payload 28 4
  let affectedFirst ← Check.read 8 payload 32
  let affectedEnd ← Check.read 8 payload 40
  let reserved48 ← Check.view payload 48 32
  return {
    version
    revision := {
      state, confidence, flags, revisionId, previousRevisionId, proposedRepresentation
      proposedSegmentCount, proposedBeatCount
      affectedRange := ⟨affectedFirst, affectedEnd⟩ }
    reserved := reserved28 ++ reserved48 }

theorem readRevnPayload_eq {payload : Bytes} (h : payload.length = revnPayloadSize) :
    readRevnPayload payload = .ok (revnPayloadOf payload) := by
  have hlen : payload.length = 80 := h
  simp (disch := omega) only [readRevnPayload, revnPayloadOf, Check.read_of_le, Check.view_of_le,
    Check.ok_bind, Check.pure_eq_ok]

/-- Read the revision record of a grid. -/
def parseRevision (context : PayloadContext) (payload : Bytes) (grid : Grid) :
    Check ErrorCode Revision := do
  Check.rejectIf (payload.length ≠ revnPayloadSize) .corruptData
  let revn ← readRevnPayload payload
  let revision := revn.revision
  Check.rejectIf (revn.version ≠ 1 ∨
    (revision.state ≠ revisionPending ∧ revision.state ≠ revisionApplied) ∨
    (context.isPartial = false ∧ revision.state ≠ revisionApplied) ∨
    maxConfidence < revision.confidence ∨ revisionFlagBound ≤ revision.flags ∨
    revision.revisionId = 0 ∨ representationValid revision.proposedRepresentation = false ∨
    rangeValid revision.affectedRange = false ∨
    (context.strict = true ∧ allZero revn.reserved = false)) .corruptData
  Check.rejectIf ((revision.state = revisionPending ∧ grid.state = stateFinal) ∨
    revision.proposedRepresentation ≠ grid.representation ∨
    revision.proposedSegmentCount ≠ grid.segments.length ∨
    revision.proposedBeatCount ≠ grid.beats.length) .corruptData
  Check.rejectIf (¬ ∀ segment ∈ grid.segments, segment.revision = revision.revisionId) .corruptData
  Check.rejectIf (¬ ∀ beat ∈ grid.beats, beat.revision = revision.revisionId) .corruptData
  return revision

/-! ## What the readers accept -/

/-- What the reader asks of the header of a global grid payload. -/
structure GgrdHeaderOk (context : PayloadContext) (payload : Bytes) (header : GgrdHeader) :
    Prop where
  version : header.version = 1
  state : stateAllowed context.isPartial header.state = true
  confidence : header.confidence ≤ maxConfidence
  representation : representationValid header.representation = true
  coverageCount : header.coverageCount = 1
  requested : rangeValid header.requestedRange = true
  evidence : rangeValid header.evidenceRange = true
  applicability : rangeValid header.applicabilityRange = true
  coverage : rangeValid header.coverageRange = true
  reserved : context.strict = true → allZero header.reserved = true
  segments : header.segmentCount ≠ 0 ∧ header.segmentCount ≤ maxSegments
  beats : header.beatCount ≤ maxBeats
  explicit : header.representation = representationSegments ↔ header.beatCount = 0
  size : payload.length =
    ggrdHeaderSize + header.segmentCount * ggrdSegmentSize + header.beatCount * ggrdBeatSize

/-- What the reader asks of a segment by itself. -/
structure SegmentOk (isPartial : Bool) (applicability : FrameRange) (segment : Segment) :
    Prop where
  range : rangeValid segment.applicabilityRange = true
  framesPerBeat : segment.framesPerBeatWhole ≠ 0
  tempo : tempoInRange segment.nominalTempoMillibpm = true
  state : stateAllowed isPartial segment.state = true
  confidence : segment.confidence ≤ maxConfidence
  inside : applicability.firstFrame ≤ segment.applicabilityRange.firstFrame ∧
    segment.applicabilityRange.endFrame ≤ applicability.endFrame

/-- A segment lies after another. -/
def Segment.Follows (previous segment : Segment) : Prop :=
  previous.applicabilityRange.endFrame ≤ segment.applicabilityRange.firstFrame

/-- What the reader asks of a beat by itself. -/
structure BeatOk (applicability : FrameRange) (beat : GridBeat) : Prop where
  confidence : beat.confidence ≤ maxConfidence
  inside : applicability.firstFrame ≤ beat.wholeFrame ∧ beat.wholeFrame < applicability.endFrame

/-- The segment records of a payload. -/
def segmentRecords (payload : Bytes) (header : GgrdHeader) : List Bytes :=
  records ggrdSegmentSize payload ggrdHeaderSize header.segmentCount

/-- The beat records of a payload. -/
def beatRecords (payload : Bytes) (header : GgrdHeader) : List Bytes :=
  records ggrdBeatSize payload (ggrdHeaderSize + header.segmentCount * ggrdSegmentSize)
    header.beatCount

/-- What the reader asks of a global grid payload. -/
structure GlobalGridOk (context : PayloadContext) (payload : Bytes) (header : GgrdHeader) :
    Prop where
  header_eq : header = ggrdHeaderOf payload
  headerOk : GgrdHeaderOk context payload header
  segments : ∀ record ∈ segmentRecords payload header,
    SegmentOk context.isPartial header.applicabilityRange (segmentOf record)
  segmentReserved : context.strict = true → ∀ record ∈ segmentRecords payload header,
    allZero (slice record 28 4) = true ∧ allZero (slice record 74 6) = true
  segmentOrder : ((segmentRecords payload header).map segmentOf).IsChain Segment.Follows
  beats : ∀ record ∈ beatRecords payload header, BeatOk header.applicabilityRange (beatOf record)
  beatReserved : context.strict = true → ∀ record ∈ beatRecords payload header,
    allZero (slice record 12 4) = true ∧ allZero (slice record 33 7) = true
  beatOrder : ((beatRecords payload header).map beatOf).IsChain GridBeat.Follows

/-- The grid a payload describes. -/
def gridOf (payload : Bytes) : Grid :=
  (ggrdHeaderOf payload).grid ((segmentRecords payload (ggrdHeaderOf payload)).map segmentOf)
    ((beatRecords payload (ggrdHeaderOf payload)).map beatOf)

/-- What the reader asks of a revision with its grid. -/
structure RevisionOk (isPartial : Bool) (revision : Revision) (grid : Grid) : Prop where
  state : revision.state = revisionPending ∨ revision.state = revisionApplied
  applied : isPartial = false → revision.state = revisionApplied
  confidence : revision.confidence ≤ maxConfidence
  flags : revision.flags < revisionFlagBound
  revisionId : revision.revisionId ≠ 0
  representation : representationValid revision.proposedRepresentation = true
  affected : rangeValid revision.affectedRange = true
  notFinal : revision.state = revisionPending → grid.state ≠ stateFinal
  sameRepresentation : revision.proposedRepresentation = grid.representation
  segmentCount : revision.proposedSegmentCount = grid.segments.length
  beatCount : revision.proposedBeatCount = grid.beats.length
  segments : ∀ segment ∈ grid.segments, segment.revision = revision.revisionId
  beats : ∀ beat ∈ grid.beats, beat.revision = revision.revisionId

/-- What the reader asks of a revision payload. -/
structure RevnOk (context : PayloadContext) (payload : Bytes) (grid : Grid) (revision : Revision) :
    Prop where
  size : payload.length = revnPayloadSize
  revision_eq : revision = (revnPayloadOf payload).revision
  version : (revnPayloadOf payload).version = 1
  reserved : context.strict = true → allZero (revnPayloadOf payload).reserved = true
  revisionOk : RevisionOk context.isPartial revision grid

section Readers

variable {context : PayloadContext} {payload : Bytes} {header : GgrdHeader}

theorem validateGgrdHeader_eq_ok :
    validateGgrdHeader context payload = .ok header ↔
      header = ggrdHeaderOf payload ∧ GgrdHeaderOk context payload header := by
  by_cases hsize : payload.length < ggrdHeaderSize
  · constructor
    · intro h
      rw [validateGgrdHeader, Check.bind_eq_ok] at h
      obtain ⟨_, hrej, -⟩ := h
      exact absurd hsize (Check.rejectIf_eq_ok.mp hrej)
    · rintro ⟨rfl, hok⟩
      have := hok.size
      omega
  simp only [validateGgrdHeader, Check.bind_eq_ok, Check.rejectIf_eq_ok, Check.within_eq_ok,
    readGgrdHeader_eq (not_lt.mp hsize), Check.pure_eq_ok, Except.ok.injEq, exists_and_left,
    exists_const, exists_eq_left', not_or, not_and, not_lt, Bool.not_eq_false, ne_eq, not_not]
  constructor
  · rintro ⟨-, ⟨hversion, hstate, hconf, hrep, hcover, hrequested, hevidence, happ, hcoverage,
      hreserved⟩, ⟨hzero, hmax, hbeats, hnone, hsome⟩, _, ⟨-, rfl⟩, hlength, rfl⟩
    exact ⟨rfl, hversion, hstate, hconf, hrep, hcover, hrequested, hevidence, happ, hcoverage,
      hreserved, ⟨hzero, hmax⟩, hbeats, ⟨hnone, fun h => by_contra fun hne => hsome hne h⟩,
      hlength⟩
  · rintro ⟨rfl, hok⟩
    have hsegments : (ggrdHeaderOf payload).segmentCount ≤ 8 := hok.segments.2
    have hbeats : (ggrdHeaderOf payload).beatCount ≤ 3072 := hok.beats
    refine ⟨not_lt.mp hsize, ⟨hok.version, hok.state, hok.confidence, hok.representation,
      hok.coverageCount, hok.requested, hok.evidence, hok.applicability, hok.coverage,
      hok.reserved⟩, ⟨hok.segments.1, hok.segments.2, hok.beats, hok.explicit.mp,
      fun hne h => hne (hok.explicit.mpr h)⟩, _, ⟨?_, rfl⟩, hok.size, rfl⟩
    show 96 + _ * 80 + _ * 40 ≤ 18446744073709551615
    omega

theorem validateGgrdHeader_safe (context : PayloadContext) (payload : Bytes) :
    Check.Safe (validateGgrdHeader context payload) := by
  by_cases hsize : payload.length < ggrdHeaderSize
  · rw [validateGgrdHeader, Check.safe_bind_iff]
    exact ⟨Check.safe_rejectIf _ _, fun _ hrej => absurd hsize (Check.rejectIf_eq_ok.mp hrej)⟩
  simp only [validateGgrdHeader, Check.safe_bind_iff, Check.safe_rejectIf, Check.rejectIf_eq_ok,
    Check.safe_within, readGgrdHeader_eq (not_lt.mp hsize), Check.safe_ok, Except.ok.injEq,
    Check.pure_eq_ok, true_and, and_true, implies_true, forall_eq', forall_const]
  intro _ _ hcounts
  push Not at hcounts
  have hsegments : (ggrdHeaderOf payload).segmentCount ≤ 8 := hcounts.2.1
  have hbeats : (ggrdHeaderOf payload).beatCount ≤ 3072 := hcounts.2.2.1
  show 96 + _ * 80 + _ * 40 ≤ 18446744073709551615
  omega

theorem copySegment_eq_ok {capacity : ℕ} {applicability : FrameRange} {record : Bytes}
    {written result : List Segment} (hrecord : record.length = ggrdSegmentSize)
    (hroom : written.length < capacity) :
    copySegment capacity context applicability record written = .ok result ↔
      (SegmentOk context.isPartial applicability (segmentOf record) ∧
        (context.strict = true →
          allZero (slice record 28 4) = true ∧ allZero (slice record 74 6) = true)) ∧
        (∀ last ∈ written.getLast?, Segment.Follows last (segmentOf record)) ∧
        result = written ++ [segmentOf record] := by
  have hlen : record.length = 80 := hrecord
  rw [copySegment, readSegment_eq hrecord]
  simp (disch := omega) only [Check.ok_bind, Check.view_of_le, Check.push_of_lt,
    Check.bind_eq_ok, Check.rejectIf_eq_ok, Except.ok.injEq, exists_const, not_or, not_and, not_lt,
    Bool.not_eq_false, not_not]
  constructor
  · rintro ⟨⟨hrange, hbeat, htempo, hstate, hconf, h28, h74, hfirst, hend, hfollows⟩, rfl⟩
    exact ⟨⟨⟨hrange, hbeat, htempo, hstate, hconf, hfirst, hend⟩, fun hs => ⟨h28 hs, h74 hs⟩⟩,
      hfollows, rfl⟩
  · rintro ⟨⟨hok, hreserved⟩, hfollows, rfl⟩
    exact ⟨⟨hok.range, hok.framesPerBeat, hok.tempo, hok.state, hok.confidence,
      fun hs => (hreserved hs).1, fun hs => (hreserved hs).2, hok.inside.1, hok.inside.2,
      hfollows⟩, rfl⟩

theorem copyBeat_eq_ok {capacity : ℕ} {applicability : FrameRange} {record : Bytes}
    {written result : List GridBeat} (hrecord : record.length = ggrdBeatSize)
    (hroom : written.length < capacity) :
    copyBeat capacity context applicability record written = .ok result ↔
      (BeatOk applicability (beatOf record) ∧
        (context.strict = true →
          allZero (slice record 12 4) = true ∧ allZero (slice record 33 7) = true)) ∧
        (∀ last ∈ written.getLast?, GridBeat.Follows last (beatOf record)) ∧
        result = written ++ [beatOf record] := by
  have hlen : record.length = 40 := hrecord
  rw [copyBeat, readBeat_eq hrecord]
  simp (disch := omega) only [Check.ok_bind, Check.view_of_le, Check.push_of_lt,
    Check.bind_eq_ok, Check.rejectIf_eq_ok, Except.ok.injEq, exists_const, not_or, not_and, not_lt,
    not_le, Bool.not_eq_false, not_not]
  constructor
  · rintro ⟨⟨h12, h33, hconf, hfirst, hend, hfollows⟩, rfl⟩
    exact ⟨⟨⟨hconf, hfirst, hend⟩, fun hs => ⟨h12 hs, h33 hs⟩⟩, hfollows, rfl⟩
  · rintro ⟨⟨hok, hreserved⟩, hfollows, rfl⟩
    exact ⟨⟨fun hs => (hreserved hs).1, fun hs => (hreserved hs).2, hok.confidence, hok.inside.1,
      hok.inside.2, hfollows⟩, rfl⟩

theorem segments_fit (hok : GgrdHeaderOk context payload header) :
    ggrdHeaderSize + header.segmentCount * ggrdSegmentSize ≤ payload.length :=
  (Nat.le_add_right _ _).trans hok.size.ge

theorem beats_fit (hok : GgrdHeaderOk context payload header) :
    ggrdHeaderSize + header.segmentCount * ggrdSegmentSize + header.beatCount * ggrdBeatSize ≤
      payload.length := hok.size.ge

/-- What the copy of the segments accepts, and what it gives. -/
theorem copySegments_eq_ok {capacity : ℕ} {result : List Segment}
    (hok : GgrdHeaderOk context payload header) (hcapacity : header.segmentCount ≤ capacity) :
    copySegments capacity context payload header = .ok result ↔
      (∀ record ∈ segmentRecords payload header,
        SegmentOk context.isPartial header.applicabilityRange (segmentOf record) ∧
          (context.strict = true →
            allZero (slice record 28 4) = true ∧ allZero (slice record 74 6) = true)) ∧
        ((segmentRecords payload header).map segmentOf).IsChain Segment.Follows ∧
        result = (segmentRecords payload header).map segmentOf := by
  have hroom : ([] : List Segment).length + (segmentRecords payload header).length ≤ capacity := by
    rw [List.length_nil, Nat.zero_add, segmentRecords, length_records]
    exact hcapacity
  rw [copySegments, Check.forRecords_eq _ (segments_fit hok)]
  exact Check.walk_chain_eq_ok hroom fun record hmem written result hlt =>
    copySegment_eq_ok (length_of_mem_records (segments_fit hok) hmem) hlt

/-- What the copy of the beats accepts, and what it gives. -/
theorem copyBeats_eq_ok {capacity : ℕ} {result : List GridBeat}
    (hok : GgrdHeaderOk context payload header) (hcapacity : header.beatCount ≤ capacity) :
    copyBeats capacity context payload header = .ok result ↔
      (∀ record ∈ beatRecords payload header,
        BeatOk header.applicabilityRange (beatOf record) ∧
          (context.strict = true →
            allZero (slice record 12 4) = true ∧ allZero (slice record 33 7) = true)) ∧
        ((beatRecords payload header).map beatOf).IsChain GridBeat.Follows ∧
        result = (beatRecords payload header).map beatOf := by
  have hroom : ([] : List GridBeat).length + (beatRecords payload header).length ≤ capacity := by
    rw [List.length_nil, Nat.zero_add, beatRecords, length_records]
    exact hcapacity
  rw [copyBeats, Check.forRecords_eq _ (beats_fit hok)]
  exact Check.walk_chain_eq_ok hroom fun record hmem written result hlt =>
    copyBeat_eq_ok (length_of_mem_records (beats_fit hok) hmem) hlt

theorem copySegments_safe (hok : GgrdHeaderOk context payload header) :
    Check.Safe (copySegments header.segmentCount context payload header) := by
  rw [copySegments, Check.forRecords_eq _ (segments_fit hok)]
  apply Check.safe_walk_push (by rw [length_records])
  intro index record hmem written hlt
  have hlen : record.length = 80 := length_of_mem_records (segments_fit hok) hmem
  rw [copySegment, readSegment_eq hlen]
  simp (disch := omega) only [Check.ok_bind, Check.view_of_le, Check.push_of_lt]
  refine ⟨Check.safe_bind (Check.safe_rejectIf _ _) fun _ _ => Check.safe_ok _, ?_⟩
  intro result hresult
  obtain ⟨_, -, hpush⟩ := Check.bind_eq_ok.mp hresult
  exact ⟨_, (Except.ok.inj hpush).symm⟩

theorem copyBeats_safe (hok : GgrdHeaderOk context payload header) :
    Check.Safe (copyBeats header.beatCount context payload header) := by
  rw [copyBeats, Check.forRecords_eq _ (beats_fit hok)]
  apply Check.safe_walk_push (by rw [length_records])
  intro index record hmem written hlt
  have hlen : record.length = 40 := length_of_mem_records (beats_fit hok) hmem
  rw [copyBeat, readBeat_eq hlen]
  simp (disch := omega) only [Check.ok_bind, Check.view_of_le, Check.push_of_lt]
  refine ⟨Check.safe_bind (Check.safe_rejectIf _ _) fun _ _ => Check.safe_ok _, ?_⟩
  intro result hresult
  obtain ⟨_, -, hpush⟩ := Check.bind_eq_ok.mp hresult
  exact ⟨_, (Except.ok.inj hpush).symm⟩

/-- What the reader of a revision accepts, and what it gives. -/
theorem parseRevision_eq_ok {grid : Grid} {revision : Revision} :
    parseRevision context payload grid = .ok revision ↔ RevnOk context payload grid revision := by
  by_cases hsize : payload.length ≠ revnPayloadSize
  · constructor
    · intro h
      rw [parseRevision, Check.bind_eq_ok] at h
      obtain ⟨_, hrej, -⟩ := h
      exact absurd hsize (Check.rejectIf_eq_ok.mp hrej)
    · intro h
      exact absurd h.size hsize
  simp only [parseRevision, Check.bind_eq_ok, Check.rejectIf_eq_ok,
    readRevnPayload_eq (not_not.mp hsize), Check.pure_eq_ok, Except.ok.injEq, exists_and_left,
    exists_const, exists_eq_left', not_or, not_and, not_lt, not_le, Bool.not_eq_false, ne_eq,
    not_not]
  constructor
  · rintro ⟨hlength, ⟨hversion, hstate, happlied, hconf, hflags, hid, hrep, haffected, hreserved⟩,
      ⟨hfinal, hsame, hsegments, hbeats⟩, hallSegments, hallBeats, rfl⟩
    refine ⟨hlength, rfl, hversion, hreserved, ⟨?_, happlied, hconf, hflags, hid, hrep, haffected,
      hfinal, hsame, hsegments, hbeats, hallSegments, hallBeats⟩⟩
    by_cases hpending : (revnPayloadOf payload).revision.state = revisionPending
    · exact .inl hpending
    · exact .inr (hstate hpending)
  · rintro ⟨hlength, rfl, hversion, hreserved, hok⟩
    refine ⟨hlength, ⟨hversion, hok.state.resolve_left, hok.applied, hok.confidence, hok.flags,
      hok.revisionId, hok.representation, hok.affected, hreserved⟩, ⟨hok.notFinal,
      hok.sameRepresentation, hok.segmentCount, hok.beatCount⟩, hok.segments, hok.beats, rfl⟩

theorem parseRevision_safe (context : PayloadContext) (payload : Bytes) (grid : Grid) :
    Check.Safe (parseRevision context payload grid) := by
  by_cases hsize : payload.length ≠ revnPayloadSize
  · rw [parseRevision, Check.safe_bind_iff]
    exact ⟨Check.safe_rejectIf _ _, fun _ hrej => absurd hsize (Check.rejectIf_eq_ok.mp hrej)⟩
  simp only [parseRevision, Check.safe_bind_iff, Check.safe_rejectIf,
    readRevnPayload_eq (not_not.mp hsize), Check.safe_ok, Check.pure_eq_ok, true_and, implies_true]

end Readers

end LibApta.Container
