import LibApta.Serialization.Format

/-!
# The tempo and local grid sections

Payload readers of the `TEMP` and `LGRD` sections. A tempo carries up to three candidates with
falling scores; a local grid has one coverage range and one segment, of the tempo of the tempo
section. `TempoOk` and `LocalGridOk` say what the readers accept.
-/

namespace LibApta.Container

open LittleEndian

/-! ## Shared tests -/

/-- A state a grid or tempo may have; in a finished result it is final. -/
def stateAllowed (isPartial : Bool) (state : ℕ) : Bool :=
  decide (stateProvisional ≤ state) && decide (state ≤ stateFinal) &&
    (isPartial || decide (state = stateFinal))

/-- A tempo within the reference bounds. -/
def tempoInRange (millibpm : ℕ) : Bool :=
  decide (minMillibpm ≤ millibpm) && decide (millibpm ≤ maxMillibpm)

/-- A range with at least one frame. -/
def rangeValid (range : FrameRange) : Bool := decide (range.firstFrame < range.endFrame)

/-- Every byte is zero. -/
def allZero (bytes : Bytes) : Bool := bytes.all fun byte => decide (byte = 0)

/-- What a reader of a tempo or grid payload uses of the options and the container. -/
structure PayloadContext where
  strict : Bool
  isPartial : Bool
deriving DecidableEq

/-! ## Tempo -/

/-- The header of a tempo payload. -/
structure TempHeader where
  version : ℕ
  selected : SelectedTempo
  candidateCount : ℕ
  reserved : ℕ
deriving DecidableEq

/-- The header a payload starts with. -/
def tempHeaderOf (payload : Bytes) : TempHeader where
  version := field 2 payload 0
  selected :=
    { state := field 1 payload 2
      confidence := field 1 payload 3
      flags := field 4 payload 4
      tempoMillibpm := field 4 payload 8
      candidateSetId := field 4 payload 12
      evidenceRange := ⟨field 8 payload 16, field 8 payload 24⟩
      applicabilityRange := ⟨field 8 payload 32, field 8 payload 40⟩ }
  candidateCount := field 4 payload 48
  reserved := field 4 payload 52

/-- Read the header of a tempo payload. -/
def readTempHeader (payload : Bytes) : Check ErrorCode TempHeader := do
  let version ← Check.read 2 payload 0
  let state ← Check.read 1 payload 2
  let confidence ← Check.read 1 payload 3
  let flags ← Check.read 4 payload 4
  let tempoMillibpm ← Check.read 4 payload 8
  let candidateSetId ← Check.read 4 payload 12
  let evidenceFirst ← Check.read 8 payload 16
  let evidenceEnd ← Check.read 8 payload 24
  let applicabilityFirst ← Check.read 8 payload 32
  let applicabilityEnd ← Check.read 8 payload 40
  let candidateCount ← Check.read 4 payload 48
  let reserved ← Check.read 4 payload 52
  return {
    version
    selected := {
      state, confidence, flags, tempoMillibpm, candidateSetId
      evidenceRange := ⟨evidenceFirst, evidenceEnd⟩
      applicabilityRange := ⟨applicabilityFirst, applicabilityEnd⟩ }
    candidateCount, reserved }

theorem readTempHeader_eq {payload : Bytes} (h : tempHeaderSize ≤ payload.length) :
    readTempHeader payload = .ok (tempHeaderOf payload) := by
  have hlen : 56 ≤ payload.length := h
  simp (disch := omega) only [readTempHeader, tempHeaderOf, Check.read_of_le, Check.ok_bind,
    Check.pure_eq_ok]

/-- Check the header of a tempo payload and the size of the payload. -/
def validateTempHeader (context : PayloadContext) (payload : Bytes) :
    Check ErrorCode TempHeader := do
  Check.rejectIf (payload.length < tempHeaderSize) .corruptData
  let header ← readTempHeader payload
  Check.rejectIf (header.version ≠ 1 ∨
    stateAllowed context.isPartial header.selected.state = false ∨
    maxConfidence < header.selected.confidence ∨
    tempoInRange header.selected.tempoMillibpm = false ∨
    rangeValid header.selected.evidenceRange = false ∨
    rangeValid header.selected.applicabilityRange = false ∨
    (context.strict = true ∧ header.reserved ≠ 0)) .corruptData
  Check.rejectIf (header.candidateCount = 0 ∨ maxCandidates < header.candidateCount) .corruptData
  let expectedSize ← Check.within uint64Max
    (tempHeaderSize + header.candidateCount * tempCandidateSize)
  Check.rejectIf (payload.length ≠ expectedSize) .corruptData
  return header

/-- The candidate a record holds. -/
def candidateOf (record : Bytes) : Candidate where
  tempoMillibpm := field 4 record 0
  score := field 2 record 4
  confidence := field 1 record 6
  relationToSelected := field 1 record 7
  flags := field 4 record 8

/-- Read a candidate record. -/
def readCandidate (record : Bytes) : Check ErrorCode Candidate := do
  let tempoMillibpm ← Check.read 4 record 0
  let score ← Check.read 2 record 4
  let confidence ← Check.read 1 record 6
  let relationToSelected ← Check.read 1 record 7
  let flags ← Check.read 4 record 8
  return ⟨tempoMillibpm, score, confidence, relationToSelected, flags⟩

theorem readCandidate_eq {record : Bytes} (h : record.length = tempCandidateSize) :
    readCandidate record = .ok (candidateOf record) := by
  have hlen : record.length = 16 := h
  simp (disch := omega) only [readCandidate, candidateOf, Check.read_of_le, Check.ok_bind,
    Check.pure_eq_ok]

/-- Check a candidate against the one before it and copy it. -/
def copyCandidate (capacity : ℕ) (context : PayloadContext) (record : Bytes)
    (written : List Candidate) : Check ErrorCode (List Candidate) := do
  let candidate ← readCandidate record
  let reserved ← Check.read 4 record 12
  Check.rejectIf (tempoInRange candidate.tempoMillibpm = false ∨
    maxConfidence < candidate.confidence ∨ maxRelation < candidate.relationToSelected ∨
    (context.strict = true ∧ reserved ≠ 0) ∨
    ¬ ∀ previous ∈ written.getLast?, candidate.score ≤ previous.score) .corruptData
  Check.push capacity written candidate

/-- Copy the candidates of a tempo payload into an array of the given element count. -/
def copyCandidates (capacity : ℕ) (context : PayloadContext) (payload : Bytes) (count : ℕ) :
    Check ErrorCode (List Candidate) :=
  Check.forRecords tempCandidateSize payload tempHeaderSize count
    (fun _ record written => copyCandidate capacity context record written) []

/-- What the reader asks of a candidate record. -/
structure CandidateOk (context : PayloadContext) (record : Bytes) : Prop where
  tempo : tempoInRange (candidateOf record).tempoMillibpm = true
  confidence : (candidateOf record).confidence ≤ maxConfidence
  relation : (candidateOf record).relationToSelected ≤ maxRelation
  reserved : context.strict = true → field 4 record 12 = 0

/-- What the reader asks of the header of a tempo payload. -/
structure TempHeaderOk (context : PayloadContext) (payload : Bytes) (header : TempHeader) :
    Prop where
  version : header.version = 1
  state : stateAllowed context.isPartial header.selected.state = true
  confidence : header.selected.confidence ≤ maxConfidence
  tempo : tempoInRange header.selected.tempoMillibpm = true
  evidence : rangeValid header.selected.evidenceRange = true
  applicability : rangeValid header.selected.applicabilityRange = true
  reserved : context.strict = true → header.reserved = 0
  count : header.candidateCount ≠ 0 ∧ header.candidateCount ≤ maxCandidates
  size : payload.length = tempHeaderSize + header.candidateCount * tempCandidateSize

/-- Candidates in the order of falling scores. -/
def Candidate.Falls (previous candidate : Candidate) : Prop := candidate.score ≤ previous.score

/-- The candidate records of a payload. -/
def candidateRecords (payload : Bytes) (count : ℕ) : List Bytes :=
  records tempCandidateSize payload tempHeaderSize count

/-- What the reader asks of a tempo payload. -/
structure TempoOk (context : PayloadContext) (payload : Bytes) (header : TempHeader) : Prop where
  header_eq : header = tempHeaderOf payload
  headerOk : TempHeaderOk context payload header
  candidates : ∀ record ∈ candidateRecords payload header.candidateCount, CandidateOk context record
  falling : ((candidateRecords payload header.candidateCount).map candidateOf).IsChain
    Candidate.Falls

section Tempo

variable {context : PayloadContext} {payload : Bytes} {header : TempHeader}

theorem validateTempHeader_eq_ok :
    validateTempHeader context payload = .ok header ↔
      header = tempHeaderOf payload ∧ TempHeaderOk context payload header := by
  by_cases hsize : payload.length < tempHeaderSize
  · constructor
    · intro h
      rw [validateTempHeader, Check.bind_eq_ok] at h
      obtain ⟨_, hrej, -⟩ := h
      exact absurd hsize (Check.rejectIf_eq_ok.mp hrej)
    · rintro ⟨rfl, hok⟩
      have := hok.size
      omega
  simp only [validateTempHeader, Check.bind_eq_ok, Check.rejectIf_eq_ok, Check.within_eq_ok,
    readTempHeader_eq (not_lt.mp hsize), Check.pure_eq_ok, Except.ok.injEq, exists_and_left,
    exists_const, exists_eq_left', not_or, not_and, not_lt, Bool.not_eq_false, ne_eq, not_not]
  constructor
  · rintro ⟨-, ⟨hversion, hstate, hconf, htempo, hevidence, happlicability, hreserved⟩, hcount, _,
      ⟨-, rfl⟩, hlength, rfl⟩
    exact ⟨rfl, hversion, hstate, hconf, htempo, hevidence, happlicability, hreserved, hcount,
      hlength⟩
  · rintro ⟨rfl, hok⟩
    have hcount : (tempHeaderOf payload).candidateCount ≤ 3 := hok.count.2
    refine ⟨not_lt.mp hsize, ⟨hok.version, hok.state, hok.confidence, hok.tempo, hok.evidence,
      hok.applicability, hok.reserved⟩, hok.count, _, ⟨?_, rfl⟩, hok.size, rfl⟩
    show 56 + _ * 16 ≤ 18446744073709551615
    omega

theorem validateTempHeader_safe (context : PayloadContext) (payload : Bytes) :
    Check.Safe (validateTempHeader context payload) := by
  by_cases hsize : payload.length < tempHeaderSize
  · rw [validateTempHeader, Check.safe_bind_iff]
    exact ⟨Check.safe_rejectIf _ _, fun _ hrej => absurd hsize (Check.rejectIf_eq_ok.mp hrej)⟩
  simp only [validateTempHeader, Check.safe_bind_iff, Check.safe_rejectIf, Check.rejectIf_eq_ok,
    Check.safe_within, readTempHeader_eq (not_lt.mp hsize), Check.safe_ok, Except.ok.injEq,
    Check.pure_eq_ok, true_and, and_true, implies_true, forall_eq', not_or, not_lt, and_imp,
    forall_const]
  intro _ _ _ _ _ _ _ _ _ hcount
  have hcount : (tempHeaderOf payload).candidateCount ≤ 3 := hcount
  show 56 + _ * 16 ≤ 18446744073709551615
  omega

theorem copyCandidate_eq_ok {capacity : ℕ} {record : Bytes} {written result : List Candidate}
    (hrecord : record.length = tempCandidateSize) (hroom : written.length < capacity) :
    copyCandidate capacity context record written = .ok result ↔
      CandidateOk context record ∧
        (∀ last ∈ written.getLast?, Candidate.Falls last (candidateOf record)) ∧
        result = written ++ [candidateOf record] := by
  have hreserved : 12 + 4 ≤ record.length := hrecord.ge
  rw [copyCandidate, readCandidate_eq hrecord, Check.ok_bind, Check.read_of_le hreserved,
    Check.ok_bind, Check.push_of_lt hroom]
  simp only [Check.bind_eq_ok, Check.rejectIf_eq_ok, Except.ok.injEq, exists_const, not_or,
    not_and, not_lt, Bool.not_eq_false, ne_eq, not_not]
  constructor
  · rintro ⟨⟨htempo, hconf, hrelation, hreserved, hfalls⟩, rfl⟩
    exact ⟨⟨htempo, hconf, hrelation, hreserved⟩, hfalls, rfl⟩
  · rintro ⟨hok, hfalls, rfl⟩
    exact ⟨⟨hok.tempo, hok.confidence, hok.relation, hok.reserved, hfalls⟩, rfl⟩

/-- What the copy of the candidates accepts, and what it gives. -/
theorem copyCandidates_eq_ok {capacity : ℕ} {result : List Candidate}
    (hok : TempHeaderOk context payload header) (hcapacity : header.candidateCount ≤ capacity) :
    copyCandidates capacity context payload header.candidateCount = .ok result ↔
      (∀ record ∈ candidateRecords payload header.candidateCount, CandidateOk context record) ∧
        ((candidateRecords payload header.candidateCount).map candidateOf).IsChain
          Candidate.Falls ∧
        result = (candidateRecords payload header.candidateCount).map candidateOf := by
  have hfits : tempHeaderSize + header.candidateCount * tempCandidateSize ≤ payload.length :=
    hok.size.ge
  have hroom : ([] : List Candidate).length +
      (records tempCandidateSize payload tempHeaderSize header.candidateCount).length ≤
        capacity := by
    rw [List.length_nil, Nat.zero_add, length_records]
    exact hcapacity
  rw [copyCandidates, Check.forRecords_eq _ hfits]
  exact Check.walk_chain_eq_ok hroom fun record hmem written result hlt =>
    copyCandidate_eq_ok (length_of_mem_records hfits hmem) hlt

theorem copyCandidates_safe (hok : TempHeaderOk context payload header) :
    Check.Safe (copyCandidates header.candidateCount context payload header.candidateCount) := by
  have hfits : tempHeaderSize + header.candidateCount * tempCandidateSize ≤ payload.length :=
    hok.size.ge
  rw [copyCandidates, Check.forRecords_eq _ hfits]
  apply Check.safe_walk_push (by rw [length_records])
  intro index record hmem written hlt
  have hrecord : record.length = 16 := length_of_mem_records hfits hmem
  rw [copyCandidate, readCandidate_eq hrecord, Check.ok_bind, Check.read_of_le hrecord.ge,
    Check.ok_bind, Check.push_of_lt hlt]
  refine ⟨Check.safe_bind (Check.safe_rejectIf _ _) fun _ _ => Check.safe_ok _, ?_⟩
  intro result hresult
  obtain ⟨_, -, hpush⟩ := Check.bind_eq_ok.mp hresult
  exact ⟨_, (Except.ok.inj hpush).symm⟩

end Tempo

/-! ## Local grid -/

/-- A local grid payload. The segment covers the applicability range of the grid. -/
structure LgrdPayload where
  version : ℕ
  state : ℕ
  confidence : ℕ
  flags : ℕ
  representation : ℕ
  segmentCount : ℕ
  requestedRange : FrameRange
  evidenceRange : FrameRange
  coverageRange : FrameRange
  segment : Segment
  reserved : List ℕ
deriving DecidableEq

/-- The grid a payload describes. -/
def LgrdPayload.grid (lgrd : LgrdPayload) : Grid where
  requestedRange := lgrd.requestedRange
  evidenceRange := lgrd.evidenceRange
  applicabilityRange := lgrd.segment.applicabilityRange
  coverageRange := lgrd.coverageRange
  representation := representationSegments
  state := lgrd.state
  confidence := lgrd.confidence
  flags := lgrd.flags
  segments := [lgrd.segment]
  beats := []

/-- The fields of a local grid payload. -/
def lgrdPayloadOf (payload : Bytes) : LgrdPayload where
  version := field 2 payload 0
  state := field 1 payload 2
  confidence := field 1 payload 3
  flags := field 4 payload 4
  representation := field 4 payload 8
  segmentCount := field 4 payload 12
  requestedRange := ⟨field 8 payload 16, field 8 payload 24⟩
  evidenceRange := ⟨field 8 payload 32, field 8 payload 40⟩
  coverageRange := ⟨field 8 payload 64, field 8 payload 72⟩
  segment :=
    { applicabilityRange := ⟨field 8 payload 48, field 8 payload 56⟩
      anchorWholeFrame := field 8 payload 80
      anchorFraction := field 4 payload 88
      anchorOrdinal := signed (2 ^ 64) (field 8 payload 96)
      framesPerBeatWhole := field 8 payload 104
      framesPerBeatFraction := field 4 payload 112
      beatCount := field 4 payload 116
      nominalTempoMillibpm := field 4 payload 120
      segmentId := field 4 payload 124
      revision := field 4 payload 128
      flags := field 4 payload 132
      state := field 1 payload 136
      confidence := field 1 payload 137 }
  reserved := [field 4 payload 92, field 1 payload 138, field 1 payload 139, field 4 payload 140]

/-- Read a local grid payload. -/
def readLgrdPayload (payload : Bytes) : Check ErrorCode LgrdPayload := do
  let version ← Check.read 2 payload 0
  let state ← Check.read 1 payload 2
  let confidence ← Check.read 1 payload 3
  let flags ← Check.read 4 payload 4
  let representation ← Check.read 4 payload 8
  let segmentCount ← Check.read 4 payload 12
  let requestedFirst ← Check.read 8 payload 16
  let requestedEnd ← Check.read 8 payload 24
  let evidenceFirst ← Check.read 8 payload 32
  let evidenceEnd ← Check.read 8 payload 40
  let applicabilityFirst ← Check.read 8 payload 48
  let applicabilityEnd ← Check.read 8 payload 56
  let coverageFirst ← Check.read 8 payload 64
  let coverageEnd ← Check.read 8 payload 72
  let anchorWholeFrame ← Check.read 8 payload 80
  let anchorFraction ← Check.read 4 payload 88
  let reserved92 ← Check.read 4 payload 92
  let anchorOrdinal ← Check.read 8 payload 96
  let framesPerBeatWhole ← Check.read 8 payload 104
  let framesPerBeatFraction ← Check.read 4 payload 112
  let beatCount ← Check.read 4 payload 116
  let nominalTempoMillibpm ← Check.read 4 payload 120
  let segmentId ← Check.read 4 payload 124
  let revision ← Check.read 4 payload 128
  let segmentFlags ← Check.read 4 payload 132
  let segmentState ← Check.read 1 payload 136
  let segmentConfidence ← Check.read 1 payload 137
  let reserved138 ← Check.read 1 payload 138
  let reserved139 ← Check.read 1 payload 139
  let reserved140 ← Check.read 4 payload 140
  return {
    version, state, confidence, flags, representation, segmentCount
    requestedRange := ⟨requestedFirst, requestedEnd⟩
    evidenceRange := ⟨evidenceFirst, evidenceEnd⟩
    coverageRange := ⟨coverageFirst, coverageEnd⟩
    segment := {
      applicabilityRange := ⟨applicabilityFirst, applicabilityEnd⟩
      anchorWholeFrame, anchorFraction
      anchorOrdinal := signed (2 ^ 64) anchorOrdinal
      framesPerBeatWhole, framesPerBeatFraction, beatCount, nominalTempoMillibpm, segmentId
      revision
      flags := segmentFlags
      state := segmentState
      confidence := segmentConfidence }
    reserved := [reserved92, reserved138, reserved139, reserved140] }

theorem readLgrdPayload_eq {payload : Bytes} (h : payload.length = lgrdPayloadSize) :
    readLgrdPayload payload = .ok (lgrdPayloadOf payload) := by
  have hlen : payload.length = 144 := h
  simp (disch := omega) only [readLgrdPayload, lgrdPayloadOf, Check.read_of_le, Check.ok_bind,
    Check.pure_eq_ok]

/-- Check a local grid payload. -/
def validateLocalGrid (context : PayloadContext) (payload : Bytes) :
    Check ErrorCode LgrdPayload := do
  Check.rejectIf (payload.length ≠ lgrdPayloadSize) .corruptData
  let lgrd ← readLgrdPayload payload
  Check.rejectIf (lgrd.version ≠ 1 ∨ stateAllowed context.isPartial lgrd.state = false ∨
    maxConfidence < lgrd.confidence ∨ lgrd.representation ≠ representationSegments ∨
    lgrd.segmentCount ≠ 1 ∨ rangeValid lgrd.requestedRange = false ∨
    rangeValid lgrd.evidenceRange = false ∨
    rangeValid lgrd.segment.applicabilityRange = false ∨
    rangeValid lgrd.coverageRange = false ∨ lgrd.segment.framesPerBeatWhole = 0 ∨
    tempoInRange lgrd.segment.nominalTempoMillibpm = false ∨
    stateAllowed context.isPartial lgrd.segment.state = false ∨
    maxConfidence < lgrd.segment.confidence ∨
    (context.strict = true ∧ ¬ ∀ value ∈ lgrd.reserved, value = 0)) .corruptData
  return lgrd

/-- What the reader asks of a local grid payload. -/
structure LocalGridOk (context : PayloadContext) (payload : Bytes) (lgrd : LgrdPayload) :
    Prop where
  size : payload.length = lgrdPayloadSize
  lgrd_eq : lgrd = lgrdPayloadOf payload
  version : lgrd.version = 1
  state : stateAllowed context.isPartial lgrd.state = true
  confidence : lgrd.confidence ≤ maxConfidence
  representation : lgrd.representation = representationSegments
  segmentCount : lgrd.segmentCount = 1
  requested : rangeValid lgrd.requestedRange = true
  evidence : rangeValid lgrd.evidenceRange = true
  applicability : rangeValid lgrd.segment.applicabilityRange = true
  coverage : rangeValid lgrd.coverageRange = true
  framesPerBeat : lgrd.segment.framesPerBeatWhole ≠ 0
  tempo : tempoInRange lgrd.segment.nominalTempoMillibpm = true
  segmentState : stateAllowed context.isPartial lgrd.segment.state = true
  segmentConfidence : lgrd.segment.confidence ≤ maxConfidence
  reserved : context.strict = true → ∀ value ∈ lgrd.reserved, value = 0

theorem validateLocalGrid_eq_ok {context : PayloadContext} {payload : Bytes}
    {lgrd : LgrdPayload} :
    validateLocalGrid context payload = .ok lgrd ↔ LocalGridOk context payload lgrd := by
  by_cases hsize : payload.length ≠ lgrdPayloadSize
  · constructor
    · intro h
      rw [validateLocalGrid, Check.bind_eq_ok] at h
      obtain ⟨_, hrej, -⟩ := h
      exact absurd hsize (Check.rejectIf_eq_ok.mp hrej)
    · intro h
      exact absurd h.size hsize
  simp only [validateLocalGrid, Check.bind_eq_ok, Check.rejectIf_eq_ok,
    readLgrdPayload_eq (not_not.mp hsize), Check.pure_eq_ok, Except.ok.injEq, exists_and_left,
    exists_const, exists_eq_left', not_or, not_and, not_lt, Bool.not_eq_false, ne_eq, not_not]
  constructor
  · rintro ⟨hlength, ⟨hversion, hstate, hconf, hrep, hcount, hrequested, hevidence, happ, hcover,
      hbeat, htempo, hsegment, hsegmentConf, hreserved⟩, rfl⟩
    exact ⟨hlength, rfl, hversion, hstate, hconf, hrep, hcount, hrequested, hevidence, happ, hcover,
      hbeat, htempo, hsegment, hsegmentConf, hreserved⟩
  · intro h
    have heq := h.lgrd_eq
    subst heq
    exact ⟨h.size, ⟨h.version, h.state, h.confidence, h.representation, h.segmentCount, h.requested,
      h.evidence, h.applicability, h.coverage, h.framesPerBeat, h.tempo, h.segmentState,
      h.segmentConfidence, h.reserved⟩, rfl⟩

theorem validateLocalGrid_safe (context : PayloadContext) (payload : Bytes) :
    Check.Safe (validateLocalGrid context payload) := by
  by_cases hsize : payload.length ≠ lgrdPayloadSize
  · rw [validateLocalGrid, Check.safe_bind_iff]
    exact ⟨Check.safe_rejectIf _ _, fun _ hrej => absurd hsize (Check.rejectIf_eq_ok.mp hrej)⟩
  rw [validateLocalGrid, readLgrdPayload_eq (not_not.mp hsize)]
  refine Check.safe_bind (Check.safe_rejectIf _ _) fun _ _ => ?_
  rw [Check.ok_bind]
  exact Check.safe_bind (Check.safe_rejectIf _ _) fun _ _ => Check.safe_ok _

end LibApta.Container
