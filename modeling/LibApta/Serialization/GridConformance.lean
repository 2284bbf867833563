import LibApta.Serialization.Guarantees
import LibApta.Serialization.Assembly
import Mathlib.Data.List.Chain

/-!
# Global grids that obey the format

The rules of the format for the pair of a global grid section and a revision section, in its own
terms: sets of frames, positions in full fixed point, order over all pairs. `PairConforms` collects
them. The strict parser keeps every rule but two kinds: it lets a beat repeat the position of the
beat before it, and it does not look at the flags of the grid, the segments and the beats.
-/

namespace LibApta.Container

open LittleEndian

/-! ## The rules -/

/-- The defined flags of a grid, of its segments and of its beats are below this bound. -/
abbrev gridFlagBound : ℕ := 512

/-- The position of a beat, in parts of `2 ^ 32` of a frame. -/
def GridBeat.position (beat : GridBeat) : ℕ := 4294967296 * beat.wholeFrame + beat.fraction

/-- The distance of two beats of a segment, in parts of `2 ^ 32` of a frame. -/
def Segment.period (segment : Segment) : ℕ :=
  4294967296 * segment.framesPerBeatWhole + segment.framesPerBeatFraction

/-- A state is provisional, stable or final, and final in a finished result. -/
def StateValid (isPartial : Bool) (state : ℕ) : Prop :=
  state ∈ Set.Icc stateProvisional stateFinal ∧ (isPartial = false → state = stateFinal)

/-- A segment obeys the format. -/
structure Segment.Conforms (isPartial : Bool) (applicability : FrameRange) (segment : Segment) :
    Prop where
  nonempty : segment.applicabilityRange.frames.Nonempty
  inside : segment.applicabilityRange.frames ⊆ applicability.frames
  period : 0 < segment.period
  tempo : segment.nominalTempoMillibpm ∈ Set.Icc minMillibpm maxMillibpm
  state : StateValid isPartial segment.state
  confidence : segment.confidence ≤ maxConfidence
  flags : segment.flags < gridFlagBound

/-- A beat obeys the format. -/
structure GridBeat.Conforms (applicability : FrameRange) (beat : GridBeat) : Prop where
  inside : beat.position ∈ Set.Ico (4294967296 * applicability.firstFrame)
    (4294967296 * applicability.endFrame)
  confidence : beat.confidence ≤ maxConfidence
  flags : beat.flags < gridFlagBound

/-- A grid obeys the format. -/
structure Grid.Conforms (isPartial : Bool) (grid : Grid) : Prop where
  requested : grid.requestedRange.frames.Nonempty
  evidence : grid.evidenceRange.frames.Nonempty
  applicability : grid.applicabilityRange.frames.Nonempty
  coverage : grid.coverageRange.frames.Nonempty
  state : StateValid isPartial grid.state
  confidence : grid.confidence ≤ maxConfidence
  flags : grid.flags < gridFlagBound
  representation : grid.representation ∈ Set.Icc representationSegments representationHybrid
  counts : 1 ≤ grid.segments.length ∧ grid.segments.length ≤ maxSegments ∧
    grid.beats.length ≤ maxBeats
  explicit : grid.representation = representationSegments ↔ grid.beats = []
  segments : ∀ segment ∈ grid.segments, segment.Conforms isPartial grid.applicabilityRange
  sorted : grid.segments.Pairwise fun segment later =>
    segment.applicabilityRange.endFrame ≤ later.applicabilityRange.firstFrame
  apart : grid.segments.Pairwise fun segment later =>
    Disjoint segment.applicabilityRange.frames later.applicabilityRange.frames
  beats : ∀ beat ∈ grid.beats, beat.Conforms grid.applicabilityRange
  positions : grid.beats.Pairwise fun beat later => beat.position < later.position
  ordinals : grid.beats.Pairwise fun beat later => beat.ordinal < later.ordinal

/-- A revision obeys the format, and belongs to its grid. -/
structure Revision.Conforms (isPartial : Bool) (grid : Grid) (revision : Revision) : Prop where
  state : revision.state = revisionPending ∨ revision.state = revisionApplied
  applied : isPartial = false → revision.state = revisionApplied
  notFinal : grid.state = stateFinal → revision.state ≠ revisionPending
  confidence : revision.confidence ≤ maxConfidence
  flags : revision.flags < revisionFlagBound
  revisionId : revision.revisionId ≠ 0
  affected : revision.affectedRange.frames.Nonempty
  proposal : revision.proposedRepresentation = grid.representation ∧
    revision.proposedSegmentCount = grid.segments.length ∧
    revision.proposedBeatCount = grid.beats.length
  segments : ∀ segment ∈ grid.segments, segment.revision = revision.revisionId
  beats : ∀ beat ∈ grid.beats, beat.revision = revision.revisionId

/-- The reserved bytes of a global grid payload. -/
def ggrdReserved (payload : Bytes) : Bytes :=
  (ggrdHeaderOf payload).reserved ++
    (segmentRecords payload (ggrdHeaderOf payload)).flatMap
      (fun record => slice record 28 4 ++ slice record 74 6) ++
    (beatRecords payload (ggrdHeaderOf payload)).flatMap
      (fun record => slice record 12 4 ++ slice record 33 7)

/-- The payloads of the pair obey the format. -/
structure PayloadsConform (isPartial : Bool) (ggrd revn : Bytes) : Prop where
  version : (ggrdHeaderOf ggrd).version = 1 ∧ (ggrdHeaderOf ggrd).coverageCount = 1
  size : ggrd.length = ggrdHeaderSize + (gridOf ggrd).segments.length * ggrdSegmentSize +
    (gridOf ggrd).beats.length * ggrdBeatSize
  reserved : ∀ byte ∈ ggrdReserved ggrd, byte = 0
  grid : (gridOf ggrd).Conforms isPartial
  revisionVersion : (revnPayloadOf revn).version = 1
  revisionSize : revn.length = revnPayloadSize
  revisionReserved : ∀ byte ∈ (revnPayloadOf revn).reserved, byte = 0
  revision : (revnPayloadOf revn).revision.Conforms isPartial (gridOf ggrd)

/-- A container has one global grid section with a revision section directly behind it, and their
payloads obey the format. -/
def PairConforms (bytes : Bytes) : Prop :=
  ∃ ggrd revn, foundAt bytes .globalGrid = [ggrd] ∧ foundAt bytes .revision = [revn] ∧
    revn.index = ggrd.index + 1 ∧
    PayloadsConform (headerOf bytes).isPartial ggrd.payload revn.payload

/-! ## What the reader leaves out -/

/-- No beat of a grid has the position of the beat before it, and the grid, its segments and its
beats have no undefined flag. -/
structure Grid.Restrained (grid : Grid) : Prop where
  moves : grid.beats.IsChain fun beat next => beat.position ≠ next.position
  flags : grid.flags < gridFlagBound
  segmentFlags : ∀ segment ∈ grid.segments, segment.flags < gridFlagBound
  beatFlags : ∀ beat ∈ grid.beats, beat.flags < gridFlagBound

section Rules

theorem rangeValid_iff {range : FrameRange} :
    rangeValid range = true ↔ range.frames.Nonempty := by
  rw [rangeValid, decide_eq_true_iff]
  constructor
  · intro h
    exact ⟨range.firstFrame, le_rfl, h⟩
  · rintro ⟨frame, hfirst, hend⟩
    exact hfirst.trans_lt hend

theorem stateAllowed_iff {isPartial : Bool} {state : ℕ} :
    stateAllowed isPartial state = true ↔ StateValid isPartial state := by
  cases isPartial <;> simp [stateAllowed, StateValid]

theorem allZero_iff {bytes : Bytes} : allZero bytes = true ↔ ∀ byte ∈ bytes, byte = 0 := by
  simp [allZero]

/-- The fraction of a beat is below one frame. -/
theorem fraction_lt (record : Bytes) : (beatOf record).fraction < 4294967296 := field_lt

/-- With fractions below one frame, a beat comes after another when neither its position falls nor
its number stays. -/
theorem GridBeat.follows_iff {previous beat : GridBeat} (hprevious : previous.fraction < 4294967296)
    (hbeat : beat.fraction < 4294967296) : GridBeat.Follows previous beat ↔
      previous.position ≤ beat.position ∧ previous.ordinal < beat.ordinal := by
  rw [GridBeat.Follows, GridBeat.position, GridBeat.position]
  constructor <;> intro h <;> omega

end Rules

/-! ## What the reader keeps -/

theorem SegmentOk.conforms {isPartial : Bool} {applicability : FrameRange} {segment : Segment}
    (h : SegmentOk isPartial applicability segment) (hflags : segment.flags < gridFlagBound) :
    segment.Conforms isPartial applicability where
  nonempty := rangeValid_iff.mp h.range
  inside := fun _ hframe =>
    ⟨h.inside.1.trans (FrameRange.mem_frames.mp hframe).1,
      (FrameRange.mem_frames.mp hframe).2.trans_le h.inside.2⟩
  period := by
    have := h.framesPerBeat
    rw [Segment.period]
    omega
  tempo := by
    have htempo := h.tempo
    rw [tempoInRange, Bool.and_eq_true, decide_eq_true_iff, decide_eq_true_iff] at htempo
    exact htempo
  state := stateAllowed_iff.mp h.state
  confidence := h.confidence
  flags := hflags

theorem BeatOk.conforms {applicability : FrameRange} {beat : GridBeat}
    (h : BeatOk applicability beat) (hfraction : beat.fraction < 4294967296)
    (hflags : beat.flags < gridFlagBound) : beat.Conforms applicability where
  inside := by
    obtain ⟨hfirst, hend⟩ := h.inside
    rw [GridBeat.position]
    constructor <;> omega
  confidence := h.confidence
  flags := hflags

/-- Segments that follow each other and are not empty lie apart. -/
theorem segments_apart {segments : List Segment} (horder : segments.IsChain Segment.Follows)
    (hrange : ∀ segment ∈ segments, rangeValid segment.applicabilityRange = true) :
    segments.Pairwise fun segment later =>
      segment.applicabilityRange.endFrame ≤ later.applicabilityRange.firstFrame := by
  have hchain : (segments.map fun segment => (⟨segment.applicabilityRange.firstFrame,
      segment.applicabilityRange.endFrame⟩ : Interval ℕ)).IsChain fun a b => a.hi ≤ b.lo :=
    (List.isChain_map _).mpr horder
  have hranges : ∀ range ∈ segments.map fun segment => (⟨segment.applicabilityRange.firstFrame,
      segment.applicabilityRange.endFrame⟩ : Interval ℕ), range.lo < range.hi := by
    rw [List.forall_mem_map]
    exact fun segment hmem => of_decide_eq_true (hrange segment hmem)
  exact List.pairwise_map.mp (Interval.pairwise_of_isChain hranges hchain)

theorem disjoint_frames_of_le {range later : FrameRange} (h : range.endFrame ≤ later.firstFrame) :
    Disjoint range.frames later.frames := by
  rw [Set.disjoint_left]
  intro frame hframe hlater
  rw [FrameRange.mem_frames] at hframe hlater
  omega

section Beats

variable {beats : List GridBeat}

theorem ordinals_sorted (horder : beats.IsChain GridBeat.Follows) :
    beats.Pairwise fun beat later => beat.ordinal < later.ordinal := by
  have hchain : (beats.map GridBeat.ordinal).IsChain (· < ·) := by
    refine (List.isChain_map _).mpr (horder.imp fun beat next hfollows => ?_)
    rw [GridBeat.Follows, not_or, not_or, not_le] at hfollows
    exact hfollows.2.2
  exact List.pairwise_map.mp hchain.pairwise

/-- Positions that the reader accepts rise exactly when no two neighbours agree. -/
theorem positions_sorted_iff (horder : beats.IsChain GridBeat.Follows)
    (hfraction : ∀ beat ∈ beats, beat.fraction < 4294967296) :
    (beats.Pairwise fun beat later => beat.position < later.position) ↔
      beats.IsChain fun beat next => beat.position ≠ next.position := by
  constructor
  · intro hsorted
    exact hsorted.isChain.imp fun _ _ hlt => hlt.ne
  · intro hmoves
    have hchain : (beats.map GridBeat.position).IsChain (· < ·) := by
      rw [List.isChain_map, List.isChain_iff_getElem] at *
      intro index hindex
      have hfollows := (GridBeat.follows_iff (hfraction _ (List.getElem_mem _))
        (hfraction _ (List.getElem_mem _))).mp (horder index hindex)
      exact lt_of_le_of_ne hfollows.1 (hmoves index hindex)
    exact List.pairwise_map.mp hchain.pairwise

end Beats

section Accepted

variable {context : PayloadContext} {payload : Bytes}

/-- A grid the reader accepts obeys the format exactly when it is restrained. -/
theorem GlobalGridOk.conforms_iff (h : GlobalGridOk context payload (ggrdHeaderOf payload)) :
    (gridOf payload).Conforms context.isPartial ↔ (gridOf payload).Restrained := by
  have hheader := h.headerOk
  have hfraction : ∀ beat ∈ (gridOf payload).beats, beat.fraction < 4294967296 := by
    intro beat hmem
    obtain ⟨record, -, rfl⟩ := List.mem_map.mp hmem
    exact fraction_lt record
  have hpositions := positions_sorted_iff h.beatOrder hfraction
  constructor
  · intro hconforms
    exact ⟨hpositions.mp hconforms.positions, hconforms.flags,
      fun segment hmem => (hconforms.segments segment hmem).flags,
      fun beat hmem => (hconforms.beats beat hmem).flags⟩
  intro hrestrained
  have hsegments : ∀ segment ∈ (gridOf payload).segments,
      SegmentOk context.isPartial (gridOf payload).applicabilityRange segment := by
    intro segment hmem
    obtain ⟨record, hrecord, rfl⟩ := List.mem_map.mp hmem
    exact h.segments record hrecord
  have hbeats : ∀ beat ∈ (gridOf payload).beats,
      BeatOk (gridOf payload).applicabilityRange beat := by
    intro beat hmem
    obtain ⟨record, hrecord, rfl⟩ := List.mem_map.mp hmem
    exact h.beats record hrecord
  have hsorted := segments_apart h.segmentOrder fun segment hmem => (hsegments segment hmem).range
  obtain ⟨hsegmentCount, hbeatCount⟩ := length_gridOf payload
  refine ⟨rangeValid_iff.mp hheader.requested, rangeValid_iff.mp hheader.evidence,
    rangeValid_iff.mp hheader.applicability, rangeValid_iff.mp hheader.coverage,
    stateAllowed_iff.mp hheader.state, hheader.confidence, hrestrained.flags, ?_, ?_, ?_,
    fun segment hmem => (hsegments segment hmem).conforms (hrestrained.segmentFlags segment hmem),
    hsorted, hsorted.imp disjoint_frames_of_le,
    fun beat hmem => (hbeats beat hmem).conforms (hfraction beat hmem)
      (hrestrained.beatFlags beat hmem),
    hpositions.mpr hrestrained.moves, ordinals_sorted h.beatOrder⟩
  · have hrepresentation := hheader.representation
    rw [representationValid, Bool.and_eq_true, decide_eq_true_iff, decide_eq_true_iff]
      at hrepresentation
    exact hrepresentation
  · rw [hsegmentCount, hbeatCount]
    exact ⟨Nat.pos_of_ne_zero hheader.segments.1, hheader.segments.2, hheader.beats⟩
  · rw [← List.length_eq_zero_iff, hbeatCount]
    exact hheader.explicit

/-- The strict reader accepts no reserved byte of a global grid payload but zero. -/
theorem GlobalGridOk.reserved_zero (h : GlobalGridOk context payload (ggrdHeaderOf payload))
    (hstrict : context.strict = true) : ∀ byte ∈ ggrdReserved payload, byte = 0 := by
  intro byte hmem
  rw [ggrdReserved, List.mem_append, List.mem_append, List.mem_flatMap, List.mem_flatMap] at hmem
  obtain (hheader | ⟨record, hrecord, hbyte⟩) | ⟨record, hrecord, hbyte⟩ := hmem
  · exact allZero_iff.mp (h.headerOk.reserved hstrict) byte hheader
  · obtain ⟨hanchor, htail⟩ := h.segmentReserved hstrict record hrecord
    obtain hbyte | hbyte := List.mem_append.mp hbyte
    · exact allZero_iff.mp hanchor byte hbyte
    · exact allZero_iff.mp htail byte hbyte
  · obtain ⟨hposition, htail⟩ := h.beatReserved hstrict record hrecord
    obtain hbyte | hbyte := List.mem_append.mp hbyte
    · exact allZero_iff.mp hposition byte hbyte
    · exact allZero_iff.mp htail byte hbyte

theorem RevisionOk.conforms {isPartial : Bool} {revision : Revision} {grid : Grid}
    (h : RevisionOk isPartial revision grid) : revision.Conforms isPartial grid where
  state := h.state
  applied := h.applied
  notFinal := fun hfinal hpending => h.notFinal hpending hfinal
  confidence := h.confidence
  flags := h.flags
  revisionId := h.revisionId
  affected := rangeValid_iff.mp h.affected
  proposal := ⟨h.sameRepresentation, h.segmentCount, h.beatCount⟩
  segments := h.segments
  beats := h.beats

/-- A pair the strict reader accepts obeys the format exactly when its grid is restrained. -/
theorem payloadsConform_iff {revn : Bytes}
    (hgrid : GlobalGridOk context payload (ggrdHeaderOf payload))
    (hrevn : RevnOk context revn (gridOf payload) (revnPayloadOf revn).revision)
    (hstrict : context.strict = true) :
    PayloadsConform context.isPartial payload revn ↔ (gridOf payload).Restrained := by
  rw [← hgrid.conforms_iff]
  constructor
  · exact PayloadsConform.grid
  intro hconforms
  obtain ⟨hsegmentCount, hbeatCount⟩ := length_gridOf payload
  refine ⟨⟨hgrid.headerOk.version, hgrid.headerOk.coverageCount⟩, ?_, hgrid.reserved_zero hstrict,
    hconforms, hrevn.version, hrevn.size, allZero_iff.mp (hrevn.reserved hstrict),
    hrevn.revisionOk.conforms⟩
  rw [hsegmentCount, hbeatCount]
  exact hgrid.headerOk.size

end Accepted

/-! ## Accepted containers -/

section Containers

variable {options : Option ParseOptions} {bytes : Bytes} {input : WovrInput} {header : WovrHeader}
  {spans : List SpanEntry} {data : ResultData}

/-- The stages before the grid stage attach no global grid. -/
theorem Accepts.gridStep (h : Accepts options bytes input header spans data) :
    ∃ timed, timed.globalGrid = none ∧ GridStep options bytes timed data := by
  obtain ⟨detailed, described, timed, hdetail, hmetadata, htempo, hgrid⟩ := h.steps
  refine ⟨timed, ?_, hgrid⟩
  have hdetailed : detailed.globalGrid = none := by
    rw [DetailStep] at hdetail
    split_ifs at hdetail
    · rw [hdetail]
      rfl
    · rw [hdetail.2]
      rfl
  have hdescribed : described.globalGrid = none := by
    obtain ⟨-, rfl⟩ | ⟨_, _, -, -, -, rfl⟩ := hmetadata
    · exact hdetailed
    · exact hdetailed
  obtain ⟨-, -, rfl⟩ | ⟨_, -, -, ⟨-, rfl⟩ | ⟨_, -, -, -, rfl⟩⟩ := htempo
  · exact hdescribed
  · exact hdescribed
  · exact hdescribed

/-- In an accepted container with a global grid, the pair of sections obeys the format exactly when
the grid is restrained. -/
theorem Accepts.pairConforms_iff (h : Accepts options bytes input header spans data)
    (hstrict : isStrict options = true) (hgrid : data.globalGrid ≠ none) :
    PairConforms bytes ↔
      ∀ ggrd ∈ foundAt bytes .globalGrid, (gridOf ggrd.payload).Restrained := by
  obtain ⟨timed, hnone, hstep⟩ := h.gridStep
  obtain ⟨-, -, rfl⟩ | ⟨ggrd, revn, hggrd, hrevn, hindex, -, hpayload, hrevision, -⟩ := hstep
  · exact absurd hnone hgrid
  have hpair := payloadsConform_iff hpayload hrevision hstrict
  simp only [hggrd, List.mem_singleton, forall_eq]
  rw [← hpair]
  constructor
  · rintro ⟨ggrd', revn', hggrd', hrevn', -, hconforms⟩
    obtain ⟨rfl, -⟩ := List.cons.inj (hggrd.symm.trans hggrd')
    obtain ⟨rfl, -⟩ := List.cons.inj (hrevn.symm.trans hrevn')
    exact hconforms
  · intro hconforms
    exact ⟨ggrd, revn, hggrd, hrevn, hindex, hconforms⟩

end Containers

/-- The global grid a reply gives out. -/
def Reply.globalGrid (reply : Reply) : Option (Grid × Revision) :=
  reply.resultOut.bind fun parsed => parsed.data.globalGrid

/-- A container that the strict parser accepts with a global grid obeys the rules of the pair exactly
when no beat has the position of the beat before it and no flag of the grid, of a segment or of a
beat is undefined. -/
theorem resultParse_pairConforms_iff (sizes : Sizes) (options : Option ParseOptions)
    (buffer : Buffer) (context : Context) (hstrict : isStrict options = true)
    (haccepted : (resultParse sizes options buffer.bytes context).status = .ok ())
    (hgrid : (resultParse sizes options buffer.bytes context).globalGrid ≠ none) :
    PairConforms buffer.bytes ↔
      ∀ ggrd ∈ foundAt buffer.bytes .globalGrid, (gridOf ggrd.payload).Restrained := by
  obtain ⟨parsed, next, input, header, spans, hreply, haccepts, -⟩ := resultParse_ok haccepted
  rw [hreply] at hgrid
  exact haccepts.pairConforms_iff hstrict hgrid

/-! ### A small container with a global grid

The small container with a tempo and a grid of one segment and two beats, both in frame zero. The
flags of the grid and the fraction of the second beat are left open. -/

/-- The tempo section of the container. -/
def smallTempo : Bytes :=
  encode 2 1 ++ encode 1 stateFinal ++ encode 1 100 ++ encode 4 0 ++ encode 4 120000 ++
    encode 4 1 ++ encode 8 0 ++ encode 8 1 ++ encode 8 0 ++ encode 8 1 ++ encode 4 1 ++ encode 4 0 ++
  encode 4 120000 ++ encode 2 1 ++ encode 1 100 ++ encode 1 0 ++ encode 4 0 ++ encode 4 0

/-- The beat record of a number with a fraction. -/
def smallBeat (ordinal fraction : ℕ) : Bytes :=
  encode 8 0 ++ encode 4 fraction ++ encode 4 0 ++ encode 8 ordinal ++ encode 4 1 ++ encode 4 0 ++
    encode 1 100 ++ List.replicate 7 0

/-- The global grid section of the container. -/
def smallGrid (flags fraction : ℕ) : Bytes :=
  encode 2 1 ++ encode 1 stateFinal ++ encode 1 100 ++ encode 4 flags ++ encode 4 2 ++ encode 4 1 ++
    encode 4 1 ++ encode 4 2 ++ encode 8 0 ++ encode 8 1 ++ encode 8 0 ++ encode 8 1 ++
    encode 8 0 ++ encode 8 1 ++ encode 8 0 ++ encode 8 1 ++ encode 8 0 ++
  encode 8 0 ++ encode 8 1 ++ encode 8 0 ++ encode 4 0 ++ encode 4 0 ++ encode 8 0 ++ encode 8 1 ++
    encode 4 0 ++ encode 4 2 ++ encode 4 120000 ++ encode 4 1 ++ encode 4 1 ++ encode 4 0 ++
    encode 1 stateFinal ++ encode 1 100 ++ List.replicate 6 0 ++
  smallBeat 0 0 ++ smallBeat 1 fraction

/-- The revision section of the container. -/
def smallRevision : Bytes :=
  encode 2 1 ++ encode 1 revisionApplied ++ encode 1 100 ++ encode 4 0 ++ encode 4 1 ++ encode 4 0 ++
    encode 4 2 ++ encode 4 1 ++ encode 4 2 ++ encode 4 0 ++ encode 8 0 ++ encode 8 1 ++
    List.replicate 32 0

/-- A container with a global grid. -/
def griddedContainer (flags fraction : ℕ) : Bytes :=
  containerOf { emptyData with
    totalSourceFrames := 1
    sourceSampleRate := 44100
    sourceChannelCount := 1
    sourceChannelLayout := 1
    fingerprint := List.replicate 32 0 } 0
    [(.overview, smallOverview), (.tempo, smallTempo), (.globalGrid, smallGrid flags fraction),
      (.revision, smallRevision)]

/-- With distinct positions and defined flags the container obeys the rules. -/
theorem griddedContainer_conforms : PairConforms (griddedContainer 0 1) := by
  refine (resultParse_pairConforms_iff sampleSizes (strictOptions 0 0)
    ⟨griddedContainer 0 1, by decide +kernel⟩ ⟨freshHeap, 0⟩ (isStrict_strictOptions 0 0)
    (by decide +kernel) (by decide +kernel)).mpr ?_
  have hfound : foundAt (griddedContainer 0 1) .globalGrid = [⟨2, smallGrid 0 1⟩] := by
    decide +kernel
  rw [hfound]
  simp only [List.mem_singleton, forall_eq]
  exact ⟨by decide +kernel, by decide +kernel, by decide +kernel, by decide +kernel⟩

/-- The strict parser accepts a container whose second beat repeats the position of the first, and
one with an undefined grid flag. Neither obeys the rules. -/
theorem griddedContainer_accepted :
    ((resultParse sampleSizes (strictOptions 0 0) (griddedContainer 0 0) ⟨freshHeap, 0⟩).status =
        .ok () ∧
      (resultParse sampleSizes (strictOptions 0 0) (griddedContainer 0 0)
        ⟨freshHeap, 0⟩).globalGrid ≠ none ∧
      ¬ PairConforms (griddedContainer 0 0)) ∧
    (resultParse sampleSizes (strictOptions 0 0) (griddedContainer 512 1) ⟨freshHeap, 0⟩).status =
        .ok () ∧
      (resultParse sampleSizes (strictOptions 0 0) (griddedContainer 512 1)
        ⟨freshHeap, 0⟩).globalGrid ≠ none ∧
      ¬ PairConforms (griddedContainer 512 1) := by
  have hrepeated : foundAt (griddedContainer 0 0) .globalGrid = [⟨2, smallGrid 0 0⟩] := by
    decide +kernel
  have hflagged : foundAt (griddedContainer 512 1) .globalGrid = [⟨2, smallGrid 512 1⟩] := by
    decide +kernel
  refine ⟨⟨by decide +kernel, by decide +kernel, ?_⟩, by decide +kernel, by decide +kernel, ?_⟩
  · rintro ⟨ggrd, revn, hggrd, -, -, hconforms⟩
    obtain ⟨rfl, -⟩ := List.cons.inj (hrepeated.symm.trans hggrd)
    exact absurd hconforms.grid.positions (by decide +kernel)
  · rintro ⟨ggrd, revn, hggrd, -, -, hconforms⟩
    obtain ⟨rfl, -⟩ := List.cons.inj (hflagged.symm.trans hggrd)
    exact absurd hconforms.grid.flags (by decide +kernel)

end LibApta.Container
