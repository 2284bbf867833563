import LibApta.Waveform.Accepted
import LibApta.Waveform.Snapshot

/-!
# The session and its publications

The state of an analysis session, the snapshot of it that a publication makes, and the lifecycle
transitions, each of which publishes. All allocations of one snapshot are one request to the
allocator: whichever of them is refused, the effect is the same. A session with bounded result
slots takes a slot of its pool instead, and the request then asks for a free slot.

The published results are kept, newest first; the source keeps only the newest.
-/

namespace LibApta

/-- An analysis session. -/
structure Session where
  config : Config
  libm : Libm
  usesWorkspace : Bool
  env : Environment
  state : SessionState
  cancelRequested : Bool
  hasPullSource : Bool
  endOfInput : Option ℕ
  focus : Option Focus
  requests : List Request
  nextRequestId : ℕ
  nextEnqueueSerial : ℕ
  queue : List PcmNode
  accepted : AcceptedRanges
  overview : Overview
  detail : Detail
  s4 : S4State
  s6 : Option S6State
  metadata : Option Metadata
  generation : ℕ
  results : List Result

namespace Session

/-- Overview resolution of a session. -/
def framesPerColumn (s : Session) : ℕ :=
  if s.config.overviewFramesPerColumn = 0 then defaultOverviewFramesPerColumn
  else s.config.overviewFramesPerColumn

/-- What the waveform layer reads of the session. -/
def processContext (s : Session) : ProcessContext where
  framesPerColumn := s.framesPerColumn
  hasBands := s.config.requests .waveform3Band
  endOfInput := s.endOfInput
  focus := s.focus
  requests := s.requests

/-- What the detail layer reads of the session. -/
def detailContext (s : Session) : DetailContext where
  focus := s.focus
  requests := s.requests
  endOfInput := s.endOfInput
  totalFrames := s.config.totalFrames

/-- What the local estimator reads of the session. -/
def analysisContext (s : Session) : AnalysisContext where
  libm := s.libm
  sampleRate := s.config.sourceSampleRate
  requestedFeatures := s.config.requestedFeatures
  sessionState := s.state
  endOfInput := s.endOfInput
  focus := s.focus

/-- What the global estimator reads of the session. -/
def globalContext (s : Session) : GlobalContext where
  analysis := s.analysisContext
  totalFrames := s.config.totalFrames
  localEstimate := s.s4.estimate
  locallyLocked := s.s4.locked

/-! ## Snapshots -/

/-- The state a completed session gives to a published estimate. -/
def finalized (s : Session) (state : FeatureState) : FeatureState :=
  if s.state = .completed then .final else state

/-- The tempo of a snapshot. The bounded builder also asks that the tempo was requested. -/
def tempoSnapshot (s : Session) : Option TempoView :=
  if s.config.boundedResultSlots && !s.config.requests .bpm then none
  else s.s4.estimate.map fun estimate =>
    { selected := { estimate.tempo with state := s.finalized estimate.tempo.state }
      candidates := s.s4.candidates.take s.s4.candidateCount }

/-- The local grid of a snapshot. -/
def localGridSnapshot (s : Session) : Option GridView :=
  if s.config.boundedResultSlots && !s.config.requests .localBeatgrid then none
  else s.s4.estimate.map fun estimate =>
    { requestedRange := estimate.requestedRange
      evidenceRange := estimate.evidenceRange
      applicabilityRange := estimate.applicabilityRange
      coverageRange := estimate.coverageRange
      representation := .segments
      state := s.finalized estimate.segment.state
      confidence := estimate.segment.confidence
      flags := estimate.segment.flags
      segments := [{ estimate.segment with state := s.finalized estimate.segment.state }]
      beats := [] }

/-- The global grid of a snapshot, with its revision record. -/
def globalGridSnapshot (s : Session) : Option (GridView × GridRevision) :=
  match s.s6 with
  | none => none
  | some s6 =>
      if !s6.hasGlobalGrid then none
      else
        some ({
          requestedRange := s6.requestedRange
          evidenceRange := s6.evidenceRange
          applicabilityRange := s6.applicabilityRange
          coverageRange := s6.coverageRange
          representation := s6.representation
          state := s.finalized s6.state
          confidence := s6.confidence
          flags := s6.flags
          segments := s6.segments.map fun segment =>
            { segment with state := s.finalized segment.state }
          beats := s6.beats }, s6.revision)

/-- The overview of a snapshot. -/
def overviewSnapshot (s : Session) : Option OverviewView :=
  LibApta.overviewSnapshot s.config s.framesPerColumn s.endOfInput s.state s.overview

/-- The detail tiles of a snapshot. -/
def detailSnapshot (s : Session) : List DetailTileView :=
  LibApta.detailSnapshot s.config s.endOfInput s.detail

/-- A feature as a mask, when it was requested. -/
def ifRequested (s : Session) (feature : Feature) : FeatureMask :=
  if s.config.requests feature then {feature} else ∅

/-- The features a snapshot makes available. -/
def availableFeatures (s : Session) : FeatureMask :=
  overviewAvailable s.config s.overviewSnapshot ∪
    (if s.detailSnapshot = [] then ∅ else {.waveformDetail}) ∪
    (if s.tempoSnapshot.isSome then {.bpm} ∪ s.ifRequested .confidence else ∅) ∪
    (if s.localGridSnapshot.isSome then {.localBeatgrid} ∪ s.ifRequested .gridLocking else ∅) ∪
    (if s.globalGridSnapshot.isSome then
      {.globalBeatgrid} ∪ s.ifRequested .dynamicTempo ∪ s.ifRequested .confidence
    else ∅)

/-- The result that a publication of the session makes, with the features it announces. -/
def snapshot (s : Session) (changedFeatures : FeatureMask) : Result where
  generation := s.generation + 1
  changedFeatures := changedFeatures
  availableFeatures := s.availableFeatures
  sessionState := s.state
  source :=
    ⟨s.config.totalFrames, s.config.sourceSampleRate, s.config.channelCount,
      s.config.channelLayout, s.config.fingerprint⟩
  metadata := s.metadata
  overview := s.overviewSnapshot
  detailTiles := s.detailSnapshot
  tempo := s.tempoSnapshot
  localGrid := s.localGridSnapshot
  globalGrid := s.globalGridSnapshot

/-! ## Publication -/

/-- Forget which columns are complete, so that the next process call announces them again. -/
def markPublicationPending (s : Session) : Session :=
  { s with
    overview := { s.overview with
      accumulators := s.overview.accumulators.map fun acc => { acc with complete := false }
      completeCount := 0 } }

/-- Overview columns, and spans, a slot of the result pool holds. -/
def poolOverviewCapacity (s : Session) : ℕ :=
  match s.config.totalFrames with
  | some total => (total + s.framesPerColumn - 1) / s.framesPerColumn
  | none => 0

/-- The overview does not fit a slot of the result pool. -/
def poolOverflows (s : Session) : Bool :=
  match s.overviewSnapshot with
  | none => false
  | some view =>
      decide (s.poolOverviewCapacity < s.overview.completeCount) ||
        decide (s.poolOverviewCapacity < view.spans.length)

/-- The session after a successful publication. -/
def published (changedFeatures : FeatureMask) (s : Session) : Session :=
  { s with
    results := s.snapshot changedFeatures :: s.results
    generation := s.generation + 1 }

/-- Publish a snapshot of the session as its next generation. -/
def publish (changedFeatures : FeatureMask) (s : Session) : Status × Session :=
  if s.generation = uint64Max then (.error .limitExceeded, s)
  else
    match s.env.allocate with
    | (false, env) =>
        let s := { s with env := env }
        if s.config.boundedResultSlots then
          (.error .resultSlotsExhausted,
            if Feature.waveformOverview ∈ changedFeatures then s.markPublicationPending else s)
        else (.error .outOfMemory, s.markPublicationPending)
    | (true, env) =>
        let s := { s with env := env }
        if s.config.boundedResultSlots && s.poolOverflows then (.error .limitExceeded, s)
        else (.ok, s.published changedFeatures)

/-! ## Lifecycle transitions -/

/-- The edges of the lifecycle. -/
def transitionAllowed : SessionState → SessionState → Bool
  | .created, .active | .created, .cancelled | .created, .failed => true
  | .active, .draining | .active, .cancelled | .active, .failed => true
  | .draining, .completed | .draining, .cancelled | .draining, .failed => true
  | old, new => decide (old = new)

/-- Move to a lifecycle state and publish it; a failed publication moves back. -/
def transition (new : SessionState) (s : Session) : Status × Session :=
  if !transitionAllowed s.state new then (.error .invalidState, s)
  else if s.state = new then (.ok, s)
  else
    match publish ∅ { s with state := new } with
    | (.error code, moved) => (.error code, { moved with state := s.state })
    | result => result

/-- Move a fresh session to active, as its first input does. -/
def activate (s : Session) : Status × Session :=
  if s.state = .created then s.transition .active else (.ok, s)

end Session

end LibApta
