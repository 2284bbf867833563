import LibApta.Core.Types
import LibApta.Tempo.Period

/-!
# State of the local tempo estimator

The onset ring with the incremental evidence interval over it, the cached and the active lag
search, and the published estimate: a tempo, its candidates and a one-segment grid.
-/

namespace LibApta

/-! ## Constants -/

/-- Frames of one onset bin. -/
abbrev onsetFramesPerBin : ℕ := 256

/-- Slots of the onset ring. -/
abbrev onsetBinCapacity : ℕ := 4096

/-- Evidence an estimate needs. -/
abbrev minTempoBins : ℕ := 512

/-- Evidence a stable estimate needs. -/
abbrev stableTempoBins : ℕ := 1024

/-- Candidates of an estimate. -/
abbrev maxTempoCandidates : ℕ := 3

/-- New bins that make a new estimate worth its cost. -/
abbrev s4RefreshMinNewBins : ℕ := 32

/-- Lags correlated in one scheduler step. -/
abbrev s4LagsPerStep : ℕ := 4

/-- Beats the period refinement measures across. -/
abbrev tempoRefineMaxBeats : ℕ := 16

/-- Slowest and fastest tempo, in thousandths of a beat per minute. -/
abbrev tempoMinMillibpm : ℕ := 40000
@[inherit_doc tempoMinMillibpm] abbrev tempoMaxMillibpm : ℕ := 300000

/-- Score, out of 65535, a candidate needs before the global estimator may promote it. -/
abbrev tempoEndorseMinScore : ℕ := 55000

/-- The largest confidence. -/
abbrev confidenceMax : ℕ := 100

/-- Tempo flags. -/
abbrev tempoFlagHalfTimeAmbiguity : ℕ := 1
@[inherit_doc tempoFlagHalfTimeAmbiguity] abbrev tempoFlagDoubleTimeAmbiguity : ℕ := 2
@[inherit_doc tempoFlagHalfTimeAmbiguity] abbrev tempoFlagDynamic : ℕ := 8
@[inherit_doc tempoFlagHalfTimeAmbiguity] abbrev tempoFlagOctaveAmbiguity : ℕ := 128

/-! ## Onset bins -/

/-- One bin of an onset ring: the sum of its scaled magnitudes and how many samples it holds. -/
structure OnsetBin where
  binIndex : ℕ
  sumAbsolute : ℕ
  sampleCount : ℕ
deriving DecidableEq

/-- A ring of onset bins, by slot. -/
abbrev OnsetRing := ℕ → Option OnsetBin

/-- The ring with one slot replaced. -/
def OnsetRing.set (ring : OnsetRing) (slot : ℕ) (bin : OnsetBin) : OnsetRing :=
  fun other => if other = slot then some bin else ring other

/-- The incremental longest run of complete bins. -/
structure EvidenceCache where
  first : ℕ
  past : ℕ
  valid : Bool
  dirty : Bool
deriving DecidableEq

/-! ## Lag search -/

/-- A scored lag, with the sub-bin offset of its peak once it is refined. -/
structure LagPeak where
  score : ℚ
  lag : ℕ
  offset : ℚ
deriving DecidableEq

/-- An active generation: its evidence run, its lag bounds and the ordered argmax so far. -/
structure LagSweep where
  evidenceFirst : ℕ
  evidenceEnd : ℕ
  minimumLag : ℕ
  maximumLag : ℕ
  nextLag : ℕ
  best : List LagPeak
deriving DecidableEq

/-! ## Published estimate -/

/-- A selected tempo. -/
structure TempoValue where
  evidenceRange : FrameRange
  applicabilityRange : FrameRange
  tempoMillibpm : ℕ
  confidence : ℕ
  state : FeatureState
  flags : ℕ
  candidateSetId : ℕ
deriving DecidableEq

/-- A candidate tempo. -/
structure TempoCandidate where
  tempoMillibpm : ℕ
  score : ℕ
  confidence : ℕ
  relation : TempoRelation
  flags : ℕ
deriving DecidableEq

/-- A grid segment: equally spaced beats from an anchor. Positions and periods are a whole number
of frames and a fraction in units of `2 ^ -32`. -/
structure GridSegment where
  applicabilityRange : FrameRange
  anchorFrame : ℕ
  anchorFraction : ℕ
  anchorOrdinal : ℤ
  periodFrames : ℕ
  periodFraction : ℕ
  beatCount : ℕ
  nominalTempoMillibpm : ℕ
  confidence : ℕ
  state : FeatureState
  flags : ℕ
  segmentId : ℕ
  revision : ℕ
deriving DecidableEq

/-- The committed estimate of a session. -/
structure LocalEstimate where
  tempo : TempoValue
  segment : GridSegment
  requestedRange : FrameRange
  evidenceRange : FrameRange
  applicabilityRange : FrameRange
  coverageRange : FrameRange
deriving DecidableEq

/-- State of the local estimator. `candidates` is the candidate array of the session, of which the
first `candidateCount` entries are published with the estimate. -/
structure S4State where
  binsAllocated : Bool
  fluxAllocated : Bool
  ring : OnsetRing
  evidence : EvidenceCache
  flux : List ℚ
  refreshedEvidenceEnd : ℕ
  cachedPeaks : List LagPeak
  cachedPhase : ℕ
  cachedAmbiguity : ℚ
  cachedGridFit : ℚ
  sweep : Option LagSweep
  pending : Bool
  s6NominalTempo : ℕ
  estimate : Option LocalEstimate
  candidates : List TempoCandidate
  candidateCount : ℕ
  locked : Bool
  candidateSetId : ℕ
  segmentId : ℕ
  mutationSerial : ℕ
  publishedSerial : ℕ

/-- The local estimator of a new session. -/
def S4State.initial : S4State where
  binsAllocated := false
  fluxAllocated := false
  ring := fun _ => none
  evidence := ⟨0, 0, false, false⟩
  flux := []
  refreshedEvidenceEnd := 0
  cachedPeaks := []
  cachedPhase := 0
  cachedAmbiguity := 0
  cachedGridFit := 0
  sweep := none
  pending := false
  s6NominalTempo := 0
  estimate := none
  candidates := []
  candidateCount := 0
  locked := false
  candidateSetId := 0
  segmentId := 0
  mutationSerial := 0
  publishedSerial := 0

/-- What the estimators read of the session. -/
structure AnalysisContext where
  libm : Libm
  sampleRate : ℕ
  requestedFeatures : FeatureMask
  sessionState : SessionState
  endOfInput : Option ℕ
  focus : Option Focus

/-- The session is draining or completed. -/
def AnalysisContext.drains (ctx : AnalysisContext) : Bool :=
  ctx.sessionState == .draining || ctx.sessionState == .completed

end LibApta
