import LibApta.Tempo.Estimate

/-!
# State of the global grid estimator

A second onset ring, of coarser bins, the active pass over its windows, and the committed global
grid: up to eight segments, explicit beats when the grid is dynamic, and the revision record that
announces a conflict with a locked local grid.
-/

namespace LibApta

/-! ## Constants -/

/-- Frames of one global bin. -/
abbrev globalFramesPerBin : ℕ := 2048

/-- Slots of the global ring. -/
abbrev globalBinCapacity : ℕ := 16384

/-- Bins of one analysis window. -/
abbrev globalWindowBins : ℕ := 128

/-- Bins an estimate needs. -/
abbrev globalMinBins : ℕ := 64

/-- Bins a stable estimate needs. -/
abbrev globalStableBins : ℕ := 256

/-- New bins that make a new estimate worth its cost. -/
abbrev s6RefreshMinNewBins : ℕ := 32

/-- Segments of a global grid. -/
abbrev globalMaxSegments : ℕ := 8

/-- Explicit beats of a global grid. -/
abbrev globalMaxBeats : ℕ := 3072

/-- The confidence of an unknown measure. -/
abbrev confidenceUnknown : ℕ := 255

/-- Grid flags. -/
abbrev gridFlagDynamicTempo : ℕ := 2
@[inherit_doc gridFlagDynamicTempo] abbrev gridFlagDegraded : ℕ := 128
@[inherit_doc gridFlagDynamicTempo] abbrev gridFlagLocked : ℕ := 256

/-- Revision flags. -/
abbrev revisionFlagConflictsLockedRange : ℕ := 1
@[inherit_doc revisionFlagConflictsLockedRange] abbrev revisionFlagDynamicTempo : ℕ := 2
@[inherit_doc revisionFlagConflictsLockedRange] abbrev revisionFlagDegraded : ℕ := 4

/-! ## Committed grid -/

/-- How the beats of a grid are given. -/
inductive GridRepresentation where
  | none
  | segments
  | explicit
  | hybrid
deriving DecidableEq

/-- The numeric value of a representation. -/
def GridRepresentation.code : GridRepresentation → ℕ
  | .none => 0
  | .segments => 1
  | .explicit => 2
  | .hybrid => 3

/-- One explicit beat. -/
structure Beat where
  frame : ℕ
  fraction : ℕ
  ordinal : ℤ
  confidence : ℕ
  flags : ℕ
  revision : ℕ
deriving DecidableEq

/-- State of a revision record. -/
inductive RevisionState where
  | none
  | pending
  | applied
deriving DecidableEq

/-- The revision record published with a global grid. -/
structure GridRevision where
  revisionId : ℕ
  previousRevisionId : ℕ
  state : RevisionState
  confidence : ℕ
  affectedRange : FrameRange
  proposedRepresentation : GridRepresentation
  proposedSegmentCount : ℕ
  proposedBeatCount : ℕ
  flags : ℕ
deriving DecidableEq

/-- No revision. -/
def GridRevision.initial : GridRevision := ⟨0, 0, .none, 0, ⟨0, 0⟩, .none, 0, 0, 0⟩

/-! ## Estimator state -/

/-- The estimate of one window. -/
structure GridWindow where
  firstBin : ℕ
  endBin : ℕ
  tempoMillibpm : ℕ
  phaseBins : ℕ
  confidence : ℕ
deriving DecidableEq

/-- An active generation: the windows done so far, merged into segments with their window counts. -/
structure WindowSweep where
  evidenceFirst : ℕ
  evidenceEnd : ℕ
  nextWindow : ℕ
  segments : List (GridSegment × ℕ)
  windowCount : ℕ
  totalConfidence : ℕ
  validConfidenceCount : ℕ
  degraded : Bool
deriving DecidableEq

/-- State of the global estimator. -/
structure S6State where
  ring : OnsetRing
  flux : List ℚ
  fluxBaseBin : ℕ
  refreshedEvidenceEnd : ℕ
  sweep : Option WindowSweep
  pending : Bool
  segments : List GridSegment
  beats : List Beat
  requestedRange : FrameRange
  evidenceRange : FrameRange
  applicabilityRange : FrameRange
  coverageRange : FrameRange
  revision : GridRevision
  representation : GridRepresentation
  state : FeatureState
  confidence : ℕ
  flags : ℕ
  hasGlobalGrid : Bool
  hasDynamicTempo : Bool
  revisionPending : Bool
  revisionId : ℕ
  previousRevisionId : ℕ
  signature : ℕ
  mutationSerial : ℕ
  publishedSerial : ℕ

/-- A freshly allocated global estimator. -/
def S6State.initial : S6State where
  ring := fun _ => none
  flux := []
  fluxBaseBin := 0
  refreshedEvidenceEnd := 0
  sweep := none
  pending := false
  segments := []
  beats := []
  requestedRange := ⟨0, 0⟩
  evidenceRange := ⟨0, 0⟩
  applicabilityRange := ⟨0, 0⟩
  coverageRange := ⟨0, 0⟩
  revision := .initial
  representation := .none
  state := .absent
  confidence := 0
  flags := 0
  hasGlobalGrid := false
  hasDynamicTempo := false
  revisionPending := false
  revisionId := 0
  previousRevisionId := 0
  signature := 0
  mutationSerial := 0
  publishedSerial := 0

/-- What the global estimator reads of the session: the analysis context, the total length, and the
local estimate. -/
structure GlobalContext where
  analysis : AnalysisContext
  totalFrames : Option ℕ
  localEstimate : Option LocalEstimate
  locallyLocked : Bool

namespace S6State

/-- Some feature of the global estimator was requested. -/
def enabled (features : FeatureMask) : Bool := decide (s6Features ∩ features ≠ ∅)

/-- Allocate the estimator on first use: the state, and then the ring, the flux array and the beats,
all of which are asked for before any refusal is looked at. -/
def prepare (features : FeatureMask) (s6 : Option S6State) (env : Environment) :
    Status × Option S6State × Environment :=
  if !enabled features || s6.isSome then (.ok, s6, env)
  else
    match env.allocate with
    | (false, env) => (.error .outOfMemory, none, env)
    | (true, env) =>
        let (bins, env) := env.allocate
        let (flux, env) := env.allocate
        let (beats, env) := env.allocate
        if bins && flux && beats then (.ok, some initial, env)
        else (.error .outOfMemory, none, env)

/-- Add an accepted sample to its bin. -/
def processSample (endOfInput : Option ℕ) (s : S6State) (sourceFrame : ℕ) (sample : ℚ) :
    Status × S6State :=
  match addOnsetSample globalBinCapacity globalFramesPerBin endOfInput s.ring
      ⟨0, 0, false, true⟩ sourceFrame sample with
  | (status, ring, _) => (status, { s with ring := ring })

/-- The smallest index of a complete bin the ring holds. -/
def minimumCompleteBin (endOfInput : Option ℕ) (ring : OnsetRing) : Option ℕ :=
  (List.range globalBinCapacity).foldl (fun best slot =>
    match ring slot with
    | some bin =>
        if ring.binComplete globalBinCapacity globalFramesPerBin endOfInput bin.binIndex then
          match best with
          | none => some bin.binIndex
          | some minimum => if bin.binIndex < minimum then some bin.binIndex else best
        else best
    | none => best) none

/-- The first longest run of complete bins, always by a full scan. -/
def findEvidence (endOfInput : Option ℕ) (ring : OnsetRing) : Option (ℕ × ℕ) :=
  match minimumCompleteBin endOfInput ring,
      maximumCompleteBin ring globalBinCapacity globalFramesPerBin endOfInput with
  | some minimum, some maximum =>
      let run := longestRun (ring.binComplete globalBinCapacity globalFramesPerBin endOfInput)
        minimum maximum
      if run.2 ≤ run.1 then none else some run
  | _, _ => none

end S6State

end LibApta
