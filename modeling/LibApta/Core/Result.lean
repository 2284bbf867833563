import LibApta.Core.Metadata
import LibApta.Beatgrid.State

/-!
# Published results

An immutable snapshot of everything a session knows, with the generation it was published as and
the mask of features its publisher announced as changed. Views that a result does not carry are
`none` or empty.
-/

namespace LibApta

/-- A quantised waveform column: peaks in units of `1 / 32767`, RMS in units of `1 / 65535`, mean
band magnitudes in units of `1 / 255`. -/
structure WaveformColumn where
  minimum : ℤ
  maximum : ℤ
  rms : ℕ
  low : ℕ
  mid : ℕ
  high : ℕ
  clipped : Bool
  has3Band : Bool
deriving DecidableEq

/-- A run of consecutive complete overview columns. -/
structure WaveformSpan where
  firstColumnIndex : ℕ
  sourceRange : FrameRange
  columns : List WaveformColumn
deriving DecidableEq

/-- The overview of a result. -/
structure OverviewView where
  framesPerColumn : ℕ
  confidence : ℕ
  state : FeatureState
  spans : List WaveformSpan
deriving DecidableEq

/-- A published detail tile. -/
structure DetailTileView where
  tileIndex : ℕ
  firstColumnIndex : ℕ
  sourceRange : FrameRange
  state : FeatureState
  columns : List WaveformColumn
deriving DecidableEq

/-- The tempo of a result, with its candidates. -/
structure TempoView where
  selected : TempoValue
  candidates : List TempoCandidate
deriving DecidableEq

/-- A beat grid of a result. Both grids have exactly one coverage range. -/
structure GridView where
  requestedRange : FrameRange
  evidenceRange : FrameRange
  applicabilityRange : FrameRange
  coverageRange : FrameRange
  representation : GridRepresentation
  state : FeatureState
  confidence : ℕ
  flags : ℕ
  segments : List GridSegment
  beats : List Beat
deriving DecidableEq

/-- The source geometry a result was made from. -/
structure SourceInfo where
  totalFrames : Option ℕ
  sampleRate : ℕ
  channelCount : ℕ
  channelLayout : ℕ
  fingerprint : Fingerprint
deriving DecidableEq

/-- A published result. -/
structure Result where
  generation : ℕ
  changedFeatures : FeatureMask
  availableFeatures : FeatureMask
  sessionState : SessionState
  source : SourceInfo
  metadata : Option Metadata
  overview : Option OverviewView
  detailTiles : List DetailTileView
  tempo : Option TempoView
  localGrid : Option GridView
  globalGrid : Option (GridView × GridRevision)
deriving DecidableEq

end LibApta
