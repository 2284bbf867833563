import Mathlib.Data.Finset.Basic
import Mathlib.Data.Finset.Lattice.Basic
import Mathlib.Data.Rat.Defs

/-!
# Public vocabulary of the analysis session

Feature bits, statuses, lifecycle states, configuration, focus and region requests, as the public
headers and the internal header declare them. Source frames, counters and priorities are natural
numbers; the places where the source tests a 32- or 64-bit limit keep the test. An unknown total
length is `none`.
-/

namespace LibApta

/-! ## Geometry and capacity constants -/

/-- The largest value of a 64-bit unsigned integer. -/
abbrev uint64Max : ℕ := 18446744073709551615

/-- The largest value of a 32-bit unsigned integer. -/
abbrev uint32Max : ℕ := 4294967295

/-- Region-request slots of a session. -/
abbrev maxRegionRequests : ℕ := 16

/-- Overview resolution used when the host asks for none. -/
abbrev defaultOverviewFramesPerColumn : ℕ := 1024

/-- Frames consumed by one scheduler step of the waveform layer. -/
abbrev processChunkFrames : ℕ := 256

/-- Frames accepted from one pushed block. -/
abbrev maxPushFrames : ℕ := 4096

/-- Priority added for each time a request was passed over. -/
abbrev schedulerAgeStep : ℕ := 8

/-- Cap of the pass-over counter. -/
abbrev schedulerMaxSkips : ℕ := 32

/-! ## Features, statuses and states -/

/-- One bit of a feature mask. -/
inductive Feature where
  | waveformOverview
  | waveformDetail
  | waveform3Band
  | bpm
  | localBeatgrid
  | globalBeatgrid
  | dynamicTempo
  | confidence
  | gridLocking
deriving DecidableEq

/-- A set of features. -/
abbrev FeatureMask := Finset Feature

/-- The features the local estimator serves. -/
def s4Features : FeatureMask := {.bpm, .localBeatgrid, .gridLocking}

/-- The features the global estimator serves. -/
def s6Features : FeatureMask := {.globalBeatgrid, .dynamicTempo}

/-- Error codes. -/
inductive ErrorCode where
  | invalidArgument
  | invalidState
  | incompatibleVersion
  | unsupported
  | busy
  | cancelled
  | conflict
  | source
  | outOfMemory
  | limitExceeded
  | resultSlotsExhausted
  | internal
  | corruptData
  | bufferTooSmall
deriving DecidableEq

/-- The result of a call: a non-negative status or an error. -/
inductive Status where
  | ok
  | moreWork
  | wouldBlock
  | endOfInput
  | notAvailable
  | error (code : ErrorCode)
deriving DecidableEq

/-- `status < 0` of the source. -/
def Status.failed : Status → Bool
  | .error _ => true
  | _ => false

/-- Lifecycle states. -/
inductive SessionState where
  | created
  | active
  | draining
  | completed
  | cancelled
  | failed
deriving DecidableEq

/-- Strength of a published feature; `rank` is the numeric value of the public header. -/
inductive FeatureState where
  | absent
  | part
  | provisional
  | stable
  | final
  | failed
deriving DecidableEq

/-- The numeric value of a feature state. -/
def FeatureState.rank : FeatureState → ℕ
  | .absent => 0
  | .part => 1
  | .provisional => 2
  | .stable => 3
  | .final => 4
  | .failed => 5

/-- States of a region request. -/
inductive RequestState where
  | queued
  | waitingForPcm
  | runnable
  | partiallySatisfied
  | satisfied
  | cancelled
  | failed
deriving DecidableEq

/-- Who moves the samples: the host pushes blocks or the session pulls them. -/
inductive InputMode where
  | push
  | pull
deriving DecidableEq

/-- A half-open range of source frames. -/
structure FrameRange where
  firstFrame : ℕ
  endFrame : ℕ
deriving DecidableEq

/-- The frames of a range. -/
def FrameRange.frames (range : FrameRange) : Set ℕ :=
  {frame | range.firstFrame ≤ frame ∧ frame < range.endFrame}

@[simp] theorem FrameRange.mem_frames {range : FrameRange} {frame : ℕ} :
    frame ∈ range.frames ↔ range.firstFrame ≤ frame ∧ frame < range.endFrame := Iff.rfl

/-- Two half-open ranges share a frame (for non-empty ranges). -/
def rangesOverlap (firstA endA firstB endB : ℕ) : Bool :=
  decide (firstA < endB) && decide (firstB < endA)

/-! ## Configuration, focus and requests -/

/-- A source fingerprint: its kind and its bytes; `none` when the host gave none. -/
abbrev Fingerprint := Option (ℕ × List ℕ)

/-- The part of the session configuration that the session reads after creation. `totalFrames` is
the only field that changes: a pull source or the end of input fixes it. -/
structure Config where
  requestedFeatures : FeatureMask
  capabilities : FeatureMask
  inputMode : InputMode
  sourceSampleRate : ℕ
  channelCount : ℕ
  channelLayout : ℕ
  totalFrames : Option ℕ
  overviewFramesPerColumn : ℕ
  fingerprint : Fingerprint
  requireSourceIdentityForSeeding : Bool
  boundedResultSlots : Bool
deriving DecidableEq

/-- A feature was requested at creation. -/
def Config.requests (config : Config) (feature : Feature) : Bool :=
  decide (feature ∈ config.requestedFeatures)

/-- The host's playback focus. -/
structure Focus where
  playheadFrame : ℕ
  lookbehindFrames : ℕ
  lookaheadFrames : ℕ
  featureMask : FeatureMask
  priority : ℕ
deriving DecidableEq

/-- The frames a focus asks for; the end saturates at the largest frame. -/
def Focus.window (focus : Focus) : FrameRange where
  firstFrame :=
    if focus.lookbehindFrames < focus.playheadFrame then
      focus.playheadFrame - focus.lookbehindFrames
    else 0
  endFrame :=
    if uint64Max - focus.playheadFrame < focus.lookaheadFrames then uint64Max
    else focus.playheadFrame + focus.lookaheadFrames

/-- A region request as the host states it; `requestId = 0` asks the session to choose one. -/
structure RegionRequest where
  requestId : ℕ
  range : FrameRange
  featureMask : FeatureMask
  priority : ℕ
  softDeadline : ℕ
deriving DecidableEq

/-- A request slot. `requestId = 0` is an empty slot. -/
structure Request where
  requestId : ℕ
  request : RegionRequest
  state : RequestState
  skipCount : ℕ
  enqueueSerial : ℕ
deriving DecidableEq

/-- An empty request slot. -/
def Request.empty : Request :=
  ⟨0, ⟨0, ⟨0, 0⟩, ∅, 0, 0⟩, .queued, 0, 0⟩

/-- The slot holds a request that still wants work. -/
def Request.isActive (request : Request) : Bool :=
  request.requestId != 0 && request.state != .cancelled && request.state != .failed &&
    request.state != .satisfied

/-- A request for PCM handed to the host or to the pull source. -/
structure PcmRequest where
  range : FrameRange
  featureMask : FeatureMask
  priority : ℕ
  requestToken : ℕ
deriving DecidableEq

/-- A cooperative work budget; a zero field means no limit. -/
structure WorkBudget where
  maximumInputFrames : ℕ
  maximumSteps : ℕ
  softTimeBudgetUs : ℕ
deriving DecidableEq

/-- The frame limit of a budget. -/
def WorkBudget.frameLimit (budget : WorkBudget) : ℕ :=
  if budget.maximumInputFrames = 0 then uint32Max else budget.maximumInputFrames

/-- The step limit of a budget. -/
def WorkBudget.stepLimit (budget : WorkBudget) : ℕ :=
  if budget.maximumSteps = 0 then uint32Max else budget.maximumSteps

/-- A block of decoded mono samples starting at a source frame. A sample is the rational its
binary32 encoding denotes. -/
structure PcmBlock where
  firstFrame : ℕ
  samples : List ℚ
deriving DecidableEq

/-- Frames of a block. -/
def PcmBlock.frameCount (block : PcmBlock) : ℕ := block.samples.length

end LibApta
