import Mathlib.Algebra.Order.Ring.Rat
import Mathlib.Data.Nat.Factorial.Basic
import LibApta.Lib.Runs
import LibApta.Session.Control

/-!
# Runs of a session

The session as a state machine: one label for each call of the public interface that can change a
session, with the outcomes of the allocation requests and of the clock readings during the call. A
call whose refresh does not end has no successor.
-/

namespace LibApta

/-- A call of the public interface. -/
inductive Op where
  | setSource (sourceTotal : Option ℕ)
  | seedFromResult (result : Result)
  | setMetadata (metadata : Option Metadata)
  | setFocus (focus : Focus)
  | requestRegion (request : RegionRequest)
  | cancelRegionRequest (requestId : ℕ)
  | nextPcmRequest
  | pushPcm (block : PcmBlock)
  | signalEndOfInput (finalEnd : ℕ)
  | process (source : Session.PullSource) (budget : WorkBudget)
  | lockGridRange (range : FrameRange)
  | applyGridRevision (revisionId : ℕ)
  | requestCancel

/-- A call with what the allocator and the clock answer during it. -/
structure Call where
  op : Op
  allocations : List Bool
  clock : List ℕ

namespace Session

/-- The session with the platform outcomes of a call. -/
def withPlatform (call : Call) (s : Session) : Session :=
  { s with env := ⟨call.allocations, call.clock, s.env.deadline⟩ }

/-- Carry out a call: its status and the session after it. -/
def perform : Op → Session → Option (Status × Session)
  | .setSource sourceTotal, s => some (s.setSource sourceTotal)
  | .seedFromResult result, s => some (s.seedFromResult result)
  | .setMetadata metadata, s => some (s.setMetadata metadata)
  | .setFocus focus, s => some (s.setFocus focus)
  | .requestRegion request, s =>
      match s.requestRegion request with
      | (status, _, s) => some (status, s)
  | .cancelRegionRequest requestId, s => some (s.cancelRegionRequest requestId)
  | .nextPcmRequest, s =>
      match s.nextPcmRequest with
      | (.ok _, s) => some (.ok, s)
      | (.error status, s) => some (status, s)
  | .pushPcm block, s =>
      match s.pushPcm block with
      | (status, _, s) => some (status, s)
  | .signalEndOfInput finalEnd, s => some (s.signalEndOfInput finalEnd)
  | .process source budget, s =>
      (s.process source budget).map fun (status, _, s) => (status, s)
  | .lockGridRange range, s => some (s.lockGridRange range)
  | .applyGridRevision revisionId, s => some (s.applyGridRevision revisionId)
  | .requestCancel, s => some (.ok, s.requestCancel)

/-- One call of a run. -/
def step (call : Call) (s : Session) : Option Session :=
  (perform call.op (s.withPlatform call)).map Prod.snd

/-- Take a session through a list of calls. -/
def run (calls : List Call) (s : Session) : Option Session := Runs.run step calls s

/-- Every call of a run is made in a state that its guard admits. -/
def Guarded (guard : Call → Session → Prop) (calls : List Call) (s : Session) : Prop :=
  Runs.Guarded step guard calls s

/-- A session as `create` returns it. -/
def Created (s : Session) : Prop :=
  ∃ config libm usesWorkspace env, create config libm usesWorkspace env = (.ok, some s)

/-! ## A small session -/

/-- The C library near zero and near one, by partial sums of the power series. -/
def seriesLibm : Libm where
  expf x := f32 ((List.range 24).map fun i : ℕ => x ^ i / (i.factorial : ℚ)).sum
  logf x := f32 (2 * ((List.range 24).map fun i : ℕ =>
    ((x - 1) / (x + 1)) ^ (2 * i + 1) / ((2 * i + 1 : ℕ) : ℚ)).sum)

/-- A push session for features of a mono track at 44.1 kHz, with 64 frames a column. -/
def smallConfig (features : FeatureMask) (totalFrames : Option ℕ) : Config where
  requestedFeatures := features
  capabilities := features
  inputMode := .push
  sourceSampleRate := 44100
  channelCount := 1
  channelLayout := 1
  totalFrames := totalFrames
  overviewFramesPerColumn := 64
  fingerprint := none
  requireSourceIdentityForSeeding := false
  boundedResultSlots := false

/-- A platform that grants every request and has no clock. -/
def plainPlatform : Environment := ⟨[], [], 0⟩

/-- A call on that platform. -/
def plainCall (op : Op) : Call := ⟨op, [], []⟩

end Session

end LibApta
