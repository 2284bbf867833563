import LibApta.Session.State

/-!
# Accepting and seeding frames

A push takes the prefix of a block that overlaps no accepted frame, copies it into a queue node, and
feeds the derived layers (detail tiles, onset rings) at once; the overview is fed later, by process
calls. Seeding installs the columns of an earlier result as complete and marks its spans accepted.
-/

namespace LibApta

namespace Session

/-! ## The waveform layer -/

/-- Allocate a node for `frames` samples, or for half as many until one fits. The fuel is the number
of halvings of the longest push. -/
def allocateNode : ℕ → ℕ → Environment → Option ℕ × Environment
  | 0, _, env => (none, env)
  | fuel + 1, frames, env =>
      if frames = 0 then (none, env)
      else
        match env.allocate with
        | (true, env) => (some frames, env)
        | (false, env) => allocateNode fuel (frames / 2) env

/-- Accept the non-overlapping prefix of a block into the queue. -/
def acceptPcmBase (block : PcmBlock) (s : Session) : Status × ℕ × Session :=
  let candidate := min block.frameCount maxPushFrames
  match AcceptedRanges.nonoverlappingPrefix block.firstFrame candidate s.accepted.ranges with
  | (accepted, conflictAtStart) =>
      if accepted = 0 then (if conflictAtStart then .error .conflict else .wouldBlock, 0, s)
      else
        match s.accepted.ensureCapacity (s.accepted.ranges.length + 1) s.env with
        | (.ok, table, env) =>
            match allocateNode 13 accepted env with
            | (none, env) => (.wouldBlock, 0, { s with accepted := table, env := env })
            | (some accepted, env) =>
                (if accepted = block.frameCount then .ok else .moreWork, accepted,
                  { s with
                    accepted := table.insertRange block.firstFrame (block.firstFrame + accepted)
                    queue := s.queue ++ [⟨block.firstFrame, block.samples.take accepted, 0⟩]
                    env := env })
        | (status, table, env) =>
            (if status = .error .outOfMemory then .wouldBlock else status, 0,
              { s with accepted := table, env := env })

/-! ## The derived layers -/

/-- The states of the layers that are fed as frames are accepted. -/
structure Derived where
  detail : Detail
  s4 : S4State
  s6 : Option S6State

/-- The derived layers of a session. -/
def derived (s : Session) : Derived := ⟨s.detail, s.s4, s.s6⟩

/-- The session with its derived layers replaced. -/
def setDerived (s : Session) (derived : Derived) : Session :=
  { s with detail := derived.detail, s4 := derived.s4, s6 := derived.s6 }

/-- Feed one accepted sample to the enabled layers, in order; a layer that does not take it stops
the layers after it. -/
def feedSample (features : FeatureMask) (ctx : DetailContext) (frame : ℕ) (sample : ℚ)
    (d : Derived) : Bool × Derived :=
  let (status, detail) :=
    if Feature.waveformDetail ∈ features then Detail.processSample ctx d.detail frame sample
    else (.ok, d.detail)
  if status ≠ .ok then (false, { d with detail := detail })
  else
    let (status, s4) :=
      if S4State.enabled features then S4State.processSample ctx.endOfInput d.s4 frame sample
      else (.ok, d.s4)
    if status ≠ .ok then (false, { d with detail := detail, s4 := s4 })
    else
      match d.s6 with
      | none => (!S6State.enabled features, { d with detail := detail, s4 := s4 })
      | some s6 =>
          let (status, s6) :=
            if S6State.enabled features then S6State.processSample ctx.endOfInput s6 frame sample
            else (.ok, s6)
          (decide (status = .ok), ⟨detail, s4, some s6⟩)

/-- Feed consecutive accepted samples until a layer stops them. -/
def feedSamples (features : FeatureMask) (ctx : DetailContext) :
    List ℚ → ℕ → Derived → Derived
  | [], _, d => d
  | sample :: rest, frame, d =>
      match feedSample features ctx frame sample d with
      | (true, d) => feedSamples features ctx rest (frame + 1) d
      | (false, d) => d

/-- The block reaches past the last tile the detail layer can index. -/
def beyondDetail (block : PcmBlock) : Bool :=
  decide (block.frameCount ≠ 0) &&
    decide (uint32Max / detailColumnsPerTile <
      (block.firstFrame + block.frameCount - 1) / detailTileFrames)

/-- Allocate the estimators that were requested and are not there yet. -/
def prepareEstimators (s : Session) : Status × Session :=
  match S4State.prepare s.config.requestedFeatures s.s4 s.env with
  | (.ok, s4, env) =>
      match S6State.prepare s.config.requestedFeatures s.s6 env with
      | (status, s6, env) => (status, { s with s4 := s4, s6 := s6, env := env })
  | (status, s4, env) => (status, { s with s4 := s4, env := env })

/-- Feed the frames a push has accepted to the derived layers. -/
def feedAccepted (block : PcmBlock) (accepted : ℕ) (s : Session) : Session :=
  let s := s.setDerived (feedSamples s.config.requestedFeatures s.detailContext
    (block.samples.take accepted) block.firstFrame s.derived)
  if s.config.requests .waveformDetail then
    { s with detail := Detail.refreshCompleted s.endOfInput s.detail }
  else s

/-- Offer a conflicting block to the detail layer as a replay. -/
def acceptReplay (block : PcmBlock) (s : Session) : Status × ℕ × Session :=
  match Detail.acceptReplay (s.config.requests .waveformDetail) s.detailContext s.detail block with
  | (status, accepted, detail) => (status, accepted, { s with detail := detail })

/-- Accept a block: the overview layer first, then the derived layers on what it accepted. -/
def acceptPcm (block : PcmBlock) (s : Session) : Status × ℕ × Session :=
  if s.config.requests .waveformDetail && beyondDetail block then (.error .limitExceeded, 0, s)
  else
    match s.prepareEstimators with
    | (.ok, s) =>
        match s.acceptPcmBase block with
        | (.error .conflict, accepted, s) =>
            if s.config.requests .waveformDetail then
              match s.acceptReplay block with
              | (.notAvailable, _, s) => (.error .conflict, accepted, s)
              | result => result
            else (.error .conflict, accepted, s)
        | (status, accepted, s) =>
            if status.failed || decide (accepted = 0) then (status, accepted, s)
            else (status, accepted, s.feedAccepted block accepted)
    | (status, s) => (status, 0, s)

/-! ## Seeding -/

/-- Install a column of a parsed result as complete. The quantisation of the container is inverted;
the sample count is that of the whole column, cut to the known total. -/
def seedColumn (columnIndex sampleCount : ℕ) (column : WaveformColumn) (s : Session) :
    Status × Session :=
  let hasBands := s.config.requests .waveform3Band
  match s.overview.findOrInsert hasBands columnIndex s.env with
  | (.error status, overview, env) => (status, { s with overview := overview, env := env })
  | (.ok position, overview, env) =>
      let scaled := truncate (fmul (fdiv (f32 column.rms) 65535) 8388608)
      let wasComplete := ((overview.accumulators.map Accumulator.complete)[position]?).getD false
      (.ok,
        { s with
          overview := { overview with
            accumulators := overview.accumulators.modify position fun acc =>
              { acc with
                minimum := fdiv column.minimum 32767
                maximum := fdiv column.maximum 32767
                sumSquares := scaled * scaled * sampleCount
                sampleCount := sampleCount
                clipped := column.clipped
                complete := true }
            completeCount := overview.completeCount + (if wasComplete then 0 else 1) }
          env := env })

/-- Frames a seeded column stands for. -/
def seededColumnFrames (s : Session) (columnIndex : ℕ) : ℕ :=
  let first := columnIndex * s.framesPerColumn
  match s.config.totalFrames with
  | some total => min (first + s.framesPerColumn) total - first
  | none => s.framesPerColumn

/-- Seed the columns of a span. A column with no frame below the total is skipped. -/
def seedColumns : List WaveformColumn → ℕ → Session → Status × Session
  | [], _, s => (.ok, s)
  | column :: rest, columnIndex, s =>
      if s.seededColumnFrames columnIndex = 0 then seedColumns rest (columnIndex + 1) s
      else
        match s.seedColumn columnIndex (s.seededColumnFrames columnIndex) column with
        | (.ok, s) => seedColumns rest (columnIndex + 1) s
        | (status, s) => (status, s)

/-- Seed a span: its columns, then its range as accepted. -/
def seedSpan (span : WaveformSpan) (s : Session) : Status × Session :=
  match seedColumns span.columns span.firstColumnIndex s with
  | (.ok, s) =>
      match s.accepted.ensureCapacity (s.accepted.ranges.length + 1) s.env with
      | (.ok, table, env) =>
          (.ok,
            { s with
              accepted := table.insertRange span.sourceRange.firstFrame span.sourceRange.endFrame
              env := env })
      | (status, table, env) => (status, { s with accepted := table, env := env })
  | (status, s) => (status, s)

/-- Seed the spans of an overview in order, up to the first that fails. -/
def seedSpans : List WaveformSpan → Session → Status × Session
  | [], s => (.ok, s)
  | span :: rest, s =>
      match s.seedSpan span with
      | (.ok, s) => seedSpans rest s
      | (status, s) => (status, s)

/-- The geometry or the identity of the source of a result contradicts that of the session. -/
def seedConflicts (source : SourceInfo) (s : Session) : Bool :=
  (decide (source.sampleRate ≠ 0) && decide (source.sampleRate ≠ s.config.sourceSampleRate)) ||
  (decide (source.channelCount ≠ 0) && decide (source.channelCount ≠ s.config.channelCount)) ||
  (decide (source.channelLayout ≠ 0) && decide (s.config.channelLayout ≠ 0) &&
    decide (source.channelLayout ≠ s.config.channelLayout)) ||
  (s.config.requireSourceIdentityForSeeding &&
    (s.config.fingerprint.isNone || source.fingerprint.isNone)) ||
  (s.config.fingerprint.isSome && source.fingerprint.isSome &&
    decide (s.config.fingerprint ≠ source.fingerprint)) ||
  (source.totalFrames.isSome && s.config.totalFrames.isSome &&
    decide (source.totalFrames ≠ s.config.totalFrames))

/-- A span reaches past the known total. -/
def seedBeyondTotal (view : OverviewView) (s : Session) : Bool :=
  match s.config.totalFrames with
  | some total => view.spans.any fun span => decide (total < span.sourceRange.endFrame)
  | none => false

/-- The overview of a result that may be seeded, or the status of the refusal. -/
def seedableView (result : Result) (s : Session) : Except Status OverviewView :=
  if s.state ≠ .created then .error (.error .invalidState)
  else if Feature.waveformOverview ∉ result.availableFeatures then .error (.error .conflict)
  else
    match result.overview with
    | none => .error .notAvailable
    | some view =>
        if s.seedConflicts result.source then .error (.error .conflict)
        else if view.framesPerColumn ≠ s.framesPerColumn then .error (.error .conflict)
        else if s.seedBeyondTotal view then .error (.error .conflict)
        else .ok view

/-- Seed a fresh session from an earlier result. -/
def seedFromResult (result : Result) (s : Session) : Status × Session :=
  match s.seedableView result with
  | .error status => (status, s)
  | .ok view => seedSpans view.spans s

end Session

end LibApta
